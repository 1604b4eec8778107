import PolicyEngine.Policy.Reader
import PolicyEngine.Policy.Build
import PolicyEngine.Term.Hash
import PolicyEngine.Trace
import PolicyEngine.Store
import PolicyEngine.Text.Case
import PolicyEngine.Text.Search
import PolicyEngine.Builtin.Core
import PolicyEngine.Policy.Index
import PolicyEngine.Engine
import PolicyEngine.Proofs.Backtracking
import PolicyEngine.Proofs.Conjunction
import PolicyEngine.Proofs.Memo
import PolicyEngine.Proofs.Recollection
import PolicyEngine.Proofs.Layout
import PolicyEngine.Proofs.Reading
import PolicyEngine.Proofs.Indexing
import PolicyEngine.Proofs.Standing
import PolicyEngine.Proofs.Derivation
import PolicyEngine.Proofs.Declarations
import PolicyEngine.Proofs.Reordering
import PolicyEngine.Proofs.Equality
import PolicyEngine.Proofs.Naming
import PolicyEngine.Proofs.Merging
import PolicyEngine.Proofs.Conflicts
import PolicyEngine.Proofs.Cutting
import PolicyEngine.Proofs.Grounded
import PolicyEngine.Proofs.Unaffected
import PolicyEngine.Proofs.Loading
import PolicyEngine.Proofs.Addresses
import PolicyEngine.Proofs.Agreement
import PolicyEngine.Proofs.Results
import PolicyEngine.Proofs.Closed
import PolicyEngine.Proofs.Nesting
import PolicyEngine.Proofs.Scoping
import PolicyEngine.Proofs.Rereading
import PolicyEngine.Proofs.Printing
import PolicyEngine.Proofs.Leniency
import PolicyEngine.Proofs.Signatures
import PolicyEngine.Proofs.Unification
import PolicyEngine.Proofs.Symmetry
import PolicyEngine.Proofs.Selection
import PolicyEngine.Proofs.Acceptance
import PolicyEngine.Proofs.Overlaying
import PolicyEngine.Proofs.Comprehensions
import PolicyEngine.Proofs.Containment
import PolicyEngine.Proofs.Writing
import PolicyEngine.Proofs.Walks
import PolicyEngine.Proofs.EqualNumbers
import PolicyEngine.Proofs.Literals
import PolicyEngine.Proofs.Membership
import PolicyEngine.Proofs.Exactness
import PolicyEngine.Proofs.Padding
import PolicyEngine.Proofs.Validity
import PolicyEngine.Proofs.Splitting
import PolicyEngine.Proofs.Positions
import PolicyEngine.Proofs.Subsets
import PolicyEngine.Proofs.CheckPoints
import PolicyEngine.Proofs.Histories
import PolicyEngine.Proofs.Journals
import PolicyEngine.Proofs.Constraints
