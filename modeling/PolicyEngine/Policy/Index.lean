import PolicyEngine.Error
import PolicyEngine.Policy.RuleSet

/-!
Rule indices. An index collects, for every rule, the equalities and memberships on references to `input` and
to plain data that its body asks for. The references are resolved once, and a rule is a candidate when as many
of its constraints hold as it has. A rule without constraints is always a candidate.
-/
namespace PolicyEngine

/-- What a body asks of the value of a reference. -/
inductive Constraint where
  | equals (reference value : Term)
  | member (reference value : Term)

namespace Constraint

def same : Constraint → Constraint → Bool
  | .equals r v, .equals r' v' | .member r v, .member r' v' => r == r' && v == v'
  | _, _ => false

/-- Values that an index can look up. -/
def isIndexValue : Term → Bool
  | .array items => items.all Term.isScalar
  | t => t.isScalar

/-- The string keys at the start of a list of operands. -/
def leadingKeys (operands : List Term) : List String := (RefChain.splitKeys operands).1

/-- A reference with scalar operands, rooted at `input` or at data that no rule has to do with. -/
def isIndexRef (overlaps : DataPath → Bool) : Term → Bool
  | .ref (.var root) operands =>
    operands.all Term.isScalar &&
      (root == "input" || (root == "data" && !overlaps (leadingKeys operands)))
  | _ => false

/-- The constraint that an expression sets. -/
def ofExpr? (overlaps : DataPath → Bool) (e : Expr) : Option Constraint :=
  if e.negated || !e.overrides.isEmpty then none
  else match e.call? with
    | some ("eq", [a, b]) | some ("equal", [a, b]) =>
      if isIndexRef overlaps a && isIndexValue b then some (.equals a b)
      else if isIndexRef overlaps b && isIndexValue a then some (.equals b a)
      else none
    | some ("internal.member_2", [x, xs]) =>
      if x.isScalar && isIndexRef overlaps xs then some (.member xs x) else none
    | _ => none

/-- Adds a constraint unless the same one is there. -/
def addDistinct (cs : List Constraint) (c : Constraint) : List Constraint :=
  if cs.any c.same then cs else cs ++ [c]

/-- The distinct constraints of a rule. A rule with `else` has none: its value may come from a clause after
one that fails. -/
def ofRule (overlaps : DataPath → Bool) (r : Rule) : List Constraint :=
  if !r.otherwise.isEmpty then []
  else (r.first.body.filterMap (ofExpr? overlaps)).foldl addDistinct []

end Constraint

/-- For each reference, in order, the rules that ask for each value. -/
abbrev IndexTable := List (Term × List (Term × List Nat))

namespace IndexTable

def addToBucket (value : Term) (rule : Nat) : List (Term × List Nat) → List (Term × List Nat)
  | [] => [(value, [rule])]
  | (v, rules) :: rest => if v == value then (v, rules ++ [rule]) :: rest else (v, rules) :: addToBucket value rule rest

def add (reference value : Term) (rule : Nat) : IndexTable → IndexTable
  | [] => [(reference, [(value, [rule])])]
  | (r, buckets) :: rest =>
    match reference.cmp r with
    | .lt => (reference, [(value, [rule])]) :: (r, buckets) :: rest
    | .eq => (r, addToBucket value rule buckets) :: rest
    | .gt => (r, buckets) :: add reference value rule rest

/-- The rules that ask for a value. -/
def rulesFor (value : Term) (buckets : List (Term × List Nat)) : List Nat :=
  ((buckets.find? fun (v, _) => v == value).map Prod.snd).getD []

end IndexTable

structure RuleIndex where
  equals : IndexTable := []
  members : IndexTable := []
  /-- The number of constraints of each rule. -/
  counts : List Nat := []

namespace RuleIndex

def addConstraint (rule : Nat) (index : RuleIndex) : Constraint → RuleIndex
  | .equals r v => { index with equals := IndexTable.add r v rule index.equals }
  | .member r v => { index with members := IndexTable.add r v rule index.members }

def addRule (overlaps : DataPath → Bool) (index : RuleIndex) (rule : Rule) : RuleIndex :=
  let constraints := Constraint.ofRule overlaps rule
  let index := constraints.foldl (addConstraint index.counts.length) index
  { index with counts := index.counts ++ [constraints.length] }

def build (overlaps : DataPath → Bool) (rules : List Rule) : RuleIndex :=
  rules.foldl (addRule overlaps) {}

def isEmpty (index : RuleIndex) : Bool := index.equals.isEmpty && index.members.isEmpty

/-- The values among which a membership is looked for. -/
def elements : Term → List Term
  | .array items => Term.sortMembers items
  | .set members => Term.sortMembers members
  | .object fields => Term.sortMembers (fields.map Prod.snd)
  | _ => []

/-- The rules, repeated, whose constraints on the references of a table hold. -/
def hits (found : Term → List (Term × List Nat) → List Nat) (resolve : Term → σ → Except EvalError (Option Term) × σ) :
    IndexTable → σ → Except EvalError (List Nat) × σ
  | [], s => (.ok [], s)
  | (reference, buckets) :: rest, s =>
    match resolve reference s with
    | (.error e, s) => (.error e, s)
    | (.ok value, s) =>
      match hits found resolve rest s with
      | (.error e, s) => (.error e, s)
      | (.ok later, s) => (.ok ((value.map (found · buckets)).getD [] ++ later), s)

def equalsHits (value : Term) (buckets : List (Term × List Nat)) : List Nat := IndexTable.rulesFor value buckets

def memberHits (collection : Term) (buckets : List (Term × List Nat)) : List Nat :=
  (elements collection).flatMap (IndexTable.rulesFor · buckets)

/-- The positions of the rules that may succeed, as they were declared. -/
def candidates (index : RuleIndex) (resolve : Term → σ → Except EvalError (Option Term) × σ) (s : σ) :
    Except EvalError (List Nat) × σ :=
  match hits equalsHits resolve index.equals s with
  | (.error e, s) => (.error e, s)
  | (.ok byEquality, s) =>
    match hits memberHits resolve index.members s with
    | (.error e, s) => (.error e, s)
    | (.ok byMembership, s) =>
      let satisfied := byEquality ++ byMembership
      (.ok ((index.counts.zipIdx.filter fun (count, i) => satisfied.count i == count).map Prod.snd), s)

end RuleIndex
end PolicyEngine
