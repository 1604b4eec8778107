import PolicyEngine.Eval.State
import PolicyEngine.Eval.Unify

/-!
Depth-first search. A search hands its solutions one after another to a continuation, which accumulates what
it is looking for and says whether more solutions are wanted. Assignments made for a solution are taken back
before the next one is looked for.
-/
namespace PolicyEngine

/-- Whether more solutions are wanted. -/
inductive Flow where
  | more
  | stop
  deriving DecidableEq, Repr

/-- Where a search ends: why, with what accumulated, and in which state. -/
structure Step (α : Type) where
  outcome : Except EvalError Flow
  found : α
  state : State

abbrev Search (α : Type) := α → State → Step α

namespace Search

/-- No solution. -/
def exhausted : Search α := fun found s => ⟨.ok .more, found, s⟩

def raise (e : EvalError) : Search α := fun found s => ⟨.error e, found, s⟩

/-- Accumulates and asks for more. -/
def collect (f : α → α) : Search α := fun found s => ⟨.ok .more, f found, s⟩

/-- Accumulates and asks to stop. -/
def accept (f : α → α) : Search α := fun found s => ⟨.ok .stop, f found, s⟩

/-- Computes something and goes on with it. -/
def after (m : Eval β) (k : β → Search α) : Search α := fun found s =>
  match m.run s with
  | (.ok b, s) => k b found s
  | (.error e, s) => ⟨.error e, found, s⟩

/-- Computes something that may be missing; without it there is no solution. -/
def afterSome (m : Eval (Option β)) (k : β → Search α) : Search α :=
  after m fun
    | some b => k b
    | none => exhausted

/-- Goes on with the environment. -/
def withBindings (k : Bindings → Search α) : Search α := fun found s => k s.bindings found s

/-- Goes on in an extended environment, and takes the extension back. -/
def extending (extend : Bindings → Option Bindings) (k : Search α) : Search α := fun found s =>
  match extend s.bindings with
  | none => ⟨.ok .more, found, s⟩
  | some b =>
    let r := k found { s with bindings := b }
    { r with state := { r.state with bindings := r.state.bindings.undo s.bindings.mark } }

/-- Goes on with two terms unified. -/
def unifying (x y : Term) (k : Search α) : Search α := extending (Bindings.unify x y) k

/-- Goes on with each of a list in turn, until a stop or an error. -/
def each : List β → (β → Search α) → Search α
  | [], _ => exhausted
  | b :: rest, k => fun found s =>
    match k b found s with
    | ⟨.ok .more, found, s⟩ => each rest k found s
    | r => r

/-- Runs a search to its end, and decides then whether more solutions are wanted. -/
def endingWith (flow : Flow) (search : Search α) : Search α := fun found s =>
  let r := search found s
  { r with outcome := r.outcome.map fun _ => flow }

/-- Runs a search to its end for what it accumulates. -/
def gather (search : Search β) (start : β) : Eval β := ExceptT.mk fun s =>
  let r := search start s
  (r.outcome.map fun _ => r.found, r.state)

/-- Notes that the continuation was called. -/
def noting (k : Search α) : Search (α × Bool) := fun found s =>
  let r := k found.1 s
  ⟨r.outcome, (r.found, true), r.state⟩

/-- Runs a search, and a computation after it when the search ends without a solution. -/
def orElse (search : Search (α × Bool)) (otherwise : Eval Unit) : Search α := fun found s =>
  match search (found, false) s with
  | ⟨.ok flow, (found, false), s⟩ =>
    match otherwise.run s with
    | (.ok (), s) => ⟨.ok flow, found, s⟩
    | (.error e, s) => ⟨.error e, found, s⟩
  | ⟨outcome, (found, _), s⟩ => ⟨outcome, found, s⟩

/-- Runs a search in a scope of its own. The continuation belongs to the enclosing scope. -/
def inScope (scope : Scope) (search : Search α → Search α) (k : Search α) : Search α := fun found s =>
  let opened := s.openScope scope
  let r := search
    (fun found inner =>
      let r := k found { inner with scope := s.scope }
      { r with state := { r.state with scope := inner.scope } })
    found opened
  { r with state := r.state.closeScope opened.scope.id s.scope }

end Search

namespace Eval

/-- Runs a computation in an extended environment and takes the extension back. -/
def extending (extend : Bindings → Option Bindings) (otherwise : β) (m : Eval β) : Eval β := ExceptT.mk fun s =>
  match extend s.bindings with
  | none => (.ok otherwise, s)
  | some b =>
    let (r, s') := m.run { s with bindings := b }
    (r, { s' with bindings := s'.bindings.undo s.bindings.mark })

/-- Whether a test holds for all of a list; it is not made after one for which it does not. -/
def forAll (test : β → Eval Bool) : List β → Eval Bool
  | [] => pure true
  | b :: rest => do
    if ← test b then forAll test rest else pure false

end Eval
end PolicyEngine
