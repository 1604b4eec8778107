import PolicyEngine.Term.Order

/-!
Variables and their values during the evaluation of a body. An environment is the stack of the assignments
in force: a newer assignment covers an older one of the same variable, and going back to a choice point
removes the assignments made after it.
-/
namespace PolicyEngine

mutual
/-- Puts terms in place of variables. Collections without variables stay as they are, and so do
comprehensions, whose variables are their own. -/
def Term.substitute (f : String → Term) : Term → Term
  | .var name => f name
  | .array items => .array (Term.substituteList f items)
  | .object fields =>
    if Term.fieldsGround fields then .object fields else Term.objectOf (Term.substituteFields f fields)
  | .set members =>
    if Term.allGround members then .set members else Term.setOf (Term.substituteList f members)
  | .ref head operands => .ref (Term.substitute f head) (Term.substituteList f operands)
  | .call operator arguments => .call (Term.substitute f operator) (Term.substituteList f arguments)
  | t => t
def Term.substituteList (f : String → Term) : List Term → List Term
  | [] => []
  | t :: rest => Term.substitute f t :: Term.substituteList f rest
def Term.substituteFields (f : String → Term) : List (Term × Term) → List (Term × Term)
  | [] => []
  | (k, v) :: rest => (Term.substitute f k, Term.substitute f v) :: Term.substituteFields f rest
end

/-- The variable that matches anything and is never bound. -/
def wildcard : String := "_"

/-- Assignments, the newest first. A variable assigned nothing is hidden: it is unbound until the assignment
is undone. -/
structure Bindings where
  assignments : List (String × Option Term) := []

namespace Bindings

def lookup (name : String) (b : Bindings) : Option Term :=
  (b.assignments.find? fun (n, _) => n == name).bind Prod.snd

def assign (name : String) (value : Option Term) (b : Bindings) : Bindings := ⟨(name, value) :: b.assignments⟩

/-! ## Choice points -/

/-- A choice point, to which the environment can be taken back. -/
def mark (b : Bindings) : Nat := b.assignments.length

/-- Takes back the assignments made after a choice point. -/
def undo (mark : Nat) (b : Bindings) : Bindings := ⟨b.assignments.drop (b.assignments.length - mark)⟩

/-! ## Values -/

/-- Follows variables to variables for a number of steps. -/
def follow (b : Bindings) : Nat → Term → Term
  | n + 1, .var name =>
    match b.lookup name with
    | some t => follow b n t
    | none => .var name
  | _, t => t

/-- Follows variables to variables as far as they go. In a circle of variables there is no end. -/
def followOn? (b : Bindings) (t : Term) : Option Term :=
  match t with
  | .var name =>
    match b.lookup name with
    | some t => b |>.followOn? t
    | none => some (.var name)
  | t => some t
partial_fixpoint

/-- The value of a variable, or the unbound variable it stands for. A way that ends has no more steps than there are
assignments. -/
def deref (b : Bindings) (t : Term) : Term :=
  match b.follow b.assignments.length t with
  | .var name => if (b.lookup name).isNone then .var name else (b.followOn? (.var name)).getD (.var name)
  | value => value

/-- Puts the values of variables in place, and in the values again, to a number of levels. -/
def plugTo (b : Bindings) : Nat → Term → Term
  | 0, t => t
  | n + 1, t =>
    if t.isGround then t
    else t.substitute fun name =>
      match b.deref (.var name) with
      | .var unbound => .var unbound
      | value => plugTo b n value

/-- No bound variable is left below a number of levels. -/
def endsAt (b : Bindings) : Nat → Term → Bool
  | 0, t => t.vars.all fun name => (b.lookup name).isNone
  | n + 1, t => t.vars.all fun name =>
    match b.deref (.var name) with
    | .var _ => true
    | value => endsAt b n value

/-- Puts the values of variables in place, and in the values again, as far as they go. Where a variable depends on
itself there is no end. -/
def plugOn? (b : Bindings) (t : Term) : Option Term :=
  match t with
  | .var name =>
    match b.deref (.var name) with
    | .var unbound => some (.var unbound)
    | value => b |>.plugOn? value
  | .array items => do return .array (← items.mapM (b |>.plugOn?))
  | .object fields =>
    if Term.fieldsGround fields then some (.object fields)
    else do
      let fields ← fields.mapM fun (k, v) => do return (← b |>.plugOn? k, ← b |>.plugOn? v)
      return Term.objectOf fields
  | .set members =>
    if Term.allGround members then some (.set members)
    else do return Term.setOf (← members.mapM (b |>.plugOn?))
  | .ref head operands => do return .ref (← b |>.plugOn? head) (← operands.mapM (b |>.plugOn?))
  | .call operator arguments => do return .call (← b |>.plugOn? operator) (← arguments.mapM (b |>.plugOn?))
  | t => some t
partial_fixpoint

/-- The term with the values of all bound variables in place. Values that end do so at no more levels than there are
assignments. -/
def plug (b : Bindings) (t : Term) : Term :=
  let plugged := b.plugTo b.assignments.length t
  if b.endsAt b.assignments.length t then plugged else (b.plugOn? t).getD plugged

/-! ## Assignments -/

/-- Binds an unbound variable; fails when the value contains the variable itself. -/
def bind (name : String) (value : Term) (b : Bindings) : Option Bindings :=
  if name == wildcard then some b
  else if !value.isGround && (b.plug value).vars.contains name then none
  else some (b.assign name (some value))

/-- Binds a variable whatever its value is. -/
def shadow (name : String) (value : Term) (b : Bindings) : Bindings :=
  if name == wildcard then b else b.assign name (some value)

/-- Makes a variable unbound. -/
def hide (name : String) (b : Bindings) : Bindings :=
  if (b.lookup name).isSome then b.assign name none else b

/-- Makes the variables among terms unbound. -/
def hideAll (symbols : List Term) (b : Bindings) : Bindings :=
  symbols.foldl (fun b t => match t with
    | .var name => b.hide name
    | _ => b) b

end Bindings
end PolicyEngine
