import PolicyEngine.Path
import PolicyEngine.Policy.Rule
import PolicyEngine.Term.Order

/-!
Constructors for assembling terms, expressions, rules and modules without going through their encoding.
-/
namespace PolicyEngine

namespace Term

/-- The static reference named by a dotted text. -/
def reference (path : String) : Term :=
  match splitDots path with
  | [] => .ref (.var "") []
  | root :: keys => .ref (.var root) (keys.map .string)

/-- A reference with further operands after the dotted beginning. -/
def referenceWith (path : String) (operands : List Term) : Term :=
  match reference path with
  | .ref head keys => .ref head (keys ++ operands)
  | t => t

/-- A call of the operator named by a dotted text. -/
def callOf (operator : String) (arguments : List Term) : Term := .call (reference operator) arguments

end Term

/-- The expressions numbered in order. -/
def Body.ofList (exprs : List Expr) : Body := exprs.zipIdx.map fun (e, i) => e.withIndex i

namespace Expr

def ofTerm (t : Term) : Expr := .ofKind (.term t)
def callOf (operator : String) (arguments : List Term) : Expr := ofTerm (Term.callOf operator arguments)

/-- The equation of two terms. -/
def eq (a b : Term) : Expr := callOf "eq" [a, b]
def assign (a b : Term) : Expr := callOf "assign" [a, b]

def not : Expr → Expr
  | .mk kind _ overrides index => .mk kind true overrides index

/-- The expression under one more override. -/
def overriding (target : String) (value : Term) : Expr → Expr
  | .mk kind negated overrides index => .mk kind negated (overrides ++ [(Term.reference target, value)]) index

/-- Declares fresh variables. -/
def someVars (vars : List Term) : Expr := .ofKind (.someDecl vars)

/-- Generates the elements of a domain, with their keys if a key is given. -/
def someIn (key : Option Term) (value domain : Term) : Expr :=
  match key with
  | some k => .ofKind (.someDecl [Term.callOf "internal.member_3" [k, value, domain]])
  | none => .ofKind (.someDecl [Term.callOf "internal.member_2" [value, domain]])

def every (key : Option Term) (value domain : Term) (exprs : List Expr) : Expr :=
  .ofKind (.every key value domain (Body.ofList exprs))

end Expr

namespace Head

/-- The head with the dotted name and nothing else. -/
def named (name : String) : Head :=
  match splitDots name with
  | [] => ⟨.var "", [], none, none, [], false⟩
  | root :: keys => ⟨.var root, keys.map .string, none, none, [], false⟩

def withKey (key : Term) (h : Head) : Head := { h with key := some key }
def withValue (value : Term) (h : Head) : Head := { h with value := some value, assign := true }
def withParams (params : List Term) (h : Head) : Head := { h with params := params }

end Head

/-- Adds `else` at the end of a rule: the head of the rule without its key, and a value of its own. -/
def Rule.orElse (value : Option Term) (exprs : List Expr) (r : Rule) : Rule :=
  let clause : Clause := ⟨false, { r.first.head with value := value, key := none }, Body.ofList exprs⟩
  { r with otherwise := r.otherwise ++ [clause] }

/-- The module of a dotted package; empty segments are passed over. -/
def Module.ofPackage (package : String) (rules : List Rule) : Module :=
  ⟨(splitDots package).filter (!·.isEmpty), rules⟩

end PolicyEngine
