import PolicyEngine.Number.Basic

/-!
Terms and expressions of the policy language. Documents are made of the ground terms `null` to `set`;
variables, references, calls and comprehensions occur in rule bodies and queries only. Objects are lists of
fields sorted by key and sets are sorted lists of members, without repetitions.
-/
namespace PolicyEngine

mutual

/-- A term. A reference is a head followed by operands, a call an operator followed by its arguments. -/
inductive Term where
  | null
  | bool (value : Bool)
  | number (value : Number)
  | string (value : String)
  | array (items : List Term)
  | object (fields : List (Term × Term))
  | set (members : List Term)
  | var (name : String)
  | ref (head : Term) (operands : List Term)
  | call (operator : Term) (arguments : List Term)
  | arrayCompr (term : Term) (body : List Expr)
  | setCompr (term : Term) (body : List Expr)
  | objectCompr (key value : Term) (body : List Expr)

/-- An expression of a body: what it asks, whether it is negated, the overrides it is evaluated under
(target and replacement) and its position. -/
inductive Expr where
  | mk (kind : ExprKind) (negated : Bool) (overrides : List (Term × Term)) (index : Nat)

/-- What an expression asks: that a term holds, that variables are fresh, or that a body holds for every
element of a domain. -/
inductive ExprKind where
  | term (term : Term)
  | someDecl (symbols : List Term)
  | every (key : Option Term) (value domain : Term) (body : List Expr)

end

/-- A conjunction of expressions, evaluated in order. -/
abbrev Body := List Expr

instance : Inhabited Term := ⟨.null⟩
instance : Inhabited ExprKind := ⟨.term .null⟩
instance : Inhabited Expr := ⟨.mk default false [] 0⟩

namespace Expr

def kind : Expr → ExprKind
  | .mk kind _ _ _ => kind

def negated : Expr → Bool
  | .mk _ negated _ _ => negated

def overrides : Expr → List (Term × Term)
  | .mk _ _ overrides _ => overrides

def index : Expr → Nat
  | .mk _ _ _ index => index

/-- An expression at position zero, neither negated nor under overrides. -/
def ofKind (kind : ExprKind) : Expr := .mk kind false [] 0

def withIndex (index : Nat) : Expr → Expr
  | .mk kind negated overrides _ => .mk kind negated overrides index

end Expr

namespace Term

/-! ## Constructors for documents -/

def ofInt (i : Int) : Term := .number (.ofInt i)
def ofNat (n : Nat) : Term := .number (.ofNat n)
def emptyObject : Term := .object []

/-! ## Predicates -/

def isScalar : Term → Bool
  | .null | .bool _ | .number _ | .string _ => true
  | _ => false

def isVar : Term → Bool
  | .var _ => true
  | _ => false

mutual
/-- No variable, reference or call occurs. A comprehension has a scope of its own and counts as ground. -/
def isGround : Term → Bool
  | .array items => allGround items
  | .object fields => fieldsGround fields
  | .set members => allGround members
  | .var _ | .ref _ _ | .call _ _ => false
  | _ => true
def allGround : List Term → Bool
  | [] => true
  | t :: rest => isGround t && allGround rest
def fieldsGround : List (Term × Term) → Bool
  | [] => true
  | (k, v) :: rest => isGround k && isGround v && fieldsGround rest
end

mutual
/-- Evaluation takes more than putting values in place of variables. -/
def needsEval : Term → Bool
  | .ref _ _ | .call _ _ | .arrayCompr _ _ | .setCompr _ _ | .objectCompr _ _ _ => true
  | .array items => anyNeedsEval items
  | .object fields => fieldsNeedEval fields
  | .set members => anyNeedsEval members
  | _ => false
def anyNeedsEval : List Term → Bool
  | [] => false
  | t :: rest => needsEval t || anyNeedsEval rest
def fieldsNeedEval : List (Term × Term) → Bool
  | [] => false
  | (k, v) :: rest => needsEval k || needsEval v || fieldsNeedEval rest
end

mutual
/-- The variables of a term in order of occurrence. Those of a comprehension are local to it. -/
def vars : Term → List String
  | .var name => [name]
  | .array items => listVars items
  | .set members => listVars members
  | .object fields => fieldsVars fields
  | .ref head operands => vars head ++ listVars operands
  | .call operator arguments => vars operator ++ listVars arguments
  | _ => []
def listVars : List Term → List String
  | [] => []
  | t :: rest => vars t ++ listVars rest
def fieldsVars : List (Term × Term) → List String
  | [] => []
  | (k, v) :: rest => vars k ++ vars v ++ fieldsVars rest
end

/-- The name of the kind of a term. -/
def typeName : Term → String
  | .null => "null"
  | .bool _ => "boolean"
  | .number _ => "number"
  | .string _ => "string"
  | .array _ => "array"
  | .object _ => "object"
  | .set _ => "set"
  | .var _ => "var"
  | .ref _ _ => "ref"
  | .call _ _ => "call"
  | .arrayCompr _ _ => "arraycomprehension"
  | .setCompr _ _ => "setcomprehension"
  | .objectCompr _ _ _ => "objectcomprehension"

/-! ## Names -/

/-- The text of a list of string terms, each after a point; nothing if another term is among them. -/
def dottedOperands? : List Term → Option String
  | [] => some ""
  | .string s :: rest => (dottedOperands? rest).map fun tail => "." ++ s ++ tail
  | _ :: _ => none

/-- The dotted name of a static reference. -/
def refName? : Term → Option String
  | .ref (.var head) operands => (dottedOperands? operands).map (head ++ ·)
  | _ => none

end Term

/-- Puts a name into a sorted list of names without repetitions. -/
def insertName (name : String) : List String → List String
  | [] => [name]
  | n :: rest =>
    match compare name n with
    | .lt => name :: n :: rest
    | .eq => n :: rest
    | .gt => n :: insertName name rest

/-- The names in order, each once. -/
def sortNames (names : List String) : List String := names.foldr insertName []

/-- The operator name and the arguments of a call expression. -/
def Expr.call? (e : Expr) : Option (String × List Term) :=
  match e.kind with
  | .term (.call operator arguments) => operator.refName?.map fun name => (name, arguments)
  | _ => none

end PolicyEngine
