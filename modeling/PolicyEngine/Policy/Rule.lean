import PolicyEngine.Term.Printer

/-!
Rules and modules. A rule is a chain of clauses: its own clause and the `else` clauses after it.
-/
namespace PolicyEngine

/-- What a rule defines. -/
inductive DocKind where
  | complete
  | partialSet
  | partialObject
  | function
  deriving DecidableEq, Repr

def DocKind.name : DocKind → String
  | .complete => "Complete"
  | .partialSet => "PartialSet"
  | .partialObject => "PartialObject"
  | .function => "Function"

/-- The head of a clause: the name of the rule and the keys after it, the key of a partial document, the
value, and the parameters of a function. -/
structure Head where
  name : Term
  keys : List Term
  key : Option Term := none
  value : Option Term := none
  params : List Term := []
  assign : Bool := false

def Head.kind (h : Head) : DocKind :=
  if !h.params.isEmpty then .function
  else match h.key, h.value with
    | some _, some _ => .partialObject
    | some _, none => .partialSet
    | none, _ => .complete

structure Clause where
  isDefault : Bool := false
  head : Head
  body : Body := []

namespace Clause

/-- The value of a clause whose body holds; `true` when none is written. -/
def value (c : Clause) : Term := c.head.value.getD (.bool true)

def text (c : Clause) : String :=
  let params := if c.head.params.isEmpty then "" else "(" ++ commaSeparated (Term.texts c.head.params) ++ ")"
  let key := match c.head.key with
    | some k => "[" ++ k.text ++ "]"
    | none => ""
  let value := match c.head.value with
    | some v => " = " ++ v.text
    | none => ""
  (if c.isDefault then "default " else "") ++ (Term.ref c.head.name c.head.keys).text ++ params ++ key ++ value
    ++ " \x7b " ++ "; ".intercalate (Expr.texts c.body) ++ " \x7d"

end Clause

/-- A clause and the clauses tried in turn when it has no value. -/
structure Rule where
  first : Clause
  otherwise : List Clause := []

def Rule.clauses (r : Rule) : List Clause := r.first :: r.otherwise

structure Module where
  package : List String
  rules : List Rule

end PolicyEngine
