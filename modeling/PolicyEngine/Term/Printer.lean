import PolicyEngine.Term.Basic
import PolicyEngine.Json.Printer

/-!
The text of terms and expressions in the notation of the language.
-/
namespace PolicyEngine

/-- A name that can follow a point: a letter or underscore, then letters, digits and underscores. -/
def isIdentifier (s : String) : Bool :=
  let letter (c : Char) : Bool := c.isAlpha || c == '_'
  match s.toList with
  | [] => false
  | c :: rest => letter c && rest.all fun c => letter c || isDigit c

def commaSeparated (items : List String) : String := ", ".intercalate items

/-- The text of a quantifier over a domain, given the texts of its parts. -/
def everyText (key : Option String) (value domain : String) (body : List String) : String :=
  let key := match key with
    | some k => k ++ ", "
    | none => ""
  "every " ++ key ++ value ++ " in " ++ domain ++ " \x7b " ++ "; ".intercalate body ++ " \x7d"

/-- The text of a declaration or generator, given the operator of a call and the texts of its arguments. -/
def generatorText (operator : Option String) (arguments : List String) (whole : String) : String :=
  match operator, arguments with
  | some "internal.member_2", [x, xs] => "some " ++ x ++ " in " ++ xs
  | some "internal.member_3", [k, v, xs] => "some " ++ k ++ ", " ++ v ++ " in " ++ xs
  | _, _ => "some " ++ whole

/-- The text of a call expression: equations and assignments are written with their sign. -/
def callText (operator : Option String) (arguments : List String) (whole : String) : String :=
  match operator, arguments with
  | some "eq", [a, b] => a ++ " = " ++ b
  | some "assign", [a, b] => a ++ " := " ++ b
  | _, _ => whole

mutual
def Term.text : Term → String
  | .null => "null"
  | .bool b => if b then "true" else "false"
  | .number n => n.decimalText
  | .string s => Json.quote s
  | .array items => "[" ++ commaSeparated (Term.texts items) ++ "]"
  | .object fields => "\x7b" ++ commaSeparated (Term.fieldTexts fields) ++ "\x7d"
  | .set members => if members.isEmpty then "set()" else "\x7b" ++ commaSeparated (Term.texts members) ++ "\x7d"
  | .var name => name
  | .ref head operands => head.text ++ Term.operandsText operands
  | .call operator arguments => operator.text ++ "(" ++ commaSeparated (Term.texts arguments) ++ ")"
  | .arrayCompr term body => "[" ++ term.text ++ " | " ++ "; ".intercalate (Expr.texts body) ++ "]"
  | .setCompr term body => "\x7b" ++ term.text ++ " | " ++ "; ".intercalate (Expr.texts body) ++ "\x7d"
  | .objectCompr key value body =>
    "\x7b" ++ key.text ++ ": " ++ value.text ++ " | " ++ "; ".intercalate (Expr.texts body) ++ "\x7d"
def Term.texts : List Term → List String
  | [] => []
  | t :: rest => t.text :: Term.texts rest
def Term.fieldTexts : List (Term × Term) → List String
  | [] => []
  | (k, v) :: rest => (k.text ++ ": " ++ v.text) :: Term.fieldTexts rest
/-- The operands of a reference: names after points, everything else in brackets. -/
def Term.operandsText : List Term → String
  | [] => ""
  | t :: rest =>
    let one := match t with
      | .string s => if isIdentifier s then "." ++ s else "[" ++ Json.quote s ++ "]"
      | t => "[" ++ t.text ++ "]"
    one ++ Term.operandsText rest
def Term.overridesText : List (Term × Term) → String
  | [] => ""
  | (target, value) :: rest => " with " ++ target.text ++ " as " ++ value.text ++ Term.overridesText rest
def ExprKind.text : ExprKind → String
  | .term (.call operator arguments) =>
    let args := Term.texts arguments
    callText operator.refName? args (operator.text ++ "(" ++ commaSeparated args ++ ")")
  | .term t => t.text
  | .someDecl [.call operator arguments] =>
    let args := Term.texts arguments
    generatorText operator.refName? args (operator.text ++ "(" ++ commaSeparated args ++ ")")
  | .someDecl symbols => "some " ++ commaSeparated (Term.texts symbols)
  | .every none value domain body => everyText none value.text domain.text (Expr.texts body)
  | .every (some key) value domain body => everyText (some key.text) value.text domain.text (Expr.texts body)
def Expr.text : Expr → String
  | .mk kind negated overrides _ =>
    (if negated then "not " else "") ++ kind.text ++ Term.overridesText overrides
def Expr.texts : List Expr → List String
  | [] => []
  | e :: rest => e.text :: Expr.texts rest
end

end PolicyEngine
