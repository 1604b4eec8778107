import PolicyEngine.Json.Printer
import PolicyEngine.Path
import PolicyEngine.Policy.Rule
import PolicyEngine.Text.Quoted

/-!
What can be wrong with a module: with its encoding, or with its rules taken together.
-/
namespace PolicyEngine

/-! ## Constructor form of terms -/

mutual
/-- A term written with the names of its constructors. -/
def Term.constructorText : Term → String
  | .null => "Null"
  | .bool b => "Bool(" ++ (if b then "true" else "false") ++ ")"
  | .number n => "Number(" ++ n.decimalText ++ ")"
  | .string s => "String(" ++ Text.quoted s ++ ")"
  | .array items => "Array([" ++ commaSeparated (Term.constructorTexts items) ++ "])"
  | .object fields => "Object(\x7b" ++ commaSeparated (Term.fieldConstructorTexts fields) ++ "\x7d)"
  | .set members => "Set(\x7b" ++ commaSeparated (Term.constructorTexts members) ++ "\x7d)"
  | .var name => "Var(" ++ Text.quoted name ++ ")"
  | .ref head operands => "Ref([" ++ commaSeparated (head.constructorText :: Term.constructorTexts operands) ++ "])"
  | .call operator arguments =>
    "Call([" ++ commaSeparated (operator.constructorText :: Term.constructorTexts arguments) ++ "])"
  | .arrayCompr term body =>
    "ArrayCompr(Comprehension \x7b key: None, term: " ++ term.constructorText ++ ", body: ["
      ++ commaSeparated (Expr.constructorTexts body) ++ "] \x7d)"
  | .setCompr term body =>
    "SetCompr(Comprehension \x7b key: None, term: " ++ term.constructorText ++ ", body: ["
      ++ commaSeparated (Expr.constructorTexts body) ++ "] \x7d)"
  | .objectCompr key value body =>
    "ObjectCompr(Comprehension \x7b key: Some(" ++ key.constructorText ++ "), term: " ++ value.constructorText
      ++ ", body: [" ++ commaSeparated (Expr.constructorTexts body) ++ "] \x7d)"
def Term.constructorTexts : List Term → List String
  | [] => []
  | t :: rest => t.constructorText :: Term.constructorTexts rest
def Term.fieldConstructorTexts : List (Term × Term) → List String
  | [] => []
  | (k, v) :: rest => (k.constructorText ++ ": " ++ v.constructorText) :: Term.fieldConstructorTexts rest
def Term.overrideConstructorTexts : List (Term × Term) → List String
  | [] => []
  | (t, v) :: rest =>
    ("With \x7b target: " ++ t.constructorText ++ ", value: " ++ v.constructorText ++ " \x7d")
      :: Term.overrideConstructorTexts rest
def Expr.constructorTexts : List Expr → List String
  | [] => []
  | e :: rest => e.constructorText :: Expr.constructorTexts rest
def Expr.constructorText : Expr → String
  | .mk kind negated overrides index =>
    "Expr \x7b kind: " ++ kind.constructorText ++ ", negated: " ++ (if negated then "true" else "false")
      ++ ", with: [" ++ commaSeparated (Term.overrideConstructorTexts overrides) ++ "], index: "
      ++ Number.intText index ++ " \x7d"
def ExprKind.constructorText : ExprKind → String
  | .term t => "Term(" ++ t.constructorText ++ ")"
  | .someDecl symbols => "SomeDecl([" ++ commaSeparated (Term.constructorTexts symbols) ++ "])"
  | .every none value domain body =>
    "Every(Every \x7b key: None, value: " ++ value.constructorText ++ ", domain: " ++ domain.constructorText
      ++ ", body: [" ++ commaSeparated (Expr.constructorTexts body) ++ "] \x7d)"
  | .every (some key) value domain body =>
    "Every(Every \x7b key: Some(" ++ key.constructorText ++ "), value: " ++ value.constructorText ++ ", domain: "
      ++ domain.constructorText ++ ", body: [" ++ commaSeparated (Expr.constructorTexts body) ++ "] \x7d)"
end

def optionConstructorText : Option Term → String
  | none => "None"
  | some t => "Some(" ++ t.constructorText ++ ")"

/-! ## Causes -/

inductive ModuleError where
  | notObject (what : String) (got : Json)
  | notArray (what : String) (got : Json)
  | termWithoutType (got : Json)
  | invalidBoolean (got : Json)
  | invalidNumber (text : String)
  | invalidString (got : Json)
  | invalidVar (got : Json)
  | emptyRef
  | emptyCall
  | invalidObjectItem (got : Json)
  | missing (part : String)
  | unknownTermType (type : String)
  | withoutPart (what part : String)
  | exprWithoutTerms (got : Json)
  | emptyCallExpression
  | headWithoutName (got : Json)
  | emptyHead
  | packageRoot (first : Option Term)
  | packageSegment (segment : Term)
  | invalidHead (name : Term)
  | dynamicHead (path : DataPath) (operand : Term)
  | conflictingKinds (path : DataPath) (first second : DocKind)
  | parameterCount (path : DataPath)
  | defaultKind (path : DataPath)
  | multipleDefaults (path : DataPath)
  | conflictingPaths (first second : DataPath)

def ModuleError.message : ModuleError → String
  | .notObject what got => s!"{what} must be a json object. Got `{got.compact}`"
  | .notArray what got => s!"{what} must be a json array. Got `{got.compact}`"
  | .termWithoutType got => s!"term without type: `{got.compact}`"
  | .invalidBoolean got => s!"invalid boolean `{got.compact}`"
  | .invalidNumber text => s!"invalid number `{text}`"
  | .invalidString got => s!"invalid string `{got.compact}`"
  | .invalidVar got => s!"invalid var `{got.compact}`"
  | .emptyRef => "empty ref"
  | .emptyCall => "empty call"
  | .invalidObjectItem got => s!"invalid object item `{got.compact}`"
  | .missing part => s!"missing {part}"
  | .unknownTermType type => s!"unknown term type `{type}`"
  | .withoutPart what part => s!"{what} without {part}"
  | .exprWithoutTerms got => s!"expr without terms: `{got.compact}`"
  | .emptyCallExpression => "empty call expression"
  | .headWithoutName got => s!"rule head without name or ref: `{got.compact}`"
  | .emptyHead => "empty rule head ref"
  | .packageRoot first => s!"package path must start with data. Got `{optionConstructorText first}`"
  | .packageSegment segment => s!"invalid package path segment `{segment.text}`"
  | .invalidHead name => s!"invalid rule head `{name.text}`"
  | .dynamicHead path operand =>
    s!"{path.name}: rule head refs must be static except for the last element. Got `{operand.text}`"
  | .conflictingKinds path first second =>
    s!"{path.name}: conflicting rule kinds {first.name} and {second.name}"
  | .parameterCount path => s!"{path.name}: functions must have the same number of arguments"
  | .defaultKind path => s!"{path.name}: default rules must define complete documents"
  | .multipleDefaults path => s!"{path.name}: multiple default rules"
  | .conflictingPaths first second => s!"rule {first.name} conflicts with rule {second.name}"

end PolicyEngine
