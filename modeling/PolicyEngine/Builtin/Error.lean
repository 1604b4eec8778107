import PolicyEngine.Number.Arithmetic
import PolicyEngine.Term.Json

/-!
Why a built-in function fails.
-/
namespace PolicyEngine

inductive BuiltinError where
  | operandCount (expected : Nat)
  | expected (kind : String) (got : Term)
  | integerRange (got : Term)
  | notStrings
  | elementNotString (index : Nat)
  | notIterable (got : Term)
  | notCountable (got : Term)
  | notCollection
  | arithmetic (cause : Number.ArithmeticError)
  | rangeTooLarge (first last : Int)
  | unreadableNumber (text : String)
  | notConvertible (got : Term)
  | itemNotObject (index : Nat)
  | notSetOfSets (got : Term)
  | radix (got : Int)
  | unformattable (got : Number)
  | negativeOffset (got : Int)
  | unserializable (cause : Term.SerializeError)
  | invalidJson
  | custom (message : String)

/-- The message of a failure of the built-in with the given name. -/
def BuiltinError.message (name : String) : BuiltinError → String
  | .operandCount 1 => s!"`{name}` expects 1 argument"
  | .operandCount n => s!"`{name}` expects {n} arguments"
  | .expected kind got => s!"`{name}` expects {kind} argument. Got `{got.text}` instead"
  | .integerRange got => s!"`{name}` integer argument `{got.text}` is out of range"
  | .notStrings => s!"`{name}` expects array/set of strings."
  | .elementNotString index => s!"`{name}` expects string collection. Element {index} is not a string."
  | .notIterable got => s!"`{name}` requires array/set argument. Got `{got.text}`."
  | .notCountable got => s!"`{name}` requires array/object/set/string argument. Got `{got.text}`."
  | .notCollection => s!"`{name}` requires array/object/set argument"
  | .arithmetic cause => cause.message
  | .rangeTooLarge first last => s!"`{name}` range {first}..{last} is too large"
  | .unreadableNumber text => s!"`{name}` could not parse `{text}` as a number"
  | .notConvertible got => s!"`{name}` expects null, boolean, number or string. Got `{got.text}`"
  | .itemNotObject index => s!"`{name}` item at index {index} is not an object"
  | .notSetOfSets got => s!"`{name}` expects set of sets. Got `{got.text}`"
  | .radix got => s!"`{name}` base must be one of 2, 8, 10, 16. Got {got}"
  | .unformattable got => s!"`{name}` cannot format `{got.decimalText}`"
  | .negativeOffset got => s!"`{name}` negative offset {got}"
  | .unserializable cause => s!"{name} failed: {cause.message}"
  | .invalidJson => s!"{name}: invalid json"
  | .custom message => message

end PolicyEngine
