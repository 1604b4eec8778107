import PolicyEngine.Builtin.Error
import PolicyEngine.Policy.Error
import PolicyEngine.Term.Access
import PolicyEngine.Timer

/-!
Why an evaluation, or a change of the engine, ends without an answer.
-/
namespace PolicyEngine

/-- Two values where one is allowed. -/
inductive Conflict where
  | completeValue (first second : Term)
  | functionValue (first second : Term)
  | documentKey (key first second : Term)
  | comprehensionKey (key first second : Term)

def Conflict.message : Conflict → String
  | .completeValue first second =>
    s!"complete rules must not produce multiple outputs: {first.text} and {second.text}"
  | .functionValue first second =>
    s!"functions must not produce multiple outputs for same inputs: {first.text} and {second.text}"
  | .documentKey key first second =>
    s!"object keys must be unique: key {key.text} has values {first.text} and {second.text}"
  | .comprehensionKey key first second => s!"key {key.text} has values {first.text} and {second.text}"

/-- What the store refuses. -/
inductive StorageError where
  | rootNotObject (found : String)
  | dataNotObject (found : String)
  | writeThroughIndex (index : Nat)
  | unwritable (cause : Term.PathError)
  | alreadyDefined (path : List String)
  | externalStore
  | unreadable (path : String)
  | unlistable (path : String)

def StorageError.message : StorageError → String
  | .rootNotObject found => s!"root document must be an object. Got {found}"
  | .dataNotObject found => s!"data must be an object. Got {found}"
  | .writeThroughIndex index => s!"cannot write through array index {index}"
  | .unwritable cause => cause.message
  | .alreadyDefined path =>
    let name := ".".intercalate path
    s!"merge error: data.{name} is already defined"
  | .externalStore => "add_data is not available with an external store"
  | .unreadable path => s!"cannot read {path}"
  | .unlistable path => s!"cannot list {path}"

/-- Requests that make no sense to the evaluator. -/
inductive InternalError where
  | invalidOperator (operator : Term)
  | invalidGenerator (declaration : Term)
  | invalidOverride (target : Term)
  | unsettable (cause : Term.PathError)
  | depthExceeded (name : String)
  | unknownFunction (name : String)
  | notDataPath (text : String)
  | unreadableDocument

def InternalError.message : InternalError → String
  | .invalidOperator operator => s!"invalid operator `{operator.text}`"
  | .invalidGenerator declaration => s!"invalid some declaration `{declaration.text}`"
  | .invalidOverride target => s!"invalid with target `{target.text}`"
  | .unsettable cause => cause.message
  | .depthExceeded name => s!"max evaluation depth exceeded while evaluating {name}"
  | .unknownFunction name => s!"unknown function `{name}`"
  | .notDataPath text => s!"not a data path: `{text}`"
  | .unreadableDocument => "unreadable document"

inductive EvalError where
  | conflict (path : String) (cause : Conflict)
  | recursion (chain : List String)
  | builtin (name : String) (operands : List Term) (cause : BuiltinError)
  | typeMismatch (name : String) (position : Nat) (expected found : String)
  | cancelled
  | timeout (overrun : Overrun)
  | storage (cause : StorageError)
  | compile (cause : ModuleError)
  | json
  | internal (cause : InternalError)

namespace EvalError

def message : EvalError → String
  | .conflict path cause => s!"{path}: conflicting values: {cause.message}"
  | .recursion chain =>
    let last := chain.getLast?.getD ""
    let arrows := " -> ".intercalate chain
    s!"rego_recursion_error: rule {last} is recursive: {arrows}"
  | .builtin name _ cause => s!"{name}: {cause.message name}"
  | .typeMismatch name position expected found =>
    s!"{name}: operand {position} must be {expected} but got {found}"
  | .cancelled => "evaluation cancelled"
  | .timeout overrun => s!"evaluation cancelled: {overrun.message}"
  | .storage cause => s!"storage error: {cause.message}"
  | .compile cause => s!"invalid module: {cause.message}"
  | .json => "json error"
  | .internal cause => s!"internal error: {cause.message}"

/-- Cancellation was asked for, or the time is over. -/
def isCancellation : EvalError → Bool
  | .cancelled | .timeout _ => true
  | _ => false

end EvalError
end PolicyEngine
