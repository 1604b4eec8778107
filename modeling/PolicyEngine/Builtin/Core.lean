import PolicyEngine.Builtin.Collections
import PolicyEngine.Builtin.Comparison
import PolicyEngine.Builtin.Numbers
import PolicyEngine.Builtin.Strings

/-!
The functions that read and write JSON text, those that look at the evaluation, and the registry of the
core library.
-/
namespace PolicyEngine.Builtin

/-! ## JSON text -/

def jsonIsValid : List Term → BuiltinResult
  | [a] => do Operand.value (.bool (Json.parse? (← Operand.string a)).isSome)
  | _ => .error (.operandCount 1)

def jsonMarshal : List Term → BuiltinResult
  | [t] =>
    match t.compactJson with
    | .ok s => Operand.value (.string s)
    | .error e => .error (.unserializable e)
  | _ => .error (.operandCount 1)

def jsonUnmarshal : List Term → BuiltinResult
  | [a] => do
    match Term.parse? (← Operand.string a) with
    | some t => Operand.value t
    | none => .error .invalidJson
  | _ => .error (.operandCount 1)

/-! ## The evaluation -/

/-- What is printed for a printed operand that has no value. -/
def undefinedOperand : String := "<undefined>"

def printText : Term → String
  | .string s => s
  | t => t.text

/-- Prints the operands on one line. -/
def print (_ : BuiltinContext) (args : List Term) (host : Host) : BuiltinResult × Host :=
  (Operand.value (.bool true), host.print (" ".intercalate (args.map printText)))

/-- Leaves a note in the trace, if there is one. -/
def trace (context : BuiltinContext) (args : List Term) (host : Host) : BuiltinResult × Host :=
  match args with
  | [.string s] =>
    (Operand.value (.bool true), if context.tracing then host.emit ⟨.note, context.depth, s⟩ else host)
  | [t] => (.error (.expected "string" t), host)
  | _ => (.error (.operandCount 1), host)

/-- The time at which the query started. -/
def nowNs (context : BuiltinContext) (_ : List Term) (host : Host) : BuiltinResult × Host :=
  (Operand.value (Term.ofInt context.time), host)

def contextBuiltins : List Builtin :=
  [.ofPure "json.is_valid" [.string] .boolean jsonIsValid,
   .ofPure "json.marshal" [.any] .string jsonMarshal,
   .ofPure "json.unmarshal" [.string] .any jsonUnmarshal,
   { Builtin.ofContextual "print" [] .boolean print with variadic := true, lenient := true },
   .ofContextual "trace" [.string] .boolean trace,
   { Builtin.ofContextual "time.now_ns" [] .number nowNs with deterministic := false }]

end PolicyEngine.Builtin

namespace PolicyEngine

/-- The core library, with the numbers that the host draws. -/
def Registry.core (draw : Builtin.Draw := .least) : Registry :=
  Registry.insertAll
    (Builtin.comparisonBuiltins ++ Builtin.numberBuiltins draw ++ Builtin.collectionBuiltins ++ Builtin.stringBuiltins
      ++ Builtin.contextBuiltins)
    ⟨[]⟩

end PolicyEngine
