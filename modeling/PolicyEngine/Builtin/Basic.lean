import PolicyEngine.Error
import PolicyEngine.Trace

/-!
Built-in functions: their signatures, the check of operands against them, and registries of functions by
name.
-/
namespace PolicyEngine

/-- The declared type of an operand or of a result. -/
inductive OperandType where
  | any
  | null
  | boolean
  | number
  | string
  | array
  | object
  | set
  | union (types : List OperandType)

namespace OperandType

/-- Array, set or object. -/
def collection : OperandType := .union [.array, .set, .object]

/-- Array or set. -/
def iterable : OperandType := .union [.array, .set]

mutual
def accepts : OperandType → Term → Bool
  | .any, _ => true
  | .null, .null => true
  | .boolean, .bool _ => true
  | .number, .number _ => true
  | .string, .string _ => true
  | .array, .array _ => true
  | .object, .object _ => true
  | .set, .set _ => true
  | .union types, t => anyAccepts types t
  | _, _ => false
def anyAccepts : List OperandType → Term → Bool
  | [], _ => false
  | type :: rest, t => accepts type t || anyAccepts rest t
end

mutual
def text : OperandType → String
  | .any => "any"
  | .null => "null"
  | .boolean => "boolean"
  | .number => "number"
  | .string => "string"
  | .array => "array"
  | .object => "object"
  | .set => "set"
  | .union types => "any<" ++ commaSeparated (texts types) ++ ">"
def texts : List OperandType → List String
  | [] => []
  | type :: rest => text type :: texts rest
end

end OperandType

/-- What a built-in that looks beyond its operands sees of the evaluation. -/
structure BuiltinContext where
  name : String
  /-- The time at which the query started, in nanoseconds. -/
  time : Int
  depth : Nat
  tracing : Bool

/-- A value, or nothing when the call is undefined. -/
abbrev BuiltinResult := Except BuiltinError (Option Term)

inductive BuiltinFunction where
  /-- Looks at its operands only. -/
  | pure (run : List Term → BuiltinResult)
  /-- Also sees the evaluation and may leave something with the host. -/
  | contextual (run : BuiltinContext → List Term → Host → BuiltinResult × Host)

/-- A built-in function with its signature. Further operands of a variadic function are not checked. -/
structure Builtin where
  name : String
  operands : List OperandType
  result : OperandType
  function : BuiltinFunction
  variadic : Bool := false
  deterministic : Bool := true
  /-- Takes undefined operands and never fails. -/
  lenient : Bool := false

namespace Builtin

def ofPure (name : String) (operands : List OperandType) (result : OperandType)
    (run : List Term → BuiltinResult) : Builtin :=
  { name, operands, result, function := .pure run }

def ofContextual (name : String) (operands : List OperandType) (result : OperandType)
    (run : BuiltinContext → List Term → Host → BuiltinResult × Host) : Builtin :=
  { name, operands, result, function := .contextual run }

/-- The number of operands, if it is fixed. -/
def arity? (b : Builtin) : Option Nat := if b.variadic then none else some b.operands.length

def needsContext (b : Builtin) : Bool :=
  match b.function with
  | .pure _ => false
  | .contextual _ => true

/-- The first operand outside its declared type, counted from one. -/
def checkTypes (name : String) : Nat → List OperandType → List Term → Except EvalError Unit
  | position, type :: types, t :: ts =>
    if type.accepts t then checkTypes name (position + 1) types ts
    else .error (.typeMismatch name position type.text t.typeName)
  | _, _, _ => .ok ()

/-- Checks operands against the signature. -/
def checkOperands (b : Builtin) (args : List Term) : Except EvalError Unit :=
  match b.arity? with
  | some arity =>
    if args.length ≠ arity then
      .error (.typeMismatch b.name (min args.length arity) s!"{arity} operand(s)" s!"{args.length} operand(s)")
    else checkTypes b.name 1 b.operands args
  | none => checkTypes b.name 1 b.operands args

def invoke (b : Builtin) (context : BuiltinContext) (args : List Term) (host : Host) : BuiltinResult × Host :=
  match b.function with
  | .pure run => (run args, host)
  | .contextual run => run context args host

end Builtin

/-- Built-in functions by name, sorted. -/
structure Registry where
  builtins : List Builtin := []

namespace Registry

def insertSorted (b : Builtin) : List Builtin → List Builtin
  | [] => [b]
  | c :: rest =>
    match compare b.name c.name with
    | .lt => b :: c :: rest
    | .eq => b :: rest
    | .gt => c :: insertSorted b rest

/-- Adds a function, in place of one with the same name. -/
def insert (b : Builtin) (r : Registry) : Registry := ⟨insertSorted b r.builtins⟩

def insertAll (bs : List Builtin) (r : Registry) : Registry := bs.foldl (fun r b => r.insert b) r

def erase (name : String) (r : Registry) : Registry := ⟨r.builtins.filter (·.name != name)⟩

def get? (name : String) (r : Registry) : Option Builtin := r.builtins.find? (·.name == name)

def contains (name : String) (r : Registry) : Bool := (r.get? name).isSome

def size (r : Registry) : Nat := r.builtins.length

def isEmpty (r : Registry) : Bool := r.builtins.isEmpty

/-- The names in order. -/
def names (r : Registry) : List String := r.builtins.map (·.name)

end Registry
end PolicyEngine
