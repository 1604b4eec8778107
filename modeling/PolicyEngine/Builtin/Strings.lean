import PolicyEngine.Builtin.Format
import PolicyEngine.Text.Case
import PolicyEngine.Text.Search

/-!
Functions on strings. Positions and lengths count characters.
-/
namespace PolicyEngine.Builtin

def concat : List Term → BuiltinResult
  | [a, b] => do
    let delimiter ← Operand.string a
    let parts ← Operand.strings b
    Operand.value (.string (String.ofList (Text.join delimiter.toList (parts.map String.toList))))
  | _ => .error (.operandCount 2)

/-- A question about two strings. -/
def stringTest (f : List Char → List Char → Bool) : List Term → BuiltinResult
  | [a, b] => do
    let s ← Operand.string a
    let t ← Operand.string b
    Operand.value (.bool (f s.toList t.toList))
  | _ => .error (.operandCount 2)

def onString (f : String → String) : List Term → BuiltinResult
  | [a] => do Operand.value (.string (f (← Operand.string a)))
  | _ => .error (.operandCount 1)

/-- The integer part of a number in radix 2, 8, 10 or 16. -/
def formatInt : List Term → BuiltinResult
  | [a, b] => do
    let n ← Operand.number a
    let radix ← Operand.integer b
    if radix == 2 || radix == 8 || radix == 10 || radix == 16 then
      match n.floor.radixText? radix.toNat with
      | some s => Operand.value (.string s)
      | none => .error (.unformattable n)
    else .error (.radix radix)
  | _ => .error (.operandCount 2)

/-- The number of characters before the first occurrence, or minus one. -/
def indexOf : List Term → BuiltinResult
  | [a, b] => do
    let s ← Operand.string a
    let t ← Operand.string b
    match Text.offsetOf? t.toList s.toList with
    | some offset => Operand.value (Term.ofNat (Text.upTo offset s.toList).length)
    | none => Operand.value (Term.ofInt (-1))
  | _ => .error (.operandCount 2)

def replace : List Term → BuiltinResult
  | [a, b, c] => do
    let s ← Operand.string a
    let old ← Operand.string b
    let new ← Operand.string c
    Operand.value (.string (String.ofList (Text.replace old.toList new.toList s.toList)))
  | _ => .error (.operandCount 3)

def split : List Term → BuiltinResult
  | [a, b] => do
    let s ← Operand.string a
    let delimiter ← Operand.string b
    let pieces := Text.split delimiter.toList s.toList
    Operand.value (.array (pieces.map fun piece => .string (String.ofList piece)))
  | _ => .error (.operandCount 2)

/-- The characters from a position on: as many as asked for, or all when the length is negative. -/
def substring : List Term → BuiltinResult
  | [a, b, c] => do
    let s ← Operand.string a
    let start ← Operand.integer b
    let length ← Operand.integer c
    if start < 0 then .error (.negativeOffset start)
    else
      let rest := s.toList.drop start.toNat
      Operand.value (.string (String.ofList (if length < 0 then rest else rest.take length.toNat)))
  | _ => .error (.operandCount 3)

/-- Removes the characters of a set at both ends. -/
def trim : List Term → BuiltinResult
  | [a, b] => do
    let s ← Operand.string a
    let cut ← Operand.string b
    Operand.value (.string (String.ofList (Text.trimChars (cut.toList.contains ·) s.toList)))
  | _ => .error (.operandCount 2)

def trimSpace (s : String) : String := String.ofList (Text.trim s.toList)

def stringBuiltins : List Builtin :=
  let test (name : String) (f : List Char → List Char → Bool) : Builtin :=
    .ofPure name [.string, .string] .boolean (stringTest f)
  let map (name : String) (f : String → String) : Builtin := .ofPure name [.string] .string (onString f)
  [.ofPure "concat" [.string, .iterable] .string concat,
   test "contains" fun s t => (Text.indexOf? t s).isSome,
   test "endswith" fun s t => Text.endsWith t s,
   .ofPure "format_int" [.number, .number] .string formatInt,
   .ofPure "indexof" [.string, .string] .number indexOf,
   map "lower" Text.lower,
   .ofPure "replace" [.string, .string, .string] .string replace,
   .ofPure "split" [.string, .string] .array split,
   .ofPure "sprintf" [.string, .array] .string sprintf,
   test "startswith" fun s t => (Text.dropStart? t s).isSome,
   .ofPure "substring" [.string, .number, .number] .string substring,
   .ofPure "trim" [.string, .string] .string trim,
   map "trim_space" trimSpace,
   map "upper" Text.upper]

end PolicyEngine.Builtin
