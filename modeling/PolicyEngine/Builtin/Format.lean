import PolicyEngine.Builtin.Operand

/-!
Formatting of values by a format text. A directive is a percent sign, flags, a width, a precision after a
point, and a verb that says how the next operand is shown.
-/
namespace PolicyEngine.Builtin

/-- What stands between the percent sign and the verb. -/
structure Directive where
  leftAlign : Bool := false
  zeroPad : Bool := false
  plus : Bool := false
  width : Option Nat := none
  precision : Option Nat := none

/-- The part of a directive that is being read. -/
inductive DirectiveStage where
  | flags
  | width
  | precision

namespace Directive

/-- Puts a digit at the end of a number. -/
def appendDigit (n : Option Nat) (c : Char) : Option Nat := some (10 * n.getD 0 + digitValue c)

/-- Reads a width or the point in front of a precision. -/
def readWidth (d : Directive) (c : Char) : Option (Directive × DirectiveStage) :=
  if isDigit c then some ({ d with width := appendDigit d.width c }, .width)
  else if c == '.' then some ({ d with precision := some 0 }, .precision)
  else none

/-- Reads one more character of a directive; nothing if the character is its verb. -/
def read (d : Directive) (stage : DirectiveStage) (c : Char) : Option (Directive × DirectiveStage) :=
  match stage with
  | .flags =>
    if c == '-' then some ({ d with leftAlign := true }, .flags)
    else if c == '0' then some ({ d with zeroPad := true }, .flags)
    else if c == '+' then some ({ d with plus := true }, .flags)
    else d.readWidth c
  | .width => d.readWidth c
  | .precision => if isDigit c then some ({ d with precision := appendDigit d.precision c }, .precision) else none

/-- Fills a text up to the width: after it, with zeros behind a minus sign, or before it. -/
def pad (d : Directive) (cs : List Char) : List Char :=
  let fill := d.width.getD 0 - cs.length
  if d.leftAlign then cs ++ List.replicate fill ' '
  else if d.zeroPad then
    match cs with
    | '-' :: rest => '-' :: List.replicate fill '0' ++ rest
    | cs => List.replicate fill '0' ++ cs
  else List.replicate fill ' ' ++ cs

/-- Puts a plus sign before numbers that are not negative, if the directive asks for it. -/
def signed (d : Directive) (n : Number) (s : String) : String :=
  if d.plus && (n.cmp 0).isGE then "+" ++ s else s

end Directive

/-- Two hexadecimal digits for each byte. -/
def hexBytes (s : String) : List Char :=
  s.toByteArray.data.toList.flatMap fun b => [Number.digitChar (b.toNat / 16), Number.digitChar (b.toNat % 16)]

def upperAscii (s : String) : String := String.ofList (s.toList.map Char.toUpper)

/-- A number by one of the verbs for fractions. -/
def formatFraction (verb : Char) (d : Directive) (n : Number) : String :=
  let places := d.precision.getD 6
  d.signed n <|
    if verb == 'f' then Number.fixedText places n.toDouble
    else if verb == 'e' then Number.scientificText places n.toDouble
    else match d.precision with
      | some p => Number.fixedText p n.toDouble
      | none => n.decimalText

def formatRadix (radix : Nat) (n : Number) : String := (n.radixText? radix).getD ""

/-- The text of an operand that its verb does not fit. -/
def misfit (verb : Char) (t : Term) : String := s!"%!{verb}({t.typeName}={t.text})"

/-- An operand as its verb shows it. -/
def formatOperand (verb : Char) (d : Directive) (t : Term) : String :=
  match verb, t with
  | 's', .string s | 'v', .string s => s
  | 'v', t => t.text
  | 'q', .string s => Json.quote s
  | 't', .bool b => if b then "true" else "false"
  | 'd', .number n => if n.isInteger then d.signed n n.decimalText else misfit verb t
  | 'f', .number n | 'e', .number n | 'g', .number n => formatFraction verb d n
  | 'x', .number n => if n.isInteger then formatRadix 16 n else misfit verb t
  | 'X', .number n => if n.isInteger then upperAscii (formatRadix 16 n) else misfit verb t
  | 'o', .number n => if n.isInteger then formatRadix 8 n else misfit verb t
  | 'b', .number n => if n.isInteger then formatRadix 2 n else misfit verb t
  | 'x', .string s => String.ofList (hexBytes s)
  | 'X', .string s => upperAscii (String.ofList (hexBytes s))
  | verb, t => misfit verb t

/-- What is said about operands that no directive took. -/
def extraOperands (operands : List Term) : List Char :=
  if operands.isEmpty then []
  else
    let shown := commaSeparated (operands.map fun t => t.typeName ++ "=" ++ t.text)
    s!"%!(EXTRA {shown})".toList

/-- Formats the rest of a format text, inside a directive or outside. -/
def formatFrom : Option (Directive × DirectiveStage) → List Term → List Char → List Char
  | none, operands, [] => extraOperands operands
  | some _, operands, [] => "%!(NOVERB)".toList ++ extraOperands operands
  | none, operands, c :: cs =>
    if c == '%' then formatFrom (some ({}, .flags)) operands cs else c :: formatFrom none operands cs
  | some (d, stage), operands, c :: cs =>
    match d.read stage c with
    | some next => formatFrom (some next) operands cs
    | none =>
      if c == '%' then '%' :: formatFrom none operands cs
      else match operands with
        | t :: rest => d.pad (formatOperand c d t).toList ++ formatFrom none rest cs
        | [] => s!"%!{c}(MISSING)".toList ++ formatFrom none [] cs

def sprintf : List Term → BuiltinResult
  | [a, b] => do
    let format ← Operand.string a
    let operands ← Operand.array b
    Operand.value (.string (String.ofList (formatFrom none operands format.toList)))
  | _ => .error (.operandCount 2)

end PolicyEngine.Builtin
