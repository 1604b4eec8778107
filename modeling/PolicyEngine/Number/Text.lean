import PolicyEngine.Number.Basic
import PolicyEngine.Numeric.Literal
import PolicyEngine.Text.Blank

/-!
Numbers as text: the decimal form, other radices, and the reader of number literals.
-/
namespace PolicyEngine.Number

/-! ## Writing -/

/-- Decimal text never uses an exponent and drops a fraction of zero. -/
def plainStyle : FloatStyle := ⟨.up, fun _ => true, 0, false⟩

/-- The decimal text of a floating-point word. -/
def doubleText (d : Double) : String :=
  match d.value with
  | .nan => "NaN"
  | .infinity true => "-inf"
  | .infinity false => "inf"
  | .finite _ => d.render plainStyle

/-- The text of a word in a layout of its size as a ratio; the sign comes first. -/
def doubleLayout (layout : Nat → Nat → List Char) (d : Double) : String :=
  match d.value with
  | .finite _ =>
    let size := d.magnitude
    String.ofList ((if d.negative then ['-'] else []) ++ layout size.num.natAbs size.den)
  | _ => doubleText d

/-- The text of a word with a fixed number of places. -/
def fixedText (places : Nat) : Double → String :=
  doubleLayout fun num den => (Decimal.ofPlaces places num den).positional 0

/-- The text of a word with an exponent and a fixed number of places. -/
def scientificText (places : Nat) : Double → String :=
  doubleLayout fun num den => (Decimal.ofSignificant places num den).scientific places false

def intText (i : Int) : String :=
  String.ofList ((if i < 0 then ['-'] else []) ++ Nat.toDigits 10 i.natAbs)

def decimalText : Number → String
  | .float d => doubleText d
  | .unsigned v => intText v.toNat
  | .signed v => intText v.toInt
  | .big v => intText v

/-- The digit with the given value, letters standing for ten and more. -/
def digitChar (n : Nat) : Char :=
  if n < 10 then Char.ofNat ('0'.toNat + n) else Char.ofNat ('a'.toNat + (n - 10))

/-- Puts the digits of `n` in front of `tail`, the last one first. -/
def radixDigits (radix : Nat) : Nat → Nat → List Char → List Char
  | 0, _, tail => tail
  | fuel + 1, n, tail =>
    let tail := digitChar (n % radix) :: tail
    if n < radix then tail else radixDigits radix fuel (n / radix) tail

/-- The digits of a natural number in a radix of at least two. -/
def natInRadix (radix n : Nat) : List Char := radixDigits radix (n.log2 + 1) n []

/-- The value in a radix, a fraction being cut off; numbers too large to be exact have no such text. -/
def radixText? (radix : Nat) (n : Number) : Option String :=
  let value := match n with
    | .float d => smallInt? d.trunc
    | n => n.exactInt?
  value.map fun i => String.ofList ((if i < 0 then ['-'] else []) ++ natInRadix radix i.natAbs)

/-! ## Reading -/

/-- The least and the greatest exponent with which a literal is read as an exact integer. -/
def exponentInRange (e : Int) : Bool := -0x80000000 ≤ e && e < 0x80000000

/-- The fraction digits without the zeros at their end. -/
def significantFraction (l : Literal) : List Char :=
  (l.fraction.reverse.dropWhile (· == '0')).reverse

/-- The integer denoted by a literal with an exponent that reaches past its fraction digits. -/
def literalInt? (l : Literal) : Option Int :=
  match l.exponent with
  | none => none
  | some e =>
    let fraction := significantFraction l
    let digits := l.whole ++ fraction
    if !exponentInRange e || (l.whole.isEmpty && !l.point) then none
    else if digits.isEmpty then some 0
    else
      let shift := e - fraction.length
      if 0 ≤ shift then
        let value : Int := digitsValue digits * Nat.pow 10 shift.toNat
        some (if l.negative then -value else value)
      else none

/-- The number a literal denotes: exact when it is written as an integer, the nearest word otherwise. -/
def ofLiteral? (l : Literal) : Option Number :=
  if l.exponent.isNone && !l.point then
    if l.whole.isEmpty then none
    else
      let value : Int := digitsValue l.whole
      some (ofInt (if l.negative then -value else value))
  else match literalInt? l with
    | some i => some (ofInt i)
    | none => if l.hasDigits then some (ofDouble l.toDouble) else none

/-- Reads a number; white space around it is ignored. -/
def ofText? (s : String) : Option Number :=
  (Literal.parse? (Text.trim s.toList)).bind ofLiteral?

end PolicyEngine.Number
