import PolicyEngine.Numeric.Double

/-!
Decimal text of floating-point numbers: the fewest digits that read back to the same word, a fixed number
of places, a fixed number of significant digits, and the two layouts (positional and scientific) in which
digits are written.
-/
namespace PolicyEngine

/-- The number `coefficient * 10 ^ exponent`. -/
structure Decimal where
  coefficient : Nat
  exponent : Int
  deriving DecidableEq, Repr

/-- Which of two equally near decimals is taken. -/
inductive Tie where
  | up
  | even
  deriving DecidableEq, Repr

/-! ## Fewest digits -/

/-- The reals that round to a word, scaled to integers over `unit`: they lie between `low` and `high`,
and both ends belong to them when `closed`. -/
structure RoundingInterval where
  low : Nat
  value : Nat
  high : Nat
  unit : Nat
  closed : Bool

/-- Half a step around the word on either side; a quarter below the first word of a binade. -/
def Double.roundingInterval (d : Double) : RoundingInterval :=
  let m := d.significand
  let below := if d.fractionField = 0 && d.exponentField > 1 then 1 else 2
  let scale := Nat.pow 2 (d.power - 2).toNat
  ⟨(4 * m - below) * scale, 4 * m * scale, (4 * m + 2) * scale, Nat.pow 2 (2 - d.power).toNat, m % 2 == 0⟩

namespace RoundingInterval

def contains (i : RoundingInterval) (x : Nat) : Bool :=
  if i.closed then i.low ≤ x && x ≤ i.high else i.low < x && x < i.high

/-- The interval seen through the grid of multiples of `10 ^ exponent`. -/
def onGrid (i : RoundingInterval) (exponent : Int) : RoundingInterval :=
  let scale := Nat.pow 10 (-exponent).toNat
  ⟨i.low * scale, i.value * scale, i.high * scale, i.unit * Nat.pow 10 exponent.toNat, i.closed⟩

/-- The multiple of the unit inside the interval that is nearest to the value, if there is one. -/
def nearestMultiple? (tie : Tie) (i : RoundingInterval) : Option Nat :=
  let c := i.value / i.unit
  let down := i.value - c * i.unit
  let up := (c + 1) * i.unit - i.value
  match i.contains (c * i.unit), i.contains ((c + 1) * i.unit) with
  | true, false => some c
  | false, true => some (c + 1)
  | false, false => none
  | true, true =>
    if down < up then some c
    else if up < down then some (c + 1)
    else match tie with
      | .up => some (c + 1)
      | .even => some (c + c % 2)

/-- Tries grids from coarse to fine, starting at `10 ^ exponent`. -/
def coarsest (tie : Tie) (i : RoundingInterval) : Nat → Int → Decimal
  | 0, exponent => ⟨0, exponent⟩
  | fuel + 1, exponent =>
    match (i.onGrid exponent).nearestMultiple? tie with
    | some c => ⟨c, exponent⟩
    | none => coarsest tie i fuel (exponent - 1)

end RoundingInterval

/-- The power of ten at which every grid is fine enough for every word. -/
def finestGrid : Nat := 324

/-- The decimal with the fewest digits that rounds to the finite nonzero word `d`, and of those the one
nearest to it: a multiple of the largest power of ten that has a multiple in the rounding interval. -/
def Double.shortest (tie : Tie) (d : Double) : Decimal :=
  let i := d.roundingInterval
  let top := (Nat.toDigits 10 (i.high / i.unit)).length
  i.coarsest tie (top + finestGrid + 1) top

/-! ## Fixed precision -/

namespace Decimal

/-- The ratio `num / den` to `places` decimal places, halves going to the even neighbour. -/
def ofPlaces (places num den : Nat) : Decimal :=
  ⟨Double.divHalfEven (num * Nat.pow 10 places) den, -places⟩

/-- The exponent of the leading decimal digit of a positive ratio. -/
def leadingExponent (num den : Nat) : Int :=
  if den ≤ num then (Nat.toDigits 10 (num / den)).length - 1
  else
    let digits := (Nat.toDigits 10 (den / num)).length
    if den = num * Nat.pow 10 (digits - 1) then 1 - (digits : Int) else -(digits : Int)

/-- A positive ratio to `places` digits after its leading one, halves going to the even neighbour. -/
def ofSignificant (places num den : Nat) : Decimal :=
  if num = 0 then ⟨0, -places⟩
  else
    let exponent := leadingExponent num den - places
    let c := Double.divHalfEven (num * Nat.pow 10 (-exponent).toNat) (den * Nat.pow 10 exponent.toNat)
    if c = Nat.pow 10 (places + 1) then ⟨c / 10, exponent + 1⟩ else ⟨c, exponent⟩

/-! ## Layout -/

def digits (d : Decimal) : List Char := Nat.toDigits 10 d.coefficient

/-- The exponent of the first digit. -/
def leading (d : Decimal) : Int := d.exponent + d.digits.length - 1

/-- All digits with a point among them and at least `fraction` digits after it. -/
def positional (fraction : Nat) (d : Decimal) : List Char :=
  let places := (-d.exponent).toNat
  let whole := d.digits ++ List.replicate d.exponent.toNat '0'
  let padded := List.replicate (places + 1 - whole.length) '0' ++ whole
  let front := padded.take (padded.length - places)
  let back := padded.drop (padded.length - places)
  let back := back ++ List.replicate (fraction - back.length) '0'
  if back.isEmpty then front else front ++ '.' :: back

/-- One digit, the others after a point (at least `fraction` of them), and the power of ten. -/
def scientific (fraction : Nat) (plusSign : Bool) (d : Decimal) : List Char :=
  let digits := List.replicate (fraction + 1 - d.digits.length) '0' ++ d.digits
  let exponent := d.exponent + digits.length - 1
  let mantissa := match digits with
    | first :: second :: rest => first :: '.' :: second :: rest
    | one => one
  let sign := if exponent < 0 then ['-'] else if plusSign then ['+'] else []
  mantissa ++ 'e' :: sign ++ Nat.toDigits 10 exponent.natAbs

end Decimal

/-! ## Styles -/

/-- How a finite word is written with the fewest digits: the tie between two decimals, the exponents
written positionally, the least number of fraction digits there, and the sign of positive exponents. -/
structure FloatStyle where
  tie : Tie
  positional : Int → Bool
  fraction : Nat
  plusSign : Bool

def FloatStyle.layout (style : FloatStyle) (d : Decimal) : List Char :=
  if style.positional d.leading then d.positional style.fraction else d.scientific 0 style.plusSign

/-- The text of a finite word. -/
def Double.render (style : FloatStyle) (d : Double) : String :=
  let decimal := if d.significand = 0 then ⟨0, 0⟩ else d.shortest style.tie
  String.ofList ((if d.negative then ['-'] else []) ++ style.layout decimal)

end PolicyEngine
