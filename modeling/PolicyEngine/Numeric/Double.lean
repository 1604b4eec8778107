/-!
Floating-point numbers of 64 bits, read as exact rationals. Every word has a value (a rational, an
infinity or not-a-number), every operation computes with exact values and rounds once, to the nearest
word and to the even one when two are equally near. Nothing here depends on the machine's arithmetic.
-/
namespace PolicyEngine

/-- A 64-bit floating-point word: one sign bit, eleven exponent bits, fifty-two fraction bits. -/
structure Double where
  bits : UInt64
  deriving DecidableEq, Repr

namespace Double

/-! ## Fields of the word -/

def negative (d : Double) : Bool := decide (Nat.pow 2 63 ≤ d.bits.toNat)
def exponentField (d : Double) : Nat := d.bits.toNat / Nat.pow 2 52 % Nat.pow 2 11
def fractionField (d : Double) : Nat := d.bits.toNat % Nat.pow 2 52

/-- The exponent field of infinities and of words that are not numbers. -/
def topExponent : Nat := 2047

def isFinite (d : Double) : Bool := d.exponentField != topExponent
def isNaN (d : Double) : Bool := d.exponentField == topExponent && d.fractionField != 0

/-- The integer that a finite word scales by a power of two. -/
def significand (d : Double) : Nat :=
  if d.exponentField = 0 then d.fractionField else Nat.pow 2 52 + d.fractionField

/-- The power of two by which a finite word scales its significand. -/
def power (d : Double) : Int :=
  if d.exponentField = 0 then -1074 else (d.exponentField : Int) - 1075

/-- What a word stands for. Both zeros stand for the rational zero. -/
inductive Value where
  | finite (value : Rat)
  | infinity (negative : Bool)
  | nan
  deriving DecidableEq

/-- The size of a finite word, without its sign. -/
def magnitude (d : Double) : Rat :=
  mkRat (d.significand * Nat.pow 2 d.power.toNat) (Nat.pow 2 (-d.power).toNat)

def value (d : Double) : Value :=
  if d.isFinite then .finite (if d.negative then -d.magnitude else d.magnitude)
  else if d.isNaN then .nan
  else .infinity d.negative

/-! ## Building words -/

def signBits (negative : Bool) : Nat := if negative then Nat.pow 2 63 else 0

def infinity (negative : Bool) : Double := ⟨UInt64.ofNat (signBits negative + topExponent * Nat.pow 2 52)⟩
def zero (negative : Bool) : Double := ⟨UInt64.ofNat (signBits negative)⟩
def nan : Double := ⟨UInt64.ofNat (topExponent * Nat.pow 2 52 + Nat.pow 2 51)⟩

/-- The quotient `num / den` as an integer, a half going to the even neighbour. -/
def divHalfEven (num den : Nat) : Nat :=
  let q := num / den
  let r := num % den
  if 2 * r < den then q else if den < 2 * r then q + 1 else q + q % 2

/-- The power of two with which `num / den` has a significand of 53 bits, or the least power there is. -/
def scaleOf (num den : Nat) : Int :=
  let guess : Int := (num.log2 : Int) - den.log2 - 52
  let atLeast : Bool := decide (den * Nat.pow 2 (guess + 52).toNat ≤ num * Nat.pow 2 (-(guess + 52)).toNat)
  max (-1074) (if atLeast then guess else guess - 1)

/-- The word nearest to `num / den`, of two the even one; beyond the largest finite word, infinity. -/
def ofRatio (negative : Bool) (num den : Nat) : Double :=
  if num = 0 then zero negative
  else
    let scale := scaleOf num den
    let rounded := divHalfEven (num * Nat.pow 2 (-scale).toNat) (den * Nat.pow 2 scale.toNat)
    let word := (scale + 1074).toNat * Nat.pow 2 52 + rounded
    if topExponent * Nat.pow 2 52 ≤ word then infinity negative
    else ⟨UInt64.ofNat (signBits negative + word)⟩

def ofRat (r : Rat) : Double := ofRatio (decide (r < 0)) r.num.natAbs r.den

/-- The word nearest to an integer. -/
def ofInt (i : Int) : Double := ofRatio (decide (i < 0)) i.natAbs 1

/-! ## Integers of many words -/

/-- The number of bits of a natural number. -/
def bitLength (n : Nat) : Nat := if n = 0 then 0 else n.log2 + 1

/-- Whether one of the lowest `count` words of `n`, each of 64 bits, has a bit among its lowest `width`
ones. -/
def anyLowBit (width : Nat) : Nat → Nat → Bool
  | 0, _ => false
  | count + 1, n => n % Nat.pow 2 width != 0 || anyLowBit width count (n / Nat.pow 2 64)

/-- The number of bits of `n` below its 64 leading ones. -/
def trailingLength (n : Nat) : Nat := bitLength n - 64

/-- The 64 leading bits of `n`. What follows them is recorded in the last of them, which is set when a
following bit is seen. In each word below, only as many bits are seen as the topmost word has. -/
def leadingBits (n : Nat) : Nat :=
  let trailing := trailingLength n
  let lead := n / Nat.pow 2 trailing
  let width := if trailing % 64 = 0 then 64 else trailing % 64
  if anyLowBit width (trailing / 64 + 1) (n % Nat.pow 2 trailing) then lead - lead % 2 + 1 else lead

/-- The word for an integer of any length, found from its 64 leading bits. It is the nearest word unless
the integer lies near the middle between two words and the bits that tell on which side are not seen;
then it is the even one. -/
def ofLongInt (i : Int) : Double :=
  let n := i.natAbs
  ofRatio (decide (i < 0)) (leadingBits n * Nat.pow 2 (trailingLength n)) 1

/-! ## Arithmetic -/

def neg (d : Double) : Double :=
  if d.negative then ⟨UInt64.ofNat (d.bits.toNat - Nat.pow 2 63)⟩ else ⟨UInt64.ofNat (d.bits.toNat + Nat.pow 2 63)⟩

def abs (d : Double) : Double := if d.negative then d.neg else d

/-- Sums round once; a sum of zero is negative only when both terms are negative zeros. -/
def add (a b : Double) : Double :=
  match a.value, b.value with
  | .nan, _ | _, .nan => nan
  | .infinity s, .infinity t => if s == t then a else nan
  | .infinity _, _ => a
  | _, .infinity _ => b
  | .finite x, .finite y => if x + y = 0 then zero (a.negative && b.negative) else ofRat (x + y)

def sub (a b : Double) : Double := a.add b.neg

def mul (a b : Double) : Double :=
  let sign := a.negative != b.negative
  match a.value, b.value with
  | .nan, _ | _, .nan => nan
  | .infinity _, .infinity _ => infinity sign
  | .infinity _, .finite y => if y = 0 then nan else infinity sign
  | .finite x, .infinity _ => if x = 0 then nan else infinity sign
  | .finite x, .finite y => if x * y = 0 then zero sign else ofRat (x * y)

def div (a b : Double) : Double :=
  let sign := a.negative != b.negative
  match a.value, b.value with
  | .nan, _ | _, .nan => nan
  | .infinity _, .infinity _ => nan
  | .infinity _, .finite _ => infinity sign
  | .finite _, .infinity _ => zero sign
  | .finite x, .finite y =>
    if y = 0 then (if x = 0 then nan else infinity sign)
    else if x = 0 then zero sign
    else ofRat (x / y)

/-! ## Integers -/

/-- The integer a word stands for, if it stands for one. -/
def toInt? (d : Double) : Option Int :=
  match d.value with
  | .finite r => if r.den = 1 then some r.num else none
  | _ => none

/-- Applies a rounding rule to a finite word. -/
def mapFinite (f : Rat → Int) (d : Double) : Double :=
  match d.value with
  | .finite r => ofInt (f r)
  | _ => d

/-- The nearest integer, halves going away from zero. -/
def nearestInt (r : Rat) : Int :=
  if r < 0 then -((-r + mkRat 1 2).floor) else (r + mkRat 1 2).floor

def floor : Double → Double := mapFinite Rat.floor
def ceil : Double → Double := mapFinite Rat.ceil
def round : Double → Double := mapFinite nearestInt
def trunc : Double → Double := mapFinite (fun r => r.num.tdiv r.den)

end Double
end PolicyEngine
