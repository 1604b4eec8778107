import PolicyEngine.Numeric.Double

/-!
Decimal literals: an optional sign, digits with at most one point among them, and an optional exponent.
A literal denotes an exact rational number; `Literal.toDouble` gives the word nearest to it.
-/
namespace PolicyEngine

def isDigit (c : Char) : Bool := '0' ≤ c && c ≤ '9'
def digitValue (c : Char) : Nat := c.toNat - '0'.toNat

/-- The number written by decimal digits, most significant first. -/
def digitsValue (cs : List Char) : Nat :=
  cs.foldl (fun n c => 10 * n + digitValue c) 0

/-- A sign and what follows it; without a sign the text is positive. -/
def takeSign : List Char → Bool × List Char
  | '-' :: cs => (true, cs)
  | '+' :: cs => (false, cs)
  | cs => (false, cs)

/-- A signed integer: an optional sign and at least one digit. -/
def parseInteger? (cs : List Char) : Option Int :=
  let (negative, digits) := takeSign cs
  if digits.isEmpty || !digits.all isDigit then none
  else some (if negative then -(digitsValue digits : Int) else digitsValue digits)

def isExponentMark (c : Char) : Bool := c == 'e' || c == 'E'

/-- The parts of a decimal literal. `point` tells whether a point was written, `exponent` is absent when no
exponent was. -/
structure Literal where
  negative : Bool
  whole : List Char
  fraction : List Char
  point : Bool
  exponent : Option Int
  deriving DecidableEq, Repr

namespace Literal

/-- Digits before and after an optional point. -/
def splitPoint? (cs : List Char) : Option (List Char × List Char × Bool) :=
  let whole := cs.takeWhile isDigit
  match cs.dropWhile isDigit with
  | [] => some (whole, [], false)
  | c :: fraction => if c == '.' && fraction.all isDigit then some (whole, fraction, true) else none

/-- Reads a literal without asking for digits: a lone point, or nothing before an exponent, is let through
with empty digits. -/
def parse? (cs : List Char) : Option Literal :=
  let (negative, cs) := takeSign cs
  match splitPoint? (cs.takeWhile (!isExponentMark ·)), cs.dropWhile (!isExponentMark ·) with
  | some (whole, fraction, point), [] => some ⟨negative, whole, fraction, point, none⟩
  | some (whole, fraction, point), _ :: exponent =>
    (parseInteger? exponent).map fun e => ⟨negative, whole, fraction, point, some e⟩
  | none, _ => none

/-- Whether any digit stands before the exponent. -/
def hasDigits (l : Literal) : Bool := !(l.whole.isEmpty && l.fraction.isEmpty)

/-- The digits as one number; the literal is this number times ten to the `scale`. -/
def coefficient (l : Literal) : Nat := digitsValue (l.whole ++ l.fraction)
def scale (l : Literal) : Int := l.exponent.getD 0 - l.fraction.length

/-- Beyond this many decimal places on either side every literal rounds to zero or to infinity. -/
def horizon : Int := 400

/-- The word nearest to the literal. -/
def toDouble (l : Literal) : Double :=
  let c := l.coefficient
  let digits : Int := (Nat.toDigits 10 c).length
  if c = 0 then .zero l.negative
  else if horizon < digits + l.scale then .infinity l.negative
  else if digits + l.scale < -horizon then .zero l.negative
  else .ofRatio l.negative (c * Nat.pow 10 l.scale.toNat) (Nat.pow 10 (-l.scale).toNat)

end Literal
end PolicyEngine
