import PolicyEngine.Numeric.Literal

/-!
The floating-point word of a number in JSON text. A literal is read into an integer of at most 64 bits and a
power of ten, and the word is the one times or divided by the other. Both the integer and the power are
rounded before they are combined, so the word may be a neighbour of the one nearest to the literal.
-/
namespace PolicyEngine.Json

/-- The integers that digits are gathered in. -/
def fitsWord (n : Nat) : Bool := n < 0x10000000000000000

/-- Gathers digits before the point. From the first that does not fit on, each only raises the power of
ten. -/
def gatherWhole (n : Nat) : List Char → Nat × Nat
  | [] => (n, 0)
  | c :: cs =>
    let m := 10 * n + digitValue c
    if fitsWord m then gatherWhole m cs else (n, cs.length + 1)

/-- Gathers digits after the point, each of which lowers the power of ten. From the first that does not fit
on, they are dropped. -/
def gatherFraction (n : Nat) : List Char → Nat × Nat
  | [] => (n, 0)
  | c :: cs =>
    let m := 10 * n + digitValue c
    if fitsWord m then
      let (total, taken) := gatherFraction m cs
      (total, taken + 1)
    else (n, 0)

/-- The greatest power of ten below the largest finite word. -/
def greatestPower : Nat := 308

/-- The word nearest to a power of ten. -/
def powerOfTen (exponent : Nat) : Double := .ofRatio false (Nat.pow 10 exponent) 1

/-- A word times a power of ten. Beyond the greatest power in a word it is infinite, and a division by more
than that is made in two steps. -/
def scaleWord (d : Double) (exponent : Int) : Double :=
  let size := exponent.natAbs
  if d.toInt? == some 0 then d
  else if 0 ≤ exponent then
    if size ≤ greatestPower then d.mul (powerOfTen size) else .infinity false
  else if size ≤ greatestPower then d.div (powerOfTen size)
  else if size ≤ 2 * greatestPower then
    (d.div (powerOfTen greatestPower)).div (powerOfTen (size - greatestPower))
  else .zero false

/-- The word of a literal. -/
def wordOfLiteral (l : Literal) : Double :=
  let (n, raised) := gatherWhole 0 l.whole
  let (n, lowered) := gatherFraction n l.fraction
  let size := scaleWord (.ofInt n) (l.exponent.getD 0 + raised - lowered)
  if l.negative then size.neg else size

end PolicyEngine.Json
