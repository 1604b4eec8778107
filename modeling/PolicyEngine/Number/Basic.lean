import PolicyEngine.Numeric.Decimal

/-!
Numbers of the policy language. Integers are exact at every size: they are kept in a machine word when they
fit in one and as a big integer otherwise. Everything else is a floating-point word. Numbers are compared by
value, so the same value in two representations is one number.
-/
namespace PolicyEngine

/-- A number in one of its representations. -/
inductive Number where
  | unsigned (value : UInt64)
  | signed (value : Int64)
  | big (value : Int)
  | float (value : Double)
  deriving DecidableEq, Repr

namespace Number

/-! ## Integers -/

def fitsUnsigned (i : Int) : Bool := 0 ≤ i && i < 0x10000000000000000
def fitsSigned (i : Int) : Bool := -0x8000000000000000 ≤ i && i < 0x8000000000000000

/-- The number with an integer value: a machine word when one can hold it. -/
def ofInt (i : Int) : Number :=
  if fitsUnsigned i then .unsigned (UInt64.ofNat i.toNat)
  else if fitsSigned i then .signed (Int64.ofInt i)
  else .big i

def ofNat (n : Nat) : Number := ofInt n

instance : OfNat Number n := ⟨ofNat n⟩

/-- The magnitude up to which every integer is a floating-point word. -/
def safeInteger : Int := 0x20000000000000

/-- The integer a floating-point word stands for, when it is small enough to be trusted as exact. -/
def smallInt? (d : Double) : Option Int :=
  match d.toInt? with
  | some i => if i.natAbs ≤ safeInteger.natAbs then some i else none
  | none => none

/-- The value of a number that is not a floating-point word. -/
def exactInt? : Number → Option Int
  | .unsigned v => some v.toNat
  | .signed v => some v.toInt
  | .big v => some v
  | .float _ => none

/-- The integer value of a number, small floating-point integers included. -/
def toInt? : Number → Option Int
  | .float d => smallInt? d
  | n => n.exactInt?

/-- A floating-point result; small integral ones become integers. -/
def ofDouble (d : Double) : Number :=
  match smallInt? d with
  | some i => ofInt i
  | none => .float d

/-- The floating-point word a number is computed with. -/
def toDouble : Number → Double
  | .float d => d
  | .unsigned v => .ofInt v.toNat
  | .signed v => .ofInt v.toInt
  | .big v => .ofLongInt v

/-- The value as a 64-bit unsigned integer. -/
def toUnsigned? (n : Number) : Option Nat :=
  match n.toInt? with
  | some i => if fitsUnsigned i then some i.toNat else none
  | none => none

/-- The value as a 64-bit signed integer. -/
def toSigned? (n : Number) : Option Int :=
  match n.toInt? with
  | some i => if fitsSigned i then some i else none
  | none => none

def isInteger : Number → Bool
  | .float d => d.toInt?.isSome
  | _ => true

def isZero : Number → Bool
  | .float d => d.toInt? == some 0
  | n => n.exactInt? == some 0

/-! ## Order and identity -/

/-- What a number is worth, whatever its representation. -/
inductive Exact where
  | negInfinity
  | finite (value : Rat)
  | infinity
  | nan
  deriving DecidableEq

def exact : Number → Exact
  | .unsigned v => .finite (v.toNat : Int)
  | .signed v => .finite v.toInt
  | .big v => .finite v
  | .float d => match d.value with
    | .finite r => .finite r
    | .infinity true => .negInfinity
    | .infinity false => .infinity
    | .nan => .nan

namespace Exact

def rank : Exact → Nat
  | .negInfinity => 0
  | .finite _ => 1
  | .infinity => 2
  | .nan => 3

/-- Infinities enclose the rationals, and not-a-number stands after everything. -/
def cmp : Exact → Exact → Ordering
  | .finite x, .finite y => compareOfLessAndEq x y
  | x, y => compare x.rank y.rank

end Exact

/-- Numbers are ordered by value; integers are compared without leaving the integers. -/
def cmp (a b : Number) : Ordering :=
  match a.exactInt?, b.exactInt? with
  | some x, some y => compare x y
  | _, _ => a.exact.cmp b.exact

instance : Ord Number := ⟨cmp⟩

/-- What a number contributes to a hash: its exact value. -/
inductive HashKey where
  | integer (value : Int)
  | fraction (bits : UInt64)
  | negInfinity
  | infinity
  | nan
  deriving DecidableEq, Repr

def hashKey (n : Number) : HashKey :=
  match n with
  | .float d => match d.value with
    | .finite r => if r.den = 1 then .integer r.num else .fraction d.bits
    | .infinity true => .negInfinity
    | .infinity false => .infinity
    | .nan => .nan
  | .unsigned v => .integer v.toNat
  | .signed v => .integer v.toInt
  | .big v => .integer v

end Number
end PolicyEngine
