import PolicyEngine.Number.Basic

/-!
Arithmetic on numbers. Two integers give an exact integer wherever the result is one; every other case is
computed on floating-point words and turned back into an integer when it is a small one.
-/
namespace PolicyEngine.Number

/-- Why an operation has no result. -/
inductive ArithmeticError where
  | divideByZero
  | moduloByZero
  | moduloFraction
  | moduloRange
  deriving DecidableEq, Repr

def ArithmeticError.message : ArithmeticError → String
  | .divideByZero => "divide by zero"
  | .moduloByZero => "modulo by zero"
  | .moduloFraction => "modulo on floating-point number"
  | .moduloRange => "modulo operand out of range"

/-! ## Words of 128 bits -/

/-- A machine word as a word of 128 bits, which holds the difference of any two of them. -/
def wideUnsigned (v : UInt64) : BitVec 128 := v.toBitVec.setWidth 128
def wideSigned (v : Int64) : BitVec 128 := v.toBitVec.signExtend 128

/-- The number with the value of a word of 128 bits. -/
def ofWide (w : BitVec 128) : Number := ofInt w.toInt

/-! ## Operations -/

/-- Both values, when neither number is a floating-point word. -/
def exactPair? (a b : Number) : Option (Int × Int) :=
  match a.exactInt?, b.exactInt? with
  | some x, some y => some (x, y)
  | _, _ => none

def add (a b : Number) : Number :=
  match exactPair? a b with
  | some (x, y) => ofInt (x + y)
  | none => ofDouble (a.toDouble.add b.toDouble)

/-- Two machine words of one kind are subtracted without a big integer. -/
def sub (a b : Number) : Number :=
  match a, b with
  | .unsigned x, .unsigned y => ofWide (wideUnsigned x - wideUnsigned y)
  | .signed x, .signed y => ofWide (wideSigned x - wideSigned y)
  | a, b =>
    match exactPair? a b with
    | some (x, y) => ofInt (x - y)
    | none => ofDouble (a.toDouble.sub b.toDouble)

def mul (a b : Number) : Number :=
  match exactPair? a b with
  | some (x, y) => ofInt (x * y)
  | none => ofDouble (a.toDouble.mul b.toDouble)

/-- Division is exact when an integer divides an integer. -/
def divide (a b : Number) : Except ArithmeticError Number :=
  if b.isZero then .error .divideByZero
  else match exactPair? a b with
    | some (x, y) =>
      if x.tmod y = 0 then .ok (ofInt (x.tdiv y))
      else .ok (ofDouble (a.toDouble.div b.toDouble))
    | none => .ok (ofDouble (a.toDouble.div b.toDouble))

/-- The remainder of division toward zero; it has the sign of `a`. -/
def modulo (a b : Number) : Except ArithmeticError Number :=
  if b.isZero then .error .moduloByZero
  else if !a.isInteger || !b.isInteger then .error .moduloFraction
  else match a.toInt?, b.toInt? with
    | some x, some y => .ok (ofInt (x.tmod y))
    | _, _ => .error .moduloRange

def abs : Number → Number
  | .float d => .float d.abs
  | .unsigned v => .unsigned v
  | .signed v => ofWide (wideSigned v).abs
  | .big v => ofInt v.natAbs

def floor : Number → Number
  | .float d => ofDouble d.floor
  | n => n

def ceil : Number → Number
  | .float d => ofDouble d.ceil
  | n => n

/-- The nearest integer, halves going away from zero. -/
def round : Number → Number
  | .float d => ofDouble d.round
  | n => n

end PolicyEngine.Number
