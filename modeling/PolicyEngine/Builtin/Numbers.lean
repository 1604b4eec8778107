import PolicyEngine.Builtin.Operand

/-!
Arithmetic, rounding, ranges, conversion to numbers, and numbers drawn by the host.
-/
namespace PolicyEngine.Builtin

/-- A function of two numbers. -/
def onNumbers (f : Number → Number → Except Number.ArithmeticError Number) : List Term → BuiltinResult
  | [a, b] => do
    let x ← Operand.number a
    let y ← Operand.number b
    match f x y with
    | .ok n => Operand.value (.number n)
    | .error e => .error (.arithmetic e)
  | _ => .error (.operandCount 2)

def onNumber (f : Number → Number) : List Term → BuiltinResult
  | [a] => do Operand.value (.number (f (← Operand.number a)))
  | _ => .error (.operandCount 1)

/-- The members of the first list that are not in the second. -/
def setDifference (a b : List Term) : List Term := a.filter (!Term.containsMember · b)

/-- The difference of two numbers or of two sets. -/
def minus : List Term → BuiltinResult
  | [a, b] =>
    match a, b with
    | .set _, _ | _, .set _ => do
      let x ← Operand.set a
      let y ← Operand.set b
      Operand.value (.set (setDifference x y))
    | a, b => onNumbers (fun x y => .ok (x.sub y)) [a, b]
  | _ => .error (.operandCount 2)

/-- Ranges that span this much are refused. -/
def maxRangeSpan : Nat := 10000000

/-- The integers from the first to the last, in falling order if the last is the smaller. -/
def integersBetween (first last : Int) : List Int :=
  let steps := List.range ((last - first).natAbs + 1)
  if first ≤ last then steps.map fun (i : Nat) => first + i else steps.map fun (i : Nat) => first - i

def numbersRange : List Term → BuiltinResult
  | [a, b] => do
    let first ← Operand.integer a
    let last ← Operand.integer b
    if maxRangeSpan ≤ (first - last).natAbs then .error (.rangeTooLarge first last)
    else Operand.value (.array ((integersBetween first last).map Term.ofInt))
  | _ => .error (.operandCount 2)

def toNumber : List Term → BuiltinResult
  | [.null] => Operand.value (.number 0)
  | [.bool b] => Operand.value (.number (if b then 1 else 0))
  | [.number n] => Operand.value (.number n)
  | [.string s] =>
    match Number.ofText? s with
    | some n => Operand.value (.number n)
    | none => .error (.unreadableNumber s)
  | [t] => .error (.notConvertible t)
  | _ => .error (.operandCount 1)

/-- The numbers that the host draws. The functions of the library cannot tell where they come from. -/
structure Draw where
  below : String → Nat → Nat
  below_lt : ∀ (seed : String) (bound : Nat), 0 < bound → below seed bound < bound

/-- Draws the least number. -/
def Draw.least : Draw where
  below _ _ := 0
  below_lt _ _ h := h

/-- Draws a number below the size of the bound, and zero for the bound zero. -/
def Draw.pick (draw : Draw) (seed : String) (bound : Int) : Nat :=
  if bound = 0 then 0 else draw.below seed bound.natAbs

theorem Draw.pick_lt (draw : Draw) (seed : String) {bound : Int} (h : bound ≠ 0) :
    draw.pick seed bound < bound.natAbs := by
  rw [pick, if_neg h]
  exact draw.below_lt seed _ (Int.natAbs_pos.2 h)

def randomInt (draw : Draw) : List Term → BuiltinResult
  | [a, b] => do
    let seed ← Operand.string a
    let bound ← Operand.integer b
    Operand.value (Term.ofNat (draw.pick seed bound))
  | _ => .error (.operandCount 2)

def numberBuiltins (draw : Draw) : List Builtin :=
  let binary (name : String) (f : Number → Number → Except Number.ArithmeticError Number) : Builtin :=
    .ofPure name [.number, .number] .number (onNumbers f)
  let unary (name : String) (f : Number → Number) : Builtin := .ofPure name [.number] .number (onNumber f)
  let numberOrSet : OperandType := .union [.number, .set]
  [binary "plus" fun x y => .ok (x.add y),
   .ofPure "minus" [numberOrSet, numberOrSet] numberOrSet minus,
   binary "mul" fun x y => .ok (x.mul y), binary "div" Number.divide, binary "rem" Number.modulo,
   unary "abs" Number.abs, unary "ceil" Number.ceil, unary "floor" Number.floor, unary "round" Number.round,
   .ofPure "numbers.range" [.number, .number] .array numbersRange,
   .ofPure "to_number" [.union [.null, .boolean, .number, .string]] .number toNumber,
   { Builtin.ofPure "rand.intn" [.string, .number] .number (randomInt draw) with deterministic := false }]

end PolicyEngine.Builtin
