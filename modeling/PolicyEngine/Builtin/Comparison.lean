import PolicyEngine.Builtin.Operand

/-!
Comparisons in the order of the language, membership, and tests of the kind of a term.
-/
namespace PolicyEngine.Builtin

/-- Tells whether the order of two terms is one that is asked for. -/
def comparison (accept : Ordering → Bool) : List Term → BuiltinResult
  | [a, b] => Operand.value (.bool (accept (a.cmp b)))
  | _ => .error (.operandCount 2)

/-- Whether a collection holds an element, or an object a value. -/
def isMember (x : Term) : Term → Bool
  | .array items => items.any (· == x)
  | .set members => Term.containsMember x members
  | .object fields => fields.any fun (_, v) => v == x
  | _ => false

/-- Whether an array or object holds a value at a key. -/
def isEntry (key value collection : Term) : Bool :=
  match collection with
  | .array _ | .object _ => (collection.lookup key).any (· == value)
  | _ => false

def member2 : List Term → BuiltinResult
  | [x, xs] => Operand.value (.bool (isMember x xs))
  | _ => .error (.operandCount 2)

def member3 : List Term → BuiltinResult
  | [k, v, xs] => Operand.value (.bool (isEntry k v xs))
  | _ => .error (.operandCount 3)

/-- Tells whether a term is of the kind with the given name. -/
def kindTest (kind : String) : List Term → BuiltinResult
  | [t] => Operand.value (.bool (t.typeName == kind))
  | _ => .error (.operandCount 1)

def typeNameOf : List Term → BuiltinResult
  | [t] => Operand.value (.string t.typeName)
  | _ => .error (.operandCount 1)

def comparisonBuiltins : List Builtin :=
  let test (name : String) (accept : Ordering → Bool) : Builtin :=
    .ofPure name [.any, .any] .boolean (comparison accept)
  let kind (name kind : String) : Builtin := .ofPure name [.any] .boolean (kindTest kind)
  [test "equal" Ordering.isEq, test "neq" Ordering.isNe, test "lt" Ordering.isLT, test "lte" Ordering.isLE,
   test "gt" Ordering.isGT, test "gte" Ordering.isGE,
   .ofPure "internal.member_2" [.any, .any] .boolean member2,
   .ofPure "internal.member_3" [.any, .any, .any] .boolean member3,
   kind "is_array" "array", kind "is_boolean" "boolean", kind "is_null" "null", kind "is_number" "number",
   kind "is_object" "object", kind "is_set" "set", kind "is_string" "string",
   .ofPure "type_name" [.any] .string typeNameOf]

end PolicyEngine.Builtin
