import PolicyEngine.Builtin.Basic

/-!
Operands as built-in functions take them apart.
-/
namespace PolicyEngine.Operand

def number : Term → Except BuiltinError Number
  | .number n => .ok n
  | t => .error (.expected "numeric" t)

/-- An integer of 64 bits. -/
def integer (t : Term) : Except BuiltinError Int :=
  match t with
  | .number n =>
    if n.isInteger then
      match n.toSigned? with
      | some i => .ok i
      | none => .error (.integerRange t)
    else .error (.expected "integer" t)
  | t => .error (.expected "integer" t)

def string : Term → Except BuiltinError String
  | .string s => .ok s
  | t => .error (.expected "string" t)

def array : Term → Except BuiltinError (List Term)
  | .array items => .ok items
  | t => .error (.expected "array" t)

def set : Term → Except BuiltinError (List Term)
  | .set members => .ok members
  | t => .error (.expected "set" t)

def object : Term → Except BuiltinError (List (Term × Term))
  | .object fields => .ok fields
  | t => .error (.expected "object" t)

/-- The elements of an array or a set in order. -/
def iterable : Term → Except BuiltinError (List Term)
  | .array items => .ok items
  | .set members => .ok members
  | t => .error (.notIterable t)

/-- The strings of a list, counted from an index. -/
def stringsFrom : Nat → List Term → Except BuiltinError (List String)
  | _, [] => .ok []
  | index, .string s :: rest => (stringsFrom (index + 1) rest).map (s :: ·)
  | index, _ :: _ => .error (.elementNotString index)

/-- The elements of an array or a set of strings. -/
def strings : Term → Except BuiltinError (List String)
  | .array items => stringsFrom 0 items
  | .set members => stringsFrom 0 members
  | _ => .error .notStrings

/-- The elements of an array or a set, or the keys of an object. -/
def keys : Term → Except BuiltinError (List Term)
  | .array items => .ok items
  | .set members => .ok members
  | .object fields => .ok (fields.map Prod.fst)
  | _ => .error .notCollection

/-- A defined result. -/
def value (t : Term) : BuiltinResult := .ok (some t)

end PolicyEngine.Operand
