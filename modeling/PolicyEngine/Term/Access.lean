import PolicyEngine.Term.Order

/-!
Reading and changing the parts of a document.
-/
namespace PolicyEngine.Term

/-! ## Looking up -/

/-- The part of a collection under a key: an element at an index, a field or a member. -/
def lookup (t key : Term) : Option Term :=
  match t, key with
  | .object fields, _ => findField? key fields
  | .set members, _ => findMember? key members
  | .array items, .number n => n.toUnsigned?.bind (items[·]?)
  | _, _ => none

/-- The value at the end of a path of keys through nested objects. -/
def lookupPath (t : Term) : List String → Option Term
  | [] => some t
  | key :: rest =>
    match t with
    | .object fields => (findField? (.string key) fields).bind (lookupPath · rest)
    | _ => none

/-- The value at the end of a path of string keys through collections of any kind. -/
def lookupKeys (t : Term) : List String → Option Term
  | [] => some t
  | key :: rest => (t.lookup (.string key)).bind (lookupKeys · rest)

/-! ## Changing -/

/-- A path leads through a term that has no fields. -/
structure PathError where
  key : String
  found : String
  deriving DecidableEq, Repr

def PathError.message (e : PathError) : String := s!"cannot set `{e.key}` on {e.found}"

/-- The value of the slot at a path that a write would fill: an empty object where nothing is. -/
def slot (t : Term) : List String → Except PathError Term
  | [] => .ok t
  | key :: rest =>
    match t with
    | .object fields => slot ((findField? (.string key) fields).getD emptyObject) rest
    | t => .error ⟨key, t.typeName⟩

/-- The term with a value at a path; objects are created along the way. -/
def setPath (value t : Term) : List String → Except PathError Term
  | [] => .ok value
  | key :: rest =>
    match t with
    | .object fields =>
      match setPath value ((findField? (.string key) fields).getD emptyObject) rest with
      | .ok inner => .ok (.object (insertField (.string key) inner fields))
      | .error e => .error e
    | t => .error ⟨key, t.typeName⟩

/-! ## Views -/

/-- A term is not of the kind that was asked for. -/
inductive KindError where
  | notBool
  | notString
  | notNumber
  | notArray
  | notSet
  | notObject
  deriving DecidableEq, Repr

def KindError.message : KindError → String
  | .notBool => "not a bool"
  | .notString => "not a string"
  | .notNumber => "not a number"
  | .notArray => "not an array"
  | .notSet => "not a set"
  | .notObject => "not an object"

def asBool : Term → Except KindError Bool
  | .bool b => .ok b
  | _ => .error .notBool

def asString : Term → Except KindError String
  | .string s => .ok s
  | _ => .error .notString

def asNumber : Term → Except KindError Number
  | .number n => .ok n
  | _ => .error .notNumber

def asArray : Term → Except KindError (List Term)
  | .array items => .ok items
  | _ => .error .notArray

def asSet : Term → Except KindError (List Term)
  | .set members => .ok members
  | _ => .error .notSet

def asObject : Term → Except KindError (List (Term × Term))
  | .object fields => .ok fields
  | _ => .error .notObject

end PolicyEngine.Term
