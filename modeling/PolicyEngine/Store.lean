import PolicyEngine.Error

/-!
The store of base documents. Readers work with a transaction: it pins the root document as it was when the
transaction began, or follows the current root. Writes and merges change the root only.
-/
namespace PolicyEngine

/-- One step of a storage path. -/
inductive PathSegment where
  | key (name : String)
  | index (position : Nat)
  deriving DecidableEq, Repr

def PathSegment.text : PathSegment → String
  | .key name => name
  | .index position => Number.intText position

abbrev StorePath := List PathSegment

def StorePath.text (path : StorePath) : String := ".".intercalate (path.map PathSegment.text)

/-- The path of string keys. -/
def StorePath.ofKeys (keys : List String) : StorePath := keys.map .key

/-- The position written by a key: digits, after a plus sign if there is one, within 64 bits. -/
def positionOfKey? (name : String) : Option Nat :=
  let digits := match name.toList with
    | '+' :: digits => digits
    | digits => digits
  if digits.isEmpty || !digits.all isDigit || !Number.fitsUnsigned (digitsValue digits) then none
  else some (digitsValue digits)

namespace Term

/-- The part of a document addressed by a segment. Members of sets are not addressable. -/
def child? (t : Term) (segment : PathSegment) : Option Term :=
  match t, segment with
  | .object fields, .key name => findField? (.string name) fields
  | .array items, .index position => items[position]?
  | .array items, .key name => (positionOfKey? name).bind (items[·]?)
  | _, _ => none

/-- The part of a document at the end of a path. -/
def at? (t : Term) : StorePath → Option Term
  | [] => some t
  | segment :: rest => (t.child? segment).bind (at? · rest)

/-- The keys of a collection in their order; nothing for other terms. -/
def childKeys? : Term → Option (List Term)
  | .object fields => some (fields.map Prod.fst)
  | .array items => some ((List.range items.length).map Term.ofNat)
  | .set members => some members
  | _ => none

end Term

/-! ## Merging -/

/-- How a key is named in an error. -/
def mergeKeyText : Term → String
  | .string s => s
  | t => t.text

mutual
/-- Merges a document into another: objects field by field, and nothing else unless the two are equal.
What was merged before a contradiction stays merged. -/
def mergeInto (path : List String) (old : Term) : Term → Term × Except StorageError Unit
  | .object fields =>
    match old with
    | .object existing =>
      let (merged, result) := mergeFields path existing fields
      (.object merged, result)
    | old => (old, .error (.alreadyDefined path))
  | new => if old == new then (old, .ok ()) else (old, .error (.alreadyDefined path))
def mergeFields (path : List String) (existing : List (Term × Term)) :
    List (Term × Term) → List (Term × Term) × Except StorageError Unit
  | [] => (existing, .ok ())
  | (k, v) :: rest =>
    match Term.findField? k existing with
    | none => mergeFields path (Term.insertField k v existing) rest
    | some old =>
      match mergeInto (path ++ [mergeKeyText k]) old v with
      | (merged, .ok ()) => mergeFields path (Term.insertField k merged existing) rest
      | (merged, .error e) => (Term.insertField k merged existing, .error e)
end

/-! ## The store -/

/-- A handle through which a reader sees the store: the root it pinned, or the current one. -/
structure Transaction where
  id : Nat
  snapshot : Option Term := none

structure Store where
  root : Term := Term.emptyObject
  nextTransaction : Nat := 1
  /-- Paths at which this store fails to answer. -/
  failing : List String := []

namespace Store

/-- A store with a root document, which must be an object. -/
def ofRoot (root : Term) : Except StorageError Store :=
  match root with
  | .object _ => .ok { root := root }
  | t => .error (.rootNotObject t.typeName)

/-- The keys of a path without indices. -/
def writableKeys : StorePath → Except StorageError (List String)
  | [] => .ok []
  | .key name :: rest => (writableKeys rest).map (name :: ·)
  | .index position :: _ => .error (.writeThroughIndex position)

/-- Replaces the document at a path; objects are created along the way. -/
def write (path : StorePath) (value : Term) (s : Store) : Except StorageError Store :=
  match writableKeys path with
  | .error e => .error e
  | .ok keys =>
    match Term.setPath value s.root keys with
    | .ok root => .ok { s with root := root }
    | .error e => .error (.unwritable e)

/-- Merges an object into the root. After a contradiction the store holds what was merged before it. -/
def merge (data : Term) (s : Store) : Store × Except StorageError Unit :=
  match data with
  | .object _ =>
    let (root, result) := mergeInto [] s.root data
    ({ s with root := root }, result)
  | t => (s, .error (.dataNotObject t.typeName))

/-- Opens a transaction that pins the current root. -/
def beginRead (s : Store) : Transaction × Store :=
  (⟨s.nextTransaction, some s.root⟩, { s with nextTransaction := s.nextTransaction + 1 })

/-- The root document a transaction sees. -/
def view (txn : Transaction) (s : Store) : Term := txn.snapshot.getD s.root

def read (txn : Transaction) (path : StorePath) (s : Store) : Option Term := (s.view txn).at? path

/-- The keys directly below a path. -/
def listKeys (txn : Transaction) (path : StorePath) (s : Store) : Option (List Term) :=
  (s.read txn path).bind Term.childKeys?

end Store
end PolicyEngine
