import PolicyEngine.Builtin.Operand

/-!
Functions on arrays, sets and objects as wholes: sizes, folds, sorting, slices, set algebra and object
algebra.
-/
namespace PolicyEngine.Builtin

/-! ## Aggregates -/

def count : List Term → BuiltinResult
  | [.array items] => Operand.value (Term.ofNat items.length)
  | [.set members] => Operand.value (Term.ofNat members.length)
  | [.object fields] => Operand.value (Term.ofNat fields.length)
  | [.string s] => Operand.value (Term.ofNat s.length)
  | [t] => .error (.notCountable t)
  | _ => .error (.operandCount 1)

/-- The greatest element; of equal ones the last. -/
def greatest? : List Term → Option Term
  | [] => none
  | t :: rest => some (rest.foldl (fun best u => if (best.cmp u).isGT then best else u) t)

/-- The least element; of equal ones the first. -/
def least? : List Term → Option Term
  | [] => none
  | t :: rest => some (rest.foldl (fun best u => if (best.cmp u).isGT then u else best) t)

def maxOf : List Term → BuiltinResult
  | [t] => do .ok (greatest? (← Operand.iterable t))
  | _ => .error (.operandCount 1)

def minOf : List Term → BuiltinResult
  | [t] => do .ok (least? (← Operand.iterable t))
  | _ => .error (.operandCount 1)

/-- Combines the numbers of an array or set. -/
def foldNumbers (start : Number) (f : Number → Number → Number) : List Term → BuiltinResult
  | [t] => do
    let total ← (← Operand.iterable t).foldlM (fun n u => do .ok (f n (← Operand.number u))) start
    Operand.value (.number total)
  | _ => .error (.operandCount 1)

/-- The elements in order; equal ones stay in the order they came. -/
def sortTerms (items : List Term) : List Term := items.mergeSort fun a b => (a.cmp b).isLE

def sort : List Term → BuiltinResult
  | [t] => do Operand.value (.array (sortTerms (← Operand.iterable t)))
  | _ => .error (.operandCount 1)

/-! ## Arrays -/

def arrayConcat : List Term → BuiltinResult
  | [a, b] => do
    let x ← Operand.array a
    let y ← Operand.array b
    Operand.value (.array (x ++ y))
  | _ => .error (.operandCount 2)

def arrayReverse : List Term → BuiltinResult
  | [a] => do Operand.value (.array (← Operand.array a).reverse)
  | _ => .error (.operandCount 1)

/-- The elements from a start up to a stop, both moved into the array. -/
def arraySlice : List Term → BuiltinResult
  | [a, b, c] => do
    let items ← Operand.array a
    let start ← Operand.integer b
    let stop ← Operand.integer c
    Operand.value (.array ((items.take stop.toNat).drop start.toNat))
  | _ => .error (.operandCount 3)

/-! ## Sets -/

/-- How many times as many members one set must have for the other to be searched in it. -/
def searchRatio : Nat := 16

/-- Whether one set ends with the member the other starts with. -/
def setsTouch (a b : List Term) : Bool :=
  match a.head?, a.getLast?, b.head?, b.getLast? with
  | some first, some last, some first', some last' => first == last' || last == first'
  | _, _, _, _ => false

/-- The members that are in both lists. Of equal ones that of the first list is taken, except that a second
list which is much shorter gives its own, unless the lists only touch. -/
def setIntersection (a b : List Term) : List Term :=
  if b.length ≤ a.length / searchRatio && !setsTouch a b then b.filter (Term.containsMember · a)
  else a.filter (Term.containsMember · b)

/-- The members of both lists; of equal ones that of the first. -/
def setUnion (a b : List Term) : List Term := b.foldl (fun members t => Term.insertMember t members) a

def onSets (f : List Term → List Term → List Term) : List Term → BuiltinResult
  | [a, b] => do
    let x ← Operand.set a
    let y ← Operand.set b
    Operand.value (.set (f x y))
  | _ => .error (.operandCount 2)

/-- The sets among the members of a set; all of them must be. -/
def memberSets (whole : Term) : List Term → Except BuiltinError (List (List Term))
  | [] => .ok []
  | .set members :: rest => (memberSets whole rest).map (members :: ·)
  | _ :: _ => .error (.notSetOfSets whole)

/-- Combines the members of a set of sets. -/
def onSetOfSets (f : List (List Term) → List Term) : List Term → BuiltinResult
  | [t] => do Operand.value (.set (f (← memberSets t (← Operand.set t))))
  | _ => .error (.operandCount 1)

def intersectionOf : List (List Term) → List Term
  | [] => []
  | first :: rest => rest.foldl setIntersection first

def unionOf (sets : List (List Term)) : List Term := sets.foldl setUnion []

/-! ## Objects -/

def objectFilter : List Term → BuiltinResult
  | [a, b] => do
    let fields ← Operand.object a
    let keys := Term.sortMembers (← Operand.keys b)
    Operand.value (.object (fields.filter fun (k, _) => Term.containsMember k keys))
  | _ => .error (.operandCount 2)

def objectRemove : List Term → BuiltinResult
  | [a, b] => do
    let fields ← Operand.object a
    let keys := Term.sortMembers (← Operand.keys b)
    Operand.value (.object (fields.filter fun (k, _) => !Term.containsMember k keys))
  | _ => .error (.operandCount 2)

/-- The part of a term at the end of a path of keys. -/
def follow (t : Term) : List Term → Option Term
  | [] => some t
  | key :: rest => (t.lookup key).bind (follow · rest)

/-- The value at a key or, for an array of keys, at a path; a default where there is none. -/
def objectGet : List Term → BuiltinResult
  | [a, key, default] => do
    let fields ← Operand.object a
    match key with
    | .array path => Operand.value ((follow a path).getD default)
    | key => Operand.value ((Term.findField? key fields).getD default)
  | _ => .error (.operandCount 3)

def objectKeys : List Term → BuiltinResult
  | [a] => do Operand.value (Term.setOf ((← Operand.object a).map Prod.fst))
  | _ => .error (.operandCount 1)

/-- Terms equal position by position. -/
def equalLists : List Term → List Term → Bool
  | [], [] => true
  | a :: as, b :: bs => a == b && equalLists as bs
  | _, _ => false

/-- Whether a list starts with another. -/
def startsWithTerms : List Term → List Term → Bool
  | _, [] => true
  | [], _ :: _ => false
  | a :: as, b :: bs => a == b && startsWithTerms as bs

/-- Whether a list occurs in another as a contiguous run. -/
def hasRun (run : List Term) : List Term → Bool
  | [] => run.isEmpty
  | a :: as => startsWithTerms (a :: as) run || hasRun run as

mutual
/-- Whether the second term is part of the first: objects field by field, sets by inclusion, arrays as
contiguous runs, sets in arrays member by member, and everything else when equal. -/
def isSubset (whole : Term) : Term → Bool
  | .object part =>
    match whole with
    | .object fields => fieldsSubset fields part
    | _ => false
  | .set part =>
    match whole with
    | .set members => part.all (Term.containsMember · members)
    | .array items => part.all fun t => items.any (· == t)
    | _ => false
  | .array part =>
    match whole with
    | .array items => hasRun part items
    | _ => false
  | part => whole == part
def fieldsSubset (fields : List (Term × Term)) : List (Term × Term) → Bool
  | [] => true
  | (k, v) :: rest =>
    (match Term.findField? k fields with
      | some w => isSubset w v
      | none => false) && fieldsSubset fields rest
end

def objectSubset : List Term → BuiltinResult
  | [a, b] => Operand.value (.bool (isSubset a b))
  | _ => .error (.operandCount 2)

mutual
/-- Objects are united field by field; in every other case the second term wins. -/
def uniteTerms (a : Term) : Term → Term
  | .object second =>
    match a with
    | .object first => .object (uniteFields first first second)
    | _ => .object second
  | b => b
/-- Adds fields to `result`, uniting each with the field of the same key in `first`. -/
def uniteFields (first result : List (Term × Term)) : List (Term × Term) → List (Term × Term)
  | [] => result
  | (k, v) :: rest =>
    let value := match Term.findField? k first with
      | some u => uniteTerms u v
      | none => v
    uniteFields first (Term.insertField k value result) rest
end

def objectUnion : List Term → BuiltinResult
  | [a, b] => do
    let _ ← Operand.object a
    let _ ← Operand.object b
    Operand.value (uniteTerms a b)
  | _ => .error (.operandCount 2)

/-- Unites the objects of a list, counted from an index. -/
def uniteAll : Nat → Term → List Term → Except BuiltinError Term
  | _, total, [] => .ok total
  | index, total, t :: rest =>
    match t with
    | .object _ => uniteAll (index + 1) (uniteTerms total t) rest
    | _ => .error (.itemNotObject index)

def objectUnionN : List Term → BuiltinResult
  | [a] => do Operand.value (← uniteAll 0 Term.emptyObject (← Operand.array a))
  | _ => .error (.operandCount 1)

def collectionBuiltins : List Builtin :=
  [.ofPure "count" [.union [.array, .object, .set, .string]] .number count,
   .ofPure "max" [.iterable] .any maxOf,
   .ofPure "min" [.iterable] .any minOf,
   .ofPure "product" [.iterable] .number (foldNumbers 1 Number.mul),
   .ofPure "sort" [.iterable] .array sort,
   .ofPure "sum" [.iterable] .number (foldNumbers 0 Number.add),
   .ofPure "array.concat" [.array, .array] .array arrayConcat,
   .ofPure "array.reverse" [.array] .array arrayReverse,
   .ofPure "array.slice" [.array, .number, .number] .array arraySlice,
   .ofPure "and" [.set, .set] .set (onSets setIntersection),
   .ofPure "or" [.set, .set] .set (onSets setUnion),
   .ofPure "intersection" [.set] .set (onSetOfSets intersectionOf),
   .ofPure "union" [.set] .set (onSetOfSets unionOf),
   .ofPure "object.filter" [.object, .collection] .object objectFilter,
   .ofPure "object.get" [.object, .any, .any] .any objectGet,
   .ofPure "object.keys" [.object] .set objectKeys,
   .ofPure "object.remove" [.object, .collection] .object objectRemove,
   .ofPure "object.subset" [.any, .any] .boolean objectSubset,
   .ofPure "object.union" [.object, .object] .object objectUnion,
   .ofPure "object.union_n" [.array] .object objectUnionN]

end PolicyEngine.Builtin
