import PolicyEngine.Eval.Bindings

/-!
Unification: extending an environment so that two terms become equal. Arrays and the values of objects are
unified part by part; sets, and the keys of objects, are compared.
-/
namespace PolicyEngine

mutual
/-- The number of parts of a term. -/
def Term.size : Term → Nat
  | .array items => Term.sizeList items + 1
  | .object fields => Term.sizeFields fields + 1
  | .set members => Term.sizeList members + 1
  | .ref head operands => Term.size head + Term.sizeList operands + 1
  | .call operator arguments => Term.size operator + Term.sizeList arguments + 1
  | _ => 1
def Term.sizeList : List Term → Nat
  | [] => 0
  | t :: rest => Term.size t + Term.sizeList rest
def Term.sizeFields : List (Term × Term) → Nat
  | [] => 0
  | (k, v) :: rest => Term.size k + Term.size v + Term.sizeFields rest
end

namespace Bindings

/-- The number of parts of all values of a list of assignments. -/
def sizeOfAll : List (String × Option Term) → Nat
  | [] => 0
  | (_, value) :: rest => (value.map Term.size).getD 0 + sizeOfAll rest

def size (b : Bindings) : Nat := sizeOfAll b.assignments

/-- The fields of an object with the values of variables in place in the keys. -/
def plugKeys (b : Bindings) (fields : List (Term × Term)) : List (Term × Term) :=
  Term.sortFields (fields.map fun (k, v) => (b.plug k, v))

/-- Unifies terms down to a depth. -/
def unifyTo : Nat → Term → Term → Bindings → Option Bindings
  | 0, _, _, _ => none
  | n + 1, x, y, b =>
    match b.deref x, b.deref y with
    | .var l, .var r =>
      if l == r || l == wildcard || r == wildcard then some b else b.bind l (.var r)
    | .var l, y => b.bind l y
    | x, .var r => b.bind r x
    | .array l, .array r =>
      if l.length == r.length then (l.zip r).foldlM (fun b (x, y) => unifyTo n x y b) b else none
    | .object l, .object r =>
      let l := b.plugKeys l
      let r := b.plugKeys r
      if l.length == r.length && (l.zip r).all (fun (x, y) => x.1 == y.1) then
        (l.zip r).foldlM (fun b (x, y) => unifyTo n x.2 y.2 b) b
      else none
    | .set l, .set r => if b.plug (.set l) == b.plug (.set r) then some b else none
    | x, y => if x == y then some b else none

/-- Extends an environment so that two terms are equal. Every part on the way down belongs to one of the
terms or to an assigned value, and none is met twice, so their number bounds the depth. -/
def unify (x y : Term) (b : Bindings) : Option Bindings := unifyTo (x.size + y.size + b.size) x y b

/-- Binds the pattern of a quantifier or a generator. A plain variable is fresh there. -/
def bindLocal (pattern value : Term) (b : Bindings) : Option Bindings :=
  match pattern with
  | .var name => some (b.shadow name value)
  | pattern => b.unify pattern value

end Bindings

/-- The keys of a collection with the values under them: positions of an array, fields of an object, and
members of a set, which are their own keys. Other terms have none. -/
def Term.entries : Term → List (Term × Term)
  | .array items => items.zipIdx.map fun (item, position) => (Term.ofNat position, item)
  | .object fields => fields
  | .set members => members.map fun m => (m, m)
  | _ => []

end PolicyEngine
