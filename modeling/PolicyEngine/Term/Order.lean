import PolicyEngine.Term.Basic

/-!
The order of the language: kinds rank as they are declared, and terms of one kind compare part by part.
Equality of terms is equality in this order, so numbers are equal when their values are. The sorted lists
behind objects and sets are built with it.
-/
namespace PolicyEngine

def Term.rank : Term → Nat
  | .null => 0
  | .bool _ => 1
  | .number _ => 2
  | .string _ => 3
  | .array _ => 4
  | .object _ => 5
  | .set _ => 6
  | .var _ => 7
  | .ref _ _ => 8
  | .call _ _ => 9
  | .arrayCompr _ _ => 10
  | .setCompr _ _ => 11
  | .objectCompr _ _ _ => 12

def ExprKind.rank : ExprKind → Nat
  | .term _ => 0
  | .someDecl _ => 1
  | .every _ _ _ _ => 2

mutual
def Term.cmp : Term → Term → Ordering
  | .null, .null => .eq
  | .bool a, .bool b => compare a b
  | .number a, .number b => a.cmp b
  | .string a, .string b => compare a b
  | .array a, .array b => Term.cmpList a b
  | .object a, .object b => Term.cmpFields a b
  | .set a, .set b => Term.cmpList a b
  | .var a, .var b => compare a b
  | .ref h a, .ref h' b => (Term.cmp h h').then (Term.cmpList a b)
  | .call o a, .call o' b => (Term.cmp o o').then (Term.cmpList a b)
  | .arrayCompr t e, .arrayCompr t' e' => (Term.cmp t t').then (Expr.cmpBody e e')
  | .setCompr t e, .setCompr t' e' => (Term.cmp t t').then (Expr.cmpBody e e')
  | .objectCompr k t e, .objectCompr k' t' e' =>
    ((Term.cmp k k').then (Term.cmp t t')).then (Expr.cmpBody e e')
  | a, b => compare a.rank b.rank
def Term.cmpList : List Term → List Term → Ordering
  | [], [] => .eq
  | [], _ :: _ => .lt
  | _ :: _, [] => .gt
  | a :: as, b :: bs => (Term.cmp a b).then (Term.cmpList as bs)
def Term.cmpFields : List (Term × Term) → List (Term × Term) → Ordering
  | [], [] => .eq
  | [], _ :: _ => .lt
  | _ :: _, [] => .gt
  | (k, v) :: as, (k', v') :: bs => ((Term.cmp k k').then (Term.cmp v v')).then (Term.cmpFields as bs)
def Term.cmpOption : Option Term → Option Term → Ordering
  | none, none => .eq
  | none, some _ => .lt
  | some _, none => .gt
  | some a, some b => Term.cmp a b
def Expr.cmpBody : List Expr → List Expr → Ordering
  | [], [] => .eq
  | [], _ :: _ => .lt
  | _ :: _, [] => .gt
  | a :: as, b :: bs => (Expr.cmp a b).then (Expr.cmpBody as bs)
def Expr.cmp : Expr → Expr → Ordering
  | .mk k n o i, .mk k' n' o' i' =>
    (((ExprKind.cmp k k').then (compare n n')).then (Term.cmpFields o o')).then (compare i i')
def ExprKind.cmp : ExprKind → ExprKind → Ordering
  | .term a, .term b => Term.cmp a b
  | .someDecl a, .someDecl b => Term.cmpList a b
  | .every k v d e, .every k' v' d' e' =>
    (((Term.cmpOption k k').then (Term.cmp v v')).then (Term.cmp d d')).then (Expr.cmpBody e e')
  | a, b => compare a.rank b.rank
end

instance : Ord Term := ⟨Term.cmp⟩

/-- Equality of the language. -/
instance : BEq Term := ⟨fun a b => (a.cmp b).isEq⟩

namespace Term

/-! ## Sets -/

/-- Adds a member; a member equal to it that is already there stays. -/
def insertMember (t : Term) : List Term → List Term
  | [] => [t]
  | m :: rest =>
    match t.cmp m with
    | .lt => t :: m :: rest
    | .eq => m :: rest
    | .gt => m :: insertMember t rest

/-- The members of a list in order. Of equal ones the last is kept. -/
def sortMembers (items : List Term) : List Term := items.foldr insertMember []

/-- The set of the members of a list. -/
def setOf (items : List Term) : Term := .set (sortMembers items)

/-- The member equal to a term. -/
def findMember? (t : Term) : List Term → Option Term
  | [] => none
  | m :: rest =>
    match t.cmp m with
    | .lt => none
    | .eq => some m
    | .gt => findMember? t rest

def containsMember (t : Term) (members : List Term) : Bool := (findMember? t members).isSome

/-! ## Objects -/

/-- Sets a field; the key of a field that is already there stays, its value is replaced. -/
def insertField (key value : Term) : List (Term × Term) → List (Term × Term)
  | [] => [(key, value)]
  | (k, v) :: rest =>
    match key.cmp k with
    | .lt => (key, value) :: (k, v) :: rest
    | .eq => (k, value) :: rest
    | .gt => (k, v) :: insertField key value rest

/-- Adds a field unless its key is already there. -/
def addField (key value : Term) : List (Term × Term) → List (Term × Term)
  | [] => [(key, value)]
  | (k, v) :: rest =>
    match key.cmp k with
    | .lt => (key, value) :: (k, v) :: rest
    | .eq => (k, v) :: rest
    | .gt => (k, v) :: addField key value rest

/-- The fields of a list in order of their keys. Of fields with equal keys the last is kept. -/
def sortFields (fields : List (Term × Term)) : List (Term × Term) :=
  fields.foldr (fun (k, v) fs => addField k v fs) []

/-- The object with the fields of a list. -/
def objectOf (fields : List (Term × Term)) : Term := .object (sortFields fields)

/-- The value of the field whose key equals a term. -/
def findField? (key : Term) : List (Term × Term) → Option Term
  | [] => none
  | (k, v) :: rest =>
    match key.cmp k with
    | .lt => none
    | .eq => some v
    | .gt => findField? key rest

end Term
end PolicyEngine
