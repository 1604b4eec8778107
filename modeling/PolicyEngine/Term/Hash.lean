import PolicyEngine.Term.Basic

/-!
What a term feeds to a hash function, part by part. Numbers contribute their value and not their
representation, so terms that are equal in the order of the language feed the same sequence.
-/
namespace PolicyEngine

/-- One contribution to a hash: the kind of a part, a length, or a leaf. A flag also tells whether an optional key is
there; of the comprehensions only those of objects have one. -/
inductive HashPart where
  | kind (rank : Nat)
  | length (n : Nat)
  | flag (b : Bool)
  | number (key : Number.HashKey)
  | text (s : String)
  deriving DecidableEq, Repr

mutual
def Term.hashParts : Term → List HashPart
  | .null => [.kind 0]
  | .bool b => [.kind 1, .flag b]
  | .number n => [.kind 2, .number n.hashKey]
  | .string s => [.kind 3, .text s]
  | .array items => .kind 4 :: .length items.length :: Term.listHashParts items
  | .object fields => .kind 5 :: .length fields.length :: Term.fieldsHashParts fields
  | .set members => .kind 6 :: .length members.length :: Term.listHashParts members
  | .var name => [.kind 7, .text name]
  | .ref head operands => .kind 8 :: .length (operands.length + 1) :: (head.hashParts ++ Term.listHashParts operands)
  | .call operator arguments =>
    .kind 9 :: .length (arguments.length + 1) :: (operator.hashParts ++ Term.listHashParts arguments)
  | .arrayCompr term body =>
    .kind 10 :: .flag false :: (term.hashParts ++ .length body.length :: Expr.listHashParts body)
  | .setCompr term body => .kind 11 :: .flag false :: (term.hashParts ++ .length body.length :: Expr.listHashParts body)
  | .objectCompr key value body =>
    .kind 12 :: .flag true :: (key.hashParts ++ value.hashParts ++ .length body.length :: Expr.listHashParts body)
def Term.listHashParts : List Term → List HashPart
  | [] => []
  | t :: rest => t.hashParts ++ Term.listHashParts rest
def Term.fieldsHashParts : List (Term × Term) → List HashPart
  | [] => []
  | (k, v) :: rest => k.hashParts ++ v.hashParts ++ Term.fieldsHashParts rest
def Expr.listHashParts : List Expr → List HashPart
  | [] => []
  | e :: rest => e.hashParts ++ Expr.listHashParts rest
def Expr.hashParts : Expr → List HashPart
  | .mk kind negated overrides index =>
    kind.hashParts ++ .flag negated :: .length overrides.length :: (Term.fieldsHashParts overrides ++ [.length index])
def ExprKind.hashParts : ExprKind → List HashPart
  | .term t => .kind 0 :: t.hashParts
  | .someDecl symbols => .kind 1 :: .length symbols.length :: Term.listHashParts symbols
  | .every none value domain body =>
    .kind 2 :: .flag false :: (value.hashParts ++ domain.hashParts ++ .length body.length :: Expr.listHashParts body)
  | .every (some key) value domain body =>
    .kind 2 :: .flag true ::
      (key.hashParts ++ value.hashParts ++ domain.hashParts ++ .length body.length :: Expr.listHashParts body)
end

end PolicyEngine
