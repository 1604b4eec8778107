import PolicyEngine.Proofs.Hereditary
import PolicyEngine.Proofs.Answers

/-!
Plain values: scalars and collections of plain values. A ground term in which no comprehension is left is plain, so
an evaluation that starts with plain documents and lets no comprehension into its environment works with plain values
wherever it asks for ground ones.
-/
namespace PolicyEngine
namespace Term

/-- Null, a boolean, a number, a string, or a collection of such values. -/
inductive Plain : Term → Prop where
  | scalar {t : Term} : t.isScalar = true → Plain t
  | array {items : List Term} : (∀ t ∈ items, Plain t) → Plain (.array items)
  | set {members : List Term} : (∀ t ∈ members, Plain t) → Plain (.set members)
  | object {fields : List (Term × Term)} : (∀ f ∈ fields, Plain f.1) → (∀ f ∈ fields, Plain f.2) →
      Plain (.object fields)

/-- No comprehension occurs in a term. -/
inductive ComprFree : Term → Prop where
  | scalar {t : Term} : t.isScalar = true → ComprFree t
  | var {x : String} : ComprFree (.var x)
  | array {items : List Term} : (∀ t ∈ items, ComprFree t) → ComprFree (.array items)
  | set {members : List Term} : (∀ t ∈ members, ComprFree t) → ComprFree (.set members)
  | object {fields : List (Term × Term)} : (∀ f ∈ fields, ComprFree f.1) → (∀ f ∈ fields, ComprFree f.2) →
      ComprFree (.object fields)
  | ref {head : Term} {operands : List Term} : ComprFree head → (∀ t ∈ operands, ComprFree t) →
      ComprFree (.ref head operands)
  | call {operator : Term} {arguments : List Term} : ComprFree operator → (∀ t ∈ arguments, ComprFree t) →
      ComprFree (.call operator arguments)

theorem hereditary_plain : Hereditary Plain where
  scalar := .scalar
  array := ⟨fun h => by cases h with | scalar h => cases h | array h => exact h, .array⟩
  set := ⟨fun h => by cases h with | scalar h => cases h | set h => exact h, .set⟩
  object := ⟨fun h => by cases h with | scalar h => cases h | object hk hv => exact fun f hf => ⟨hk f hf, hv f hf⟩,
    fun h => .object (fun f hf => (h f hf).1) fun f hf => (h f hf).2⟩

theorem pervasive_comprFree : Pervasive ComprFree where
  scalar := .scalar
  array := ⟨fun h => by cases h with | scalar h => cases h | array h => exact h, .array⟩
  set := ⟨fun h => by cases h with | scalar h => cases h | set h => exact h, .set⟩
  object := ⟨fun h => by cases h with | scalar h => cases h | object hk hv => exact fun f hf => ⟨hk f hf, hv f hf⟩,
    fun h => .object (fun f hf => (h f hf).1) fun f hf => (h f hf).2⟩
  ref := ⟨fun h => by cases h with | scalar h => cases h | ref hh ho => exact ⟨hh, ho⟩, fun h => .ref h.1 h.2⟩
  call := ⟨fun h => by cases h with | scalar h => cases h | call hh ho => exact ⟨hh, ho⟩, fun h => .call h.1 h.2⟩

theorem Plain.isGround {t : Term} (h : t.Plain) : t.isGround = true := by
  induction h with
  | scalar h => exact hereditary_isGround.scalar h
  | array _ ih => exact hereditary_isGround.array.2 ih
  | set _ ih => exact hereditary_isGround.set.2 ih
  | object _ _ hk hv => exact hereditary_isGround.object.2 fun f hf => ⟨hk f hf, hv f hf⟩

theorem Plain.comprFree {t : Term} (h : t.Plain) : t.ComprFree := by
  induction h with
  | scalar h => exact .scalar h
  | array _ ih => exact .array ih
  | set _ ih => exact .set ih
  | object _ _ hk hv => exact .object hk hv

/-- A ground term without comprehensions is plain. -/
theorem ComprFree.plain {t : Term} (h : t.ComprFree) (hground : t.isGround = true) : t.Plain := by
  induction h with
  | scalar h => exact .scalar h
  | array _ ih => exact .array fun t ht => ih t ht (hereditary_isGround.array.1 hground t ht)
  | set _ ih => exact .set fun t ht => ih t ht (hereditary_isGround.set.1 hground t ht)
  | object _ _ hk hv =>
    have hfields := hereditary_isGround.object.1 hground
    exact .object (fun f hf => hk f hf (hfields f hf).1) fun f hf => hv f hf (hfields f hf).2
  | var | ref | call => cases hground

mutual
/-- A term that takes no evaluation has no comprehension in it. -/
theorem comprFree_of_not_needsEval : ∀ t : Term, t.needsEval = false → t.ComprFree
  | .array items, h => .array (comprFree_of_not_anyNeedsEval items h)
  | .set members, h => .set (comprFree_of_not_anyNeedsEval members h)
  | .object fields, h =>
    have hfields := comprFree_of_not_fieldsNeedEval fields h
    .object (fun f hf => (hfields f hf).1) fun f hf => (hfields f hf).2
  | .var _, _ => .var
  | .null, _ | .bool _, _ | .number _, _ | .string _, _ => .scalar rfl
theorem comprFree_of_not_anyNeedsEval : ∀ ts : List Term, anyNeedsEval ts = false → ∀ t ∈ ts, t.ComprFree
  | [], _ => List.forall_mem_nil _
  | t :: rest, h => by
    simp only [anyNeedsEval, Bool.or_eq_false_iff] at h
    exact List.forall_mem_cons.2 ⟨comprFree_of_not_needsEval t h.1, comprFree_of_not_anyNeedsEval rest h.2⟩
theorem comprFree_of_not_fieldsNeedEval :
    ∀ fs : List (Term × Term), fieldsNeedEval fs = false → ∀ f ∈ fs, f.1.ComprFree ∧ f.2.ComprFree
  | [], _ => List.forall_mem_nil _
  | (k, v) :: rest, h => by
    simp only [fieldsNeedEval, Bool.or_eq_false_iff] at h
    exact List.forall_mem_cons.2
      ⟨⟨comprFree_of_not_needsEval k h.1.1, comprFree_of_not_needsEval v h.1.2⟩,
        comprFree_of_not_fieldsNeedEval rest h.2⟩
end

end Term

/-! ## Source text -/

mutual
/-- No comprehension occurs in a pattern, which is unified with values as it is written. -/
def Term.Fit : Term → Prop
  | .array items | .set items => Term.FitAll items
  | .object fields => Term.FitFields fields
  | .ref head operands => head.Fit ∧ Term.FitAll operands
  | .call _ arguments => Term.FitAll arguments
  | .arrayCompr term body | .setCompr term body => term.Fit ∧ Expr.FitBody body
  | .objectCompr key value body => key.Fit ∧ value.Fit ∧ Expr.FitBody body
  | .null | .bool _ | .number _ | .string _ | .var _ => True
def Term.FitAll : List Term → Prop
  | [] => True
  | t :: rest => t.Fit ∧ Term.FitAll rest
def Term.FitFields : List (Term × Term) → Prop
  | [] => True
  | (k, v) :: rest => k.Fit ∧ v.Fit ∧ Term.FitFields rest
def ExprKind.Fit : ExprKind → Prop
  | .term t => t.Fit
  | .someDecl symbols =>
    Term.FitAll symbols ∧
      ∀ operator arguments, symbols = [.call operator arguments] → ∀ t ∈ arguments.dropLast, t.ComprFree
  | .every key value domain body =>
    (∀ t, key = some t → t.ComprFree) ∧ value.ComprFree ∧ domain.Fit ∧ Expr.FitBody body
def Expr.FitOverrides : List (Term × Term) → Prop
  | [] => True
  | (_, replacement) :: rest => replacement.Fit ∧ Expr.FitOverrides rest
def Expr.Fit : Expr → Prop
  | .mk kind _ overrides _ => kind.Fit ∧ Expr.FitOverrides overrides
def Expr.FitBody : List Expr → Prop
  | [] => True
  | e :: rest => e.Fit ∧ Expr.FitBody rest
end

structure Clause.Fit (c : Clause) : Prop where
  params : ∀ t ∈ c.head.params, t.ComprFree
  key : ∀ t, c.head.key = some t → t.Fit
  value : c.value.Fit
  body : Expr.FitBody c.body

structure RuleSet.Fit (rs : RuleSet) : Prop where
  rules : ∀ r ∈ rs.rules, ∀ c ∈ r.clauses, c.Fit
  default : ∀ r, rs.default = some r → ∀ c ∈ r.clauses, c.Fit

end PolicyEngine
