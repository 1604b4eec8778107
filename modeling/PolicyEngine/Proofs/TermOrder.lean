import Mathlib.Order.Compare
import Mathlib.Data.Rat.Cast.Order
import PolicyEngine.Term.Order

/-!
The order and the equality of the language. Terms that compare as equal compare alike with every third term, so
equality of terms is an equivalence relation, and what is less than a term is less than all that the term is less than.
-/
namespace PolicyEngine

/-! ## Numbers -/

namespace Number

theorem cmp_exact (a b : Number) : a.cmp b = a.exact.cmp b.exact := by
  have hint : ∀ x y : Int, compare x y = Exact.cmp (.finite x) (.finite y) := by
    intro x y
    change compareOfLessAndEq x y = compareOfLessAndEq (x : Rat) (y : Rat)
    simp only [compareOfLessAndEq, Int.cast_lt, Int.cast_inj]
  cases a <;> cases b <;> first | exact hint _ _ | rfl

theorem Exact.cmp_eq_iff {a b : Exact} : a.cmp b = .eq ↔ a = b := by
  cases a <;> cases b <;> simp [Exact.cmp, Exact.rank, compareOfLessAndEq_eq_eq]

theorem cmp_eq_iff {a b : Number} : a.cmp b = .eq ↔ a.exact = b.exact := by
  rw [cmp_exact, Exact.cmp_eq_iff]

theorem Exact.cmp_swap (a b : Exact) : b.cmp a = (a.cmp b).swap := by
  have hrank : ∀ m n : Nat, compare n m = (compare m n).swap := fun m n => Std.OrientedOrd.eq_swap
  cases a with
  | finite x =>
    cases b with
    | finite y =>
      simp only [Exact.cmp, compareOfLessAndEq]
      rcases lt_trichotomy x y with h | h | h
      · simp [h, h.not_gt, h.ne']
      · simp [h]
      · simp [h, h.not_gt, h.ne']
    | _ => exact hrank _ _
  | _ => cases b <;> exact hrank _ _

theorem cmp_swap (a b : Number) : b.cmp a = (a.cmp b).swap := by
  rw [cmp_exact, cmp_exact, Exact.cmp_swap]

end Number

/-! ## Terms -/

theorem compare_swap {α : Type} [Ord α] [Std.OrientedOrd α] (a b : α) : compare b a = (compare a b).swap :=
  Std.OrientedOrd.eq_swap

theorem then_congr {o₁ o₂ p₁ p₂ : Ordering} (h₁ : o₁ = p₁) (h₂ : o₂ = p₂) : o₁.then o₂ = p₁.then p₂ := by
  rw [h₁, h₂]

namespace Term

theorem cmp_of_rank_ne {a b : Term} (h : a.rank ≠ b.rank) : a.cmp b = compare a.rank b.rank := by
  cases a <;> cases b <;> first | exact absurd rfl h | simp only [Term.cmp]

theorem rank_eq_of_cmp {a b : Term} (h : a.cmp b = .eq) : a.rank = b.rank := by
  by_contra hne
  rw [cmp_of_rank_ne hne] at h
  exact hne (Std.LawfulEqOrd.eq_of_compare h)

theorem cmp_swap_of_rank_ne {a b : Term} (h : a.rank ≠ b.rank) : b.cmp a = (a.cmp b).swap := by
  rw [cmp_of_rank_ne h, cmp_of_rank_ne h.symm, compare_swap]

/-- Terms of one kind stand alike to terms of another. -/
theorem cmp_congr_of_rank_ne {a b c : Term} (h : a.cmp b = .eq) (hc : a.rank ≠ c.rank) : a.cmp c = b.cmp c := by
  rw [cmp_of_rank_ne hc, cmp_of_rank_ne (rank_eq_of_cmp h ▸ hc), rank_eq_of_cmp h]

end Term

namespace ExprKind

theorem cmp_of_rank_ne {a b : ExprKind} (h : a.rank ≠ b.rank) : a.cmp b = compare a.rank b.rank := by
  cases a <;> cases b <;> first | exact absurd rfl h | simp only [ExprKind.cmp]

theorem rank_eq_of_cmp {a b : ExprKind} (h : a.cmp b = .eq) : a.rank = b.rank := by
  by_contra hne
  rw [cmp_of_rank_ne hne] at h
  exact hne (Std.LawfulEqOrd.eq_of_compare h)

theorem cmp_swap_of_rank_ne {a b : ExprKind} (h : a.rank ≠ b.rank) : b.cmp a = (a.cmp b).swap := by
  rw [cmp_of_rank_ne h, cmp_of_rank_ne h.symm, compare_swap]

theorem cmp_congr_of_rank_ne {a b c : ExprKind} (h : a.cmp b = .eq) (hc : a.rank ≠ c.rank) : a.cmp c = b.cmp c := by
  rw [cmp_of_rank_ne hc, cmp_of_rank_ne (rank_eq_of_cmp h ▸ hc), rank_eq_of_cmp h]

end ExprKind

/-! ### Exchanging the sides -/

mutual
theorem Term.cmp_swap : ∀ a b : Term, b.cmp a = (a.cmp b).swap
  | .null, b => by
    cases b with
    | null => simp [Term.cmp]
    | _ => exact Term.cmp_swap_of_rank_ne nofun
  | .bool x, b => by
    cases b with
    | bool _ =>
      simp only [Term.cmp]
      exact compare_swap x _
    | _ => exact Term.cmp_swap_of_rank_ne nofun
  | .number x, b => by
    cases b with
    | number _ =>
      simp only [Term.cmp]
      exact Number.cmp_swap x _
    | _ => exact Term.cmp_swap_of_rank_ne nofun
  | .string x, b => by
    cases b with
    | string _ =>
      simp only [Term.cmp]
      exact compare_swap x _
    | _ => exact Term.cmp_swap_of_rank_ne nofun
  | .array xs, b => by
    cases b with
    | array _ =>
      simp only [Term.cmp]
      exact Term.cmpList_swap xs _
    | _ => exact Term.cmp_swap_of_rank_ne nofun
  | .object fs, b => by
    cases b with
    | object _ =>
      simp only [Term.cmp]
      exact Term.cmpFields_swap fs _
    | _ => exact Term.cmp_swap_of_rank_ne nofun
  | .set xs, b => by
    cases b with
    | set _ =>
      simp only [Term.cmp]
      exact Term.cmpList_swap xs _
    | _ => exact Term.cmp_swap_of_rank_ne nofun
  | .var x, b => by
    cases b with
    | var _ =>
      simp only [Term.cmp]
      exact compare_swap x _
    | _ => exact Term.cmp_swap_of_rank_ne nofun
  | .ref u xs, b => by
    cases b with
    | ref _ _ =>
      simp only [Term.cmp]
      rw [Ordering.swap_then, Term.cmp_swap u, Term.cmpList_swap xs]
    | _ => exact Term.cmp_swap_of_rank_ne nofun
  | .call u xs, b => by
    cases b with
    | call _ _ =>
      simp only [Term.cmp]
      rw [Ordering.swap_then, Term.cmp_swap u, Term.cmpList_swap xs]
    | _ => exact Term.cmp_swap_of_rank_ne nofun
  | .arrayCompr t e, b => by
    cases b with
    | arrayCompr _ _ =>
      simp only [Term.cmp]
      rw [Ordering.swap_then, Term.cmp_swap t, Expr.cmpBody_swap e]
    | _ => exact Term.cmp_swap_of_rank_ne nofun
  | .setCompr t e, b => by
    cases b with
    | setCompr _ _ =>
      simp only [Term.cmp]
      rw [Ordering.swap_then, Term.cmp_swap t, Expr.cmpBody_swap e]
    | _ => exact Term.cmp_swap_of_rank_ne nofun
  | .objectCompr k t e, b => by
    cases b with
    | objectCompr _ _ _ =>
      simp only [Term.cmp]
      rw [Ordering.swap_then, Ordering.swap_then, Term.cmp_swap k, Term.cmp_swap t, Expr.cmpBody_swap e]
    | _ => exact Term.cmp_swap_of_rank_ne nofun
termination_by a => sizeOf a
theorem Term.cmpList_swap : ∀ a b : List Term, Term.cmpList b a = (Term.cmpList a b).swap
  | [], [] | [], _ :: _ | _ :: _, [] => by simp [Term.cmpList]
  | x :: xs, _ :: _ => by
    simp only [Term.cmpList]
    rw [Ordering.swap_then, Term.cmp_swap x, Term.cmpList_swap xs]
termination_by a => sizeOf a
theorem Term.cmpFields_swap : ∀ a b : List (Term × Term), Term.cmpFields b a = (Term.cmpFields a b).swap
  | [], [] | [], _ :: _ | _ :: _, [] => by simp [Term.cmpFields]
  | (k, v) :: fs, (_, _) :: _ => by
    simp only [Term.cmpFields]
    rw [Ordering.swap_then, Ordering.swap_then, Term.cmp_swap k, Term.cmp_swap v, Term.cmpFields_swap fs]
termination_by a => sizeOf a
theorem Term.cmpOption_swap : ∀ a b : Option Term, Term.cmpOption b a = (Term.cmpOption a b).swap
  | none, none | none, some _ | some _, none => by simp [Term.cmpOption]
  | some a, some b => by
    simp only [Term.cmpOption]
    exact Term.cmp_swap a b
termination_by a => sizeOf a
theorem Expr.cmpBody_swap : ∀ a b : List Expr, Expr.cmpBody b a = (Expr.cmpBody a b).swap
  | [], [] | [], _ :: _ | _ :: _, [] => by simp [Expr.cmpBody]
  | x :: xs, _ :: _ => by
    simp only [Expr.cmpBody]
    rw [Ordering.swap_then, Expr.cmp_swap x, Expr.cmpBody_swap xs]
termination_by a => sizeOf a
theorem Expr.cmp_swap : ∀ a b : Expr, b.cmp a = (a.cmp b).swap
  | .mk k n o i, .mk _ n' _ i' => by
    simp only [Expr.cmp]
    rw [Ordering.swap_then, Ordering.swap_then, Ordering.swap_then, ExprKind.cmp_swap k, Term.cmpFields_swap o,
      compare_swap n n', compare_swap i i']
termination_by a => sizeOf a
theorem ExprKind.cmp_swap : ∀ a b : ExprKind, b.cmp a = (a.cmp b).swap
  | .term t, b => by
    cases b with
    | term _ =>
      simp only [ExprKind.cmp]
      exact Term.cmp_swap t _
    | _ => exact ExprKind.cmp_swap_of_rank_ne nofun
  | .someDecl ts, b => by
    cases b with
    | someDecl _ =>
      simp only [ExprKind.cmp]
      exact Term.cmpList_swap ts _
    | _ => exact ExprKind.cmp_swap_of_rank_ne nofun
  | .every k v d e, b => by
    cases b with
    | every _ _ _ _ =>
      simp only [ExprKind.cmp]
      rw [Ordering.swap_then, Ordering.swap_then, Ordering.swap_then, Term.cmpOption_swap k, Term.cmp_swap v,
        Term.cmp_swap d, Expr.cmpBody_swap e]
    | _ => exact ExprKind.cmp_swap_of_rank_ne nofun
termination_by a => sizeOf a
end

/-! ### Exchanging equals -/

mutual
/-- Equal terms stand alike to every third term. -/
theorem Term.cmp_congr : ∀ a b c : Term, a.cmp b = .eq → a.cmp c = b.cmp c
  | .null, b, c, h => by
    cases b with
    | null =>
      cases c with
      | null => rfl
      | _ => exact Term.cmp_congr_of_rank_ne h nofun
    | _ => exact absurd (Term.rank_eq_of_cmp h) nofun
  | .bool x, b, c, h => by
    cases b with
    | bool _ =>
      cases c with
      | bool _ =>
        simp only [Term.cmp] at h ⊢
        rw [Std.LawfulEqOrd.eq_of_compare h]
      | _ => exact Term.cmp_congr_of_rank_ne h nofun
    | _ => exact absurd (Term.rank_eq_of_cmp h) nofun
  | .number x, b, c, h => by
    cases b with
    | number _ =>
      cases c with
      | number _ =>
        simp only [Term.cmp] at h ⊢
        rw [Number.cmp_exact, Number.cmp_exact, Number.cmp_eq_iff.1 h]
      | _ => exact Term.cmp_congr_of_rank_ne h nofun
    | _ => exact absurd (Term.rank_eq_of_cmp h) nofun
  | .string x, b, c, h => by
    cases b with
    | string _ =>
      cases c with
      | string _ =>
        simp only [Term.cmp] at h ⊢
        rw [Std.LawfulEqOrd.eq_of_compare h]
      | _ => exact Term.cmp_congr_of_rank_ne h nofun
    | _ => exact absurd (Term.rank_eq_of_cmp h) nofun
  | .array xs, b, c, h => by
    cases b with
    | array _ =>
      cases c with
      | array _ =>
        simp only [Term.cmp] at h ⊢
        exact Term.cmpList_congr xs _ _ h
      | _ => exact Term.cmp_congr_of_rank_ne h nofun
    | _ => exact absurd (Term.rank_eq_of_cmp h) nofun
  | .object fs, b, c, h => by
    cases b with
    | object _ =>
      cases c with
      | object _ =>
        simp only [Term.cmp] at h ⊢
        exact Term.cmpFields_congr fs _ _ h
      | _ => exact Term.cmp_congr_of_rank_ne h nofun
    | _ => exact absurd (Term.rank_eq_of_cmp h) nofun
  | .set xs, b, c, h => by
    cases b with
    | set _ =>
      cases c with
      | set _ =>
        simp only [Term.cmp] at h ⊢
        exact Term.cmpList_congr xs _ _ h
      | _ => exact Term.cmp_congr_of_rank_ne h nofun
    | _ => exact absurd (Term.rank_eq_of_cmp h) nofun
  | .var x, b, c, h => by
    cases b with
    | var _ =>
      cases c with
      | var _ =>
        simp only [Term.cmp] at h ⊢
        rw [Std.LawfulEqOrd.eq_of_compare h]
      | _ => exact Term.cmp_congr_of_rank_ne h nofun
    | _ => exact absurd (Term.rank_eq_of_cmp h) nofun
  | .ref u xs, b, c, h => by
    cases b with
    | ref _ _ =>
      cases c with
      | ref _ _ =>
        simp only [Term.cmp, Ordering.then_eq_eq] at h ⊢
        exact then_congr (Term.cmp_congr u _ _ h.1) (Term.cmpList_congr xs _ _ h.2)
      | _ => exact Term.cmp_congr_of_rank_ne h nofun
    | _ => exact absurd (Term.rank_eq_of_cmp h) nofun
  | .call u xs, b, c, h => by
    cases b with
    | call _ _ =>
      cases c with
      | call _ _ =>
        simp only [Term.cmp, Ordering.then_eq_eq] at h ⊢
        exact then_congr (Term.cmp_congr u _ _ h.1) (Term.cmpList_congr xs _ _ h.2)
      | _ => exact Term.cmp_congr_of_rank_ne h nofun
    | _ => exact absurd (Term.rank_eq_of_cmp h) nofun
  | .arrayCompr t e, b, c, h => by
    cases b with
    | arrayCompr _ _ =>
      cases c with
      | arrayCompr _ _ =>
        simp only [Term.cmp, Ordering.then_eq_eq] at h ⊢
        exact then_congr (Term.cmp_congr t _ _ h.1) (Expr.cmpBody_congr e _ _ h.2)
      | _ => exact Term.cmp_congr_of_rank_ne h nofun
    | _ => exact absurd (Term.rank_eq_of_cmp h) nofun
  | .setCompr t e, b, c, h => by
    cases b with
    | setCompr _ _ =>
      cases c with
      | setCompr _ _ =>
        simp only [Term.cmp, Ordering.then_eq_eq] at h ⊢
        exact then_congr (Term.cmp_congr t _ _ h.1) (Expr.cmpBody_congr e _ _ h.2)
      | _ => exact Term.cmp_congr_of_rank_ne h nofun
    | _ => exact absurd (Term.rank_eq_of_cmp h) nofun
  | .objectCompr k t e, b, c, h => by
    cases b with
    | objectCompr _ _ _ =>
      cases c with
      | objectCompr _ _ _ =>
        simp only [Term.cmp, Ordering.then_eq_eq] at h ⊢
        exact then_congr (then_congr (Term.cmp_congr k _ _ h.1.1) (Term.cmp_congr t _ _ h.1.2))
          (Expr.cmpBody_congr e _ _ h.2)
      | _ => exact Term.cmp_congr_of_rank_ne h nofun
    | _ => exact absurd (Term.rank_eq_of_cmp h) nofun
termination_by a => sizeOf a
theorem Term.cmpList_congr : ∀ a b c : List Term, Term.cmpList a b = .eq → Term.cmpList a c = Term.cmpList b c
  | [], [], _, _ => rfl
  | [], _ :: _, _, h | _ :: _, [], _, h => by simp [Term.cmpList] at h
  | _ :: _, _ :: _, [], _ => by simp only [Term.cmpList]
  | x :: xs, _ :: _, _ :: _, h => by
    simp only [Term.cmpList, Ordering.then_eq_eq] at h ⊢
    exact then_congr (Term.cmp_congr x _ _ h.1) (Term.cmpList_congr xs _ _ h.2)
termination_by a => sizeOf a
theorem Term.cmpFields_congr :
    ∀ a b c : List (Term × Term), Term.cmpFields a b = .eq → Term.cmpFields a c = Term.cmpFields b c
  | [], [], _, _ => rfl
  | [], _ :: _, _, h | _ :: _, [], _, h => by simp [Term.cmpFields] at h
  | _ :: _, _ :: _, [], _ => by simp only [Term.cmpFields]
  | (k, v) :: fs, (_, _) :: _, (_, _) :: _, h => by
    simp only [Term.cmpFields, Ordering.then_eq_eq] at h ⊢
    exact then_congr (then_congr (Term.cmp_congr k _ _ h.1.1) (Term.cmp_congr v _ _ h.1.2))
      (Term.cmpFields_congr fs _ _ h.2)
termination_by a => sizeOf a
theorem Term.cmpOption_congr :
    ∀ a b c : Option Term, Term.cmpOption a b = .eq → Term.cmpOption a c = Term.cmpOption b c
  | none, none, _, _ => rfl
  | none, some _, _, h | some _, none, _, h => by simp [Term.cmpOption] at h
  | some _, some _, none, _ => by simp only [Term.cmpOption]
  | some a, some _, some _, h => by
    simp only [Term.cmpOption] at h ⊢
    exact Term.cmp_congr a _ _ h
termination_by a => sizeOf a
theorem Expr.cmpBody_congr : ∀ a b c : List Expr, Expr.cmpBody a b = .eq → Expr.cmpBody a c = Expr.cmpBody b c
  | [], [], _, _ => rfl
  | [], _ :: _, _, h | _ :: _, [], _, h => by simp [Expr.cmpBody] at h
  | _ :: _, _ :: _, [], _ => by simp only [Expr.cmpBody]
  | x :: xs, _ :: _, _ :: _, h => by
    simp only [Expr.cmpBody, Ordering.then_eq_eq] at h ⊢
    exact then_congr (Expr.cmp_congr x _ _ h.1) (Expr.cmpBody_congr xs _ _ h.2)
termination_by a => sizeOf a
theorem Expr.cmp_congr : ∀ a b c : Expr, a.cmp b = .eq → a.cmp c = b.cmp c
  | .mk k _ o _, .mk _ _ _ _, .mk _ _ _ _, h => by
    simp only [Expr.cmp, Ordering.then_eq_eq] at h ⊢
    obtain ⟨⟨⟨hk, hn⟩, ho⟩, hi⟩ := h
    rw [Std.LawfulEqOrd.eq_of_compare hn, Std.LawfulEqOrd.eq_of_compare hi, ExprKind.cmp_congr k _ _ hk,
      Term.cmpFields_congr o _ _ ho]
termination_by a => sizeOf a
theorem ExprKind.cmp_congr : ∀ a b c : ExprKind, a.cmp b = .eq → a.cmp c = b.cmp c
  | .term t, b, c, h => by
    cases b with
    | term _ =>
      cases c with
      | term _ =>
        simp only [ExprKind.cmp] at h ⊢
        exact Term.cmp_congr t _ _ h
      | _ => exact ExprKind.cmp_congr_of_rank_ne h nofun
    | _ => exact absurd (ExprKind.rank_eq_of_cmp h) nofun
  | .someDecl ts, b, c, h => by
    cases b with
    | someDecl _ =>
      cases c with
      | someDecl _ =>
        simp only [ExprKind.cmp] at h ⊢
        exact Term.cmpList_congr ts _ _ h
      | _ => exact ExprKind.cmp_congr_of_rank_ne h nofun
    | _ => exact absurd (ExprKind.rank_eq_of_cmp h) nofun
  | .every k v d e, b, c, h => by
    cases b with
    | every _ _ _ _ =>
      cases c with
      | every _ _ _ _ =>
        simp only [ExprKind.cmp, Ordering.then_eq_eq] at h ⊢
        obtain ⟨⟨⟨hk, hv⟩, hd⟩, he⟩ := h
        rw [Term.cmpOption_congr k _ _ hk, Term.cmp_congr v _ _ hv, Term.cmp_congr d _ _ hd,
          Expr.cmpBody_congr e _ _ he]
      | _ => exact ExprKind.cmp_congr_of_rank_ne h nofun
    | _ => exact absurd (ExprKind.rank_eq_of_cmp h) nofun
termination_by a => sizeOf a
end

/-! ### Transitivity -/

theorem Number.Exact.cmp_trans {a b c : Number.Exact} (h : a.cmp b = .lt) (h' : b.cmp c = .lt) : a.cmp c = .lt := by
  have hrank : ∀ {m n : Nat}, compare m n = .lt ↔ m < n := Nat.compare_eq_lt
  cases a <;> cases b <;> cases c <;>
    simp only [Exact.cmp, Exact.rank, hrank, compareOfLessAndEq_eq_lt] at h h' ⊢ <;>
    first | omega | exact lt_trans h h'

theorem Number.cmp_trans {a b c : Number} (h : a.cmp b = .lt) (h' : b.cmp c = .lt) : a.cmp c = .lt := by
  rw [cmp_exact] at h h' ⊢
  exact Exact.cmp_trans h h'

/-- The order of pairs is transitive when equal parts can be exchanged. -/
theorem then_trans {o₁ o₂ o₃ p₁ p₂ p₃ : Ordering} (ho : o₁ = .lt → o₂ = .lt → o₃ = .lt) (hl : o₁ = .eq → o₃ = o₂)
    (hr : o₂ = .eq → o₃ = o₁) (hp : p₁ = .lt → p₂ = .lt → p₃ = .lt) (h : o₁.then p₁ = .lt) (h' : o₂.then p₂ = .lt) :
    o₃.then p₃ = .lt := by
  cases o₁ with
  | gt => cases h
  | eq =>
    rw [hl rfl]
    cases o₂ with
    | gt => cases h'
    | eq => exact hp h h'
    | lt => rfl
  | lt =>
    cases o₂ with
    | gt => cases h'
    | eq => rw [hr rfl]; rfl
    | lt => rw [ho rfl rfl]; rfl

namespace Term

theorem cmp_congr_right {a b c : Term} (h : b.cmp c = .eq) : a.cmp c = a.cmp b := by
  rw [cmp_swap c a, cmp_swap b a, cmp_congr b c a h]

theorem rank_le_of_cmp {a b : Term} (h : a.cmp b = .lt) : a.rank ≤ b.rank := by
  by_cases hne : a.rank = b.rank
  · exact Nat.le_of_eq hne
  · rw [cmp_of_rank_ne hne, Nat.compare_eq_lt] at h
    exact Nat.le_of_lt h

theorem cmp_trans_of_rank_ne {a b c : Term} (h : a.cmp b = .lt) (h' : b.cmp c = .lt) (hne : a.rank ≠ c.rank) :
    a.cmp c = .lt := by
  have hle := Nat.le_trans (rank_le_of_cmp h) (rank_le_of_cmp h')
  rw [cmp_of_rank_ne hne, Nat.compare_eq_lt]
  omega

/-- A term between two of the same kind is of that kind. -/
theorem rank_between {p : Prop} {a b c : Term} (h : a.cmp b = .lt) (h' : b.cmp c = .lt) (heq : a.rank = c.rank)
    (hne : a.rank ≠ b.rank) : p := by
  have hle := rank_le_of_cmp h
  have hle' := rank_le_of_cmp h'
  omega

end Term

namespace ExprKind

theorem rank_le_of_cmp {a b : ExprKind} (h : a.cmp b = .lt) : a.rank ≤ b.rank := by
  by_cases hne : a.rank = b.rank
  · exact Nat.le_of_eq hne
  · rw [cmp_of_rank_ne hne, Nat.compare_eq_lt] at h
    exact Nat.le_of_lt h

theorem cmp_trans_of_rank_ne {a b c : ExprKind} (h : a.cmp b = .lt) (h' : b.cmp c = .lt) (hne : a.rank ≠ c.rank) :
    a.cmp c = .lt := by
  have hle := Nat.le_trans (rank_le_of_cmp h) (rank_le_of_cmp h')
  rw [cmp_of_rank_ne hne, Nat.compare_eq_lt]
  omega

theorem rank_between {p : Prop} {a b c : ExprKind} (h : a.cmp b = .lt) (h' : b.cmp c = .lt) (heq : a.rank = c.rank)
    (hne : a.rank ≠ b.rank) : p := by
  have hle := rank_le_of_cmp h
  have hle' := rank_le_of_cmp h'
  omega

end ExprKind

theorem Term.cmpFields_congr_right {a b c : List (Term × Term)} (h : Term.cmpFields b c = .eq) :
    Term.cmpFields a c = Term.cmpFields a b := by
  rw [Term.cmpFields_swap c a, Term.cmpFields_swap b a, Term.cmpFields_congr b c a h]

theorem Term.cmpOption_congr_right {a b c : Option Term} (h : Term.cmpOption b c = .eq) :
    Term.cmpOption a c = Term.cmpOption a b := by
  rw [Term.cmpOption_swap c a, Term.cmpOption_swap b a, Term.cmpOption_congr b c a h]

theorem Expr.cmp_congr_right {a b c : Expr} (h : b.cmp c = .eq) : a.cmp c = a.cmp b := by
  rw [Expr.cmp_swap c a, Expr.cmp_swap b a, Expr.cmp_congr b c a h]

theorem ExprKind.cmp_congr_right {a b c : ExprKind} (h : b.cmp c = .eq) : a.cmp c = a.cmp b := by
  rw [ExprKind.cmp_swap c a, ExprKind.cmp_swap b a, ExprKind.cmp_congr b c a h]

/-- The order of pairs of terms. -/
theorem Term.cmp_then_trans {a b c : Term} {p₁ p₂ p₃ : Ordering}
    (ha : a.cmp b = .lt → b.cmp c = .lt → a.cmp c = .lt) (hp : p₁ = .lt → p₂ = .lt → p₃ = .lt)
    (h : (a.cmp b).then p₁ = .lt) (h' : (b.cmp c).then p₂ = .lt) : (a.cmp c).then p₃ = .lt :=
  then_trans ha (Term.cmp_congr a b c) Term.cmp_congr_right hp h h'

mutual
theorem Term.cmp_trans : ∀ a b c : Term, a.cmp b = .lt → b.cmp c = .lt → a.cmp c = .lt
  | .null, b, c, h, h' => by
    cases c with
    | null =>
      cases b with
      | null => simp [Term.cmp] at h
      | _ => exact Term.rank_between h h' rfl nofun
    | _ => exact Term.cmp_trans_of_rank_ne h h' nofun
  | .bool x, b, c, h, h' => by
    cases c with
    | bool _ =>
      cases b with
      | bool _ =>
        simp only [Term.cmp] at h h' ⊢
        exact Std.TransCmp.lt_trans h h'
      | _ => exact Term.rank_between h h' rfl nofun
    | _ => exact Term.cmp_trans_of_rank_ne h h' nofun
  | .number x, b, c, h, h' => by
    cases c with
    | number _ =>
      cases b with
      | number _ =>
        simp only [Term.cmp] at h h' ⊢
        exact Number.cmp_trans h h'
      | _ => exact Term.rank_between h h' rfl nofun
    | _ => exact Term.cmp_trans_of_rank_ne h h' nofun
  | .string x, b, c, h, h' => by
    cases c with
    | string _ =>
      cases b with
      | string _ =>
        simp only [Term.cmp] at h h' ⊢
        exact Std.TransCmp.lt_trans h h'
      | _ => exact Term.rank_between h h' rfl nofun
    | _ => exact Term.cmp_trans_of_rank_ne h h' nofun
  | .array xs, b, c, h, h' => by
    cases c with
    | array _ =>
      cases b with
      | array _ =>
        simp only [Term.cmp] at h h' ⊢
        exact Term.cmpList_trans xs _ _ h h'
      | _ => exact Term.rank_between h h' rfl nofun
    | _ => exact Term.cmp_trans_of_rank_ne h h' nofun
  | .object fs, b, c, h, h' => by
    cases c with
    | object _ =>
      cases b with
      | object _ =>
        simp only [Term.cmp] at h h' ⊢
        exact Term.cmpFields_trans fs _ _ h h'
      | _ => exact Term.rank_between h h' rfl nofun
    | _ => exact Term.cmp_trans_of_rank_ne h h' nofun
  | .set xs, b, c, h, h' => by
    cases c with
    | set _ =>
      cases b with
      | set _ =>
        simp only [Term.cmp] at h h' ⊢
        exact Term.cmpList_trans xs _ _ h h'
      | _ => exact Term.rank_between h h' rfl nofun
    | _ => exact Term.cmp_trans_of_rank_ne h h' nofun
  | .var x, b, c, h, h' => by
    cases c with
    | var _ =>
      cases b with
      | var _ =>
        simp only [Term.cmp] at h h' ⊢
        exact Std.TransCmp.lt_trans h h'
      | _ => exact Term.rank_between h h' rfl nofun
    | _ => exact Term.cmp_trans_of_rank_ne h h' nofun
  | .ref u xs, b, c, h, h' => by
    cases c with
    | ref _ _ =>
      cases b with
      | ref _ _ =>
        simp only [Term.cmp] at h h' ⊢
        exact Term.cmp_then_trans (Term.cmp_trans u _ _) (Term.cmpList_trans xs _ _) h h'
      | _ => exact Term.rank_between h h' rfl nofun
    | _ => exact Term.cmp_trans_of_rank_ne h h' nofun
  | .call u xs, b, c, h, h' => by
    cases c with
    | call _ _ =>
      cases b with
      | call _ _ =>
        simp only [Term.cmp] at h h' ⊢
        exact Term.cmp_then_trans (Term.cmp_trans u _ _) (Term.cmpList_trans xs _ _) h h'
      | _ => exact Term.rank_between h h' rfl nofun
    | _ => exact Term.cmp_trans_of_rank_ne h h' nofun
  | .arrayCompr t e, b, c, h, h' => by
    cases c with
    | arrayCompr _ _ =>
      cases b with
      | arrayCompr _ _ =>
        simp only [Term.cmp] at h h' ⊢
        exact Term.cmp_then_trans (Term.cmp_trans t _ _) (Expr.cmpBody_trans e _ _) h h'
      | _ => exact Term.rank_between h h' rfl nofun
    | _ => exact Term.cmp_trans_of_rank_ne h h' nofun
  | .setCompr t e, b, c, h, h' => by
    cases c with
    | setCompr _ _ =>
      cases b with
      | setCompr _ _ =>
        simp only [Term.cmp] at h h' ⊢
        exact Term.cmp_then_trans (Term.cmp_trans t _ _) (Expr.cmpBody_trans e _ _) h h'
      | _ => exact Term.rank_between h h' rfl nofun
    | _ => exact Term.cmp_trans_of_rank_ne h h' nofun
  | .objectCompr k t e, b, c, h, h' => by
    cases c with
    | objectCompr _ _ _ =>
      cases b with
      | objectCompr _ _ _ =>
        simp only [Term.cmp] at h h' ⊢
        rw [Ordering.then_assoc] at h h' ⊢
        exact Term.cmp_then_trans (Term.cmp_trans k _ _) (Term.cmp_then_trans (Term.cmp_trans t _ _)
          (Expr.cmpBody_trans e _ _)) h h'
      | _ => exact Term.rank_between h h' rfl nofun
    | _ => exact Term.cmp_trans_of_rank_ne h h' nofun
termination_by a => sizeOf a
theorem Term.cmpList_trans :
    ∀ a b c : List Term, Term.cmpList a b = .lt → Term.cmpList b c = .lt → Term.cmpList a c = .lt
  | _, [], [], _, h' | [], [], _, h', _ => by simp [Term.cmpList] at h'
  | [], _ :: _, _ :: _, _, _ => by simp only [Term.cmpList]
  | _ :: _, [], _, h, _ => by simp [Term.cmpList] at h
  | _, _ :: _, [], _, h' => by simp [Term.cmpList] at h'
  | x :: xs, _ :: _, _ :: _, h, h' => by
    simp only [Term.cmpList] at h h' ⊢
    exact Term.cmp_then_trans (Term.cmp_trans x _ _) (Term.cmpList_trans xs _ _) h h'
termination_by a => sizeOf a
theorem Term.cmpFields_trans :
    ∀ a b c : List (Term × Term), Term.cmpFields a b = .lt → Term.cmpFields b c = .lt → Term.cmpFields a c = .lt
  | _, [], [], _, h' | [], [], _, h', _ => by simp [Term.cmpFields] at h'
  | [], _ :: _, _ :: _, _, _ => by simp only [Term.cmpFields]
  | _ :: _, [], _, h, _ => by simp [Term.cmpFields] at h
  | _, _ :: _, [], _, h' => by simp [Term.cmpFields] at h'
  | (k, v) :: fs, (_, _) :: _, (_, _) :: _, h, h' => by
    simp only [Term.cmpFields, Ordering.then_assoc] at h h' ⊢
    exact Term.cmp_then_trans (Term.cmp_trans k _ _) (Term.cmp_then_trans (Term.cmp_trans v _ _)
      (Term.cmpFields_trans fs _ _)) h h'
termination_by a => sizeOf a
theorem Term.cmpOption_trans :
    ∀ a b c : Option Term, Term.cmpOption a b = .lt → Term.cmpOption b c = .lt → Term.cmpOption a c = .lt
  | _, none, none, _, h' | none, none, _, h', _ => by simp [Term.cmpOption] at h'
  | none, some _, some _, _, _ => by simp only [Term.cmpOption]
  | some _, none, _, h, _ => by simp [Term.cmpOption] at h
  | _, some _, none, _, h' => by simp [Term.cmpOption] at h'
  | some a, some _, some _, h, h' => by
    simp only [Term.cmpOption] at h h' ⊢
    exact Term.cmp_trans a _ _ h h'
termination_by a => sizeOf a
theorem Expr.cmpBody_trans :
    ∀ a b c : List Expr, Expr.cmpBody a b = .lt → Expr.cmpBody b c = .lt → Expr.cmpBody a c = .lt
  | _, [], [], _, h' | [], [], _, h', _ => by simp [Expr.cmpBody] at h'
  | [], _ :: _, _ :: _, _, _ => by simp only [Expr.cmpBody]
  | _ :: _, [], _, h, _ => by simp [Expr.cmpBody] at h
  | _, _ :: _, [], _, h' => by simp [Expr.cmpBody] at h'
  | x :: xs, _ :: _, _ :: _, h, h' => by
    simp only [Expr.cmpBody] at h h' ⊢
    exact then_trans (Expr.cmp_trans x _ _) (Expr.cmp_congr x _ _) Expr.cmp_congr_right (Expr.cmpBody_trans xs _ _) h h'
termination_by a => sizeOf a
theorem Expr.cmp_trans : ∀ a b c : Expr, a.cmp b = .lt → b.cmp c = .lt → a.cmp c = .lt
  | .mk k _ o _, .mk _ _ _ _, .mk _ _ _ _, h, h' => by
    simp only [Expr.cmp, Ordering.then_assoc] at h h' ⊢
    have hnum : ∀ {x y z : Nat}, compare x y = .lt → compare y z = .lt → compare x z = .lt :=
      fun hxy hyz => Std.TransCmp.lt_trans hxy hyz
    refine then_trans (ExprKind.cmp_trans k _ _) (ExprKind.cmp_congr k _ _) ExprKind.cmp_congr_right (fun h h' => ?_) h h'
    refine then_trans (fun h h' => Std.TransCmp.lt_trans h h') (fun h => ?_) (fun h => ?_) (fun h h' => ?_) h h'
    · rw [Std.LawfulEqOrd.eq_of_compare h]
    · rw [Std.LawfulEqOrd.eq_of_compare h]
    · exact then_trans (Term.cmpFields_trans o _ _) (Term.cmpFields_congr o _ _) Term.cmpFields_congr_right hnum h h'
termination_by a => sizeOf a
theorem ExprKind.cmp_trans : ∀ a b c : ExprKind, a.cmp b = .lt → b.cmp c = .lt → a.cmp c = .lt
  | .term t, b, c, h, h' => by
    cases c with
    | term _ =>
      cases b with
      | term _ =>
        simp only [ExprKind.cmp] at h h' ⊢
        exact Term.cmp_trans t _ _ h h'
      | _ => exact ExprKind.rank_between h h' rfl nofun
    | _ => exact ExprKind.cmp_trans_of_rank_ne h h' nofun
  | .someDecl ts, b, c, h, h' => by
    cases c with
    | someDecl _ =>
      cases b with
      | someDecl _ =>
        simp only [ExprKind.cmp] at h h' ⊢
        exact Term.cmpList_trans ts _ _ h h'
      | _ => exact ExprKind.rank_between h h' rfl nofun
    | _ => exact ExprKind.cmp_trans_of_rank_ne h h' nofun
  | .every k v d e, b, c, h, h' => by
    cases c with
    | every _ _ _ _ =>
      cases b with
      | every _ _ _ _ =>
        simp only [ExprKind.cmp, Ordering.then_assoc] at h h' ⊢
        refine then_trans (Term.cmpOption_trans k _ _) (Term.cmpOption_congr k _ _) Term.cmpOption_congr_right
          (fun h h' => ?_) h h'
        exact Term.cmp_then_trans (Term.cmp_trans v _ _) (Term.cmp_then_trans (Term.cmp_trans d _ _)
          (Expr.cmpBody_trans e _ _)) h h'
      | _ => exact ExprKind.rank_between h h' rfl nofun
    | _ => exact ExprKind.cmp_trans_of_rank_ne h h' nofun
termination_by a => sizeOf a
end

/-! ## Equality -/

namespace Term

theorem beq_iff_cmp {a b : Term} : (a == b) = true ↔ a.cmp b = .eq := by
  change (a.cmp b).isEq = true ↔ _
  rw [Ordering.isEq_iff_eq_eq]

theorem beq_refl (a : Term) : (a == a) = true := by
  rw [beq_iff_cmp]
  have h := cmp_swap a a
  cases hc : a.cmp a <;> rw [hc] at h <;> first | rfl | cases h

theorem beq_symm {a b : Term} (h : (a == b) = true) : (b == a) = true := by
  rw [beq_iff_cmp] at h ⊢
  rw [cmp_swap, h]
  rfl

/-- Equal terms are equal to the same terms. -/
theorem beq_congr_left {a b : Term} (h : (a == b) = true) (c : Term) : (a == c) = (b == c) := by
  change (a.cmp c).isEq = (b.cmp c).isEq
  rw [cmp_congr a b c (beq_iff_cmp.1 h)]

theorem beq_trans {a b c : Term} (h : (a == b) = true) (h' : (b == c) = true) : (a == c) = true := by
  rwa [beq_congr_left h]

/-- Only a string equals a string, and only itself. -/
theorem string_beq_iff {x : String} {t : Term} : (Term.string x == t) = true ↔ t = .string x := by
  rw [beq_iff_cmp]
  constructor
  · intro h
    have hrank := rank_eq_of_cmp h
    cases t <;> simp only [rank, reduceCtorEq] at hrank <;> try omega
    rw [Term.cmp, Std.LawfulEqCmp.compare_eq_iff_eq] at h
    rw [h]
  · rintro rfl
    exact beq_iff_cmp.1 (beq_refl _)

/-- Numbers are equal when they are worth the same. -/
theorem number_beq_iff {n : Number} {t : Term} :
    (Term.number n == t) = true ↔ ∃ n', t = .number n' ∧ n.exact = n'.exact := by
  rw [beq_iff_cmp]
  constructor
  · intro h
    have hrank := rank_eq_of_cmp h
    cases t <;> simp only [rank, reduceCtorEq] at hrank <;> try omega
    rw [Term.cmp, Number.cmp_eq_iff] at h
    exact ⟨_, rfl, h⟩
  · rintro ⟨n', rfl, h⟩
    rwa [Term.cmp, Number.cmp_eq_iff]

end Term

instance : EquivBEq Term where
  rfl := Term.beq_refl _
  symm := Term.beq_symm
  trans := Term.beq_trans

theorem Term.beqList_symm {as bs : List Term} (h : (as == bs) = true) : (bs == as) = true := by
  induction as generalizing bs with
  | nil => cases bs <;> simp_all
  | cons a as ih =>
    cases bs with
    | nil => simp at h
    | cons b bs =>
      rw [List.cons_beq_cons, Bool.and_eq_true] at h ⊢
      exact ⟨Term.beq_symm h.1, ih h.2⟩

theorem Term.beqList_trans {as bs cs : List Term} (h : (as == bs) = true) (h' : (bs == cs) = true) :
    (as == cs) = true := by
  induction as generalizing bs cs with
  | nil => cases bs <;> simp_all
  | cons a as ih =>
    cases bs with
    | nil => simp at h
    | cons b bs =>
      cases cs with
      | nil => simp at h'
      | cons c cs =>
        rw [List.cons_beq_cons, Bool.and_eq_true] at h h' ⊢
        exact ⟨Term.beq_trans h.1 h'.1, ih h.2 h'.2⟩

end PolicyEngine
