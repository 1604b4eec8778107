import PolicyEngine.Proofs.TermOrder
import PolicyEngine.Proofs.Words
import PolicyEngine.Term.Hash

/-!
Equality of terms, part by part, beside their order. Terms with equal parts are those that the order does not tell
apart, and they feed the same sequence to a hash function; numbers are equal when their exact values are, whatever
their representations. The order is total.
-/
namespace PolicyEngine

/-! ## Equality part by part -/

mutual
/-- Terms are of one kind, have equal leaves, and have parts that are equal one by one. Numbers are equal when they are
worth the same. -/
def Term.eqv : Term → Term → Bool
  | .null, t => match t with
    | .null => true
    | _ => false
  | .bool x, t => match t with
    | .bool y => x == y
    | _ => false
  | .number m, t => match t with
    | .number n => decide (m.exact = n.exact)
    | _ => false
  | .string x, t => match t with
    | .string y => x == y
    | _ => false
  | .array xs, t => match t with
    | .array ys => Term.eqvList xs ys
    | _ => false
  | .object fs, t => match t with
    | .object gs => Term.eqvFields fs gs
    | _ => false
  | .set xs, t => match t with
    | .set ys => Term.eqvList xs ys
    | _ => false
  | .var x, t => match t with
    | .var y => x == y
    | _ => false
  | .ref u xs, t => match t with
    | .ref v ys => Term.eqv u v && Term.eqvList xs ys
    | _ => false
  | .call u xs, t => match t with
    | .call v ys => Term.eqv u v && Term.eqvList xs ys
    | _ => false
  | .arrayCompr u body, t => match t with
    | .arrayCompr v body' => Term.eqv u v && Expr.eqvBody body body'
    | _ => false
  | .setCompr u body, t => match t with
    | .setCompr v body' => Term.eqv u v && Expr.eqvBody body body'
    | _ => false
  | .objectCompr k u body, t => match t with
    | .objectCompr k' v body' => Term.eqv k k' && Term.eqv u v && Expr.eqvBody body body'
    | _ => false
def Term.eqvList : List Term → List Term → Bool
  | [], [] => true
  | x :: xs, y :: ys => Term.eqv x y && Term.eqvList xs ys
  | _, _ => false
def Term.eqvFields : List (Term × Term) → List (Term × Term) → Bool
  | [], [] => true
  | (k, v) :: fs, (k', v') :: gs => Term.eqv k k' && Term.eqv v v' && Term.eqvFields fs gs
  | _, _ => false
def Term.eqvOption : Option Term → Option Term → Bool
  | none, none => true
  | some x, some y => Term.eqv x y
  | _, _ => false
def Expr.eqvBody : List Expr → List Expr → Bool
  | [], [] => true
  | x :: xs, y :: ys => Expr.eqv x y && Expr.eqvBody xs ys
  | _, _ => false
def Expr.eqv : Expr → Expr → Bool
  | .mk k n o i, .mk k' n' o' i' => ExprKind.eqv k k' && n == n' && Term.eqvFields o o' && i == i'
def ExprKind.eqv : ExprKind → ExprKind → Bool
  | .term u, e => match e with
    | .term v => Term.eqv u v
    | _ => false
  | .someDecl us, e => match e with
    | .someDecl vs => Term.eqvList us vs
    | _ => false
  | .every k v d body, e => match e with
    | .every k' v' d' body' => Term.eqvOption k k' && Term.eqv v v' && Term.eqv d d' && Expr.eqvBody body body'
    | _ => false
end

/-! ### What the order does not tell apart -/

theorem beq_iff_compare {α : Type} [Ord α] [Std.LawfulEqOrd α] [BEq α] [LawfulBEq α] {x y : α} :
    (x == y) = true ↔ compare x y = .eq := by
  rw [beq_iff_eq, Std.LawfulEqOrd.compare_eq_iff_eq]

theorem Term.rank_eq_of_eqv {a b : Term} (h : a.eqv b = true) : a.rank = b.rank := by
  cases a <;> unfold Term.eqv at h <;> split at h <;> first | rfl | cases h

theorem ExprKind.rank_eq_of_eqv {a b : ExprKind} (h : a.eqv b = true) : a.rank = b.rank := by
  cases a <;> unfold ExprKind.eqv at h <;> split at h <;> first | rfl | cases h

/-- Terms of different kinds are not equal. -/
theorem Term.absurd_of_kind {a b : Term} {p : Prop} (h : a.eqv b = true) (hr : Nat.beq a.rank b.rank = false) : p :=
  absurd (Term.rank_eq_of_eqv h) (Nat.ne_of_beq_eq_false hr)

theorem ExprKind.absurd_of_kind {a b : ExprKind} {p : Prop} (h : a.eqv b = true)
    (hr : Nat.beq a.rank b.rank = false) : p :=
  absurd (ExprKind.rank_eq_of_eqv h) (Nat.ne_of_beq_eq_false hr)

/-- Terms of different kinds are told apart both ways. -/
theorem Term.eqv_iff_of_kind {a b : Term} (hr : Nat.beq a.rank b.rank = false) : a.eqv b = true ↔ a.cmp b = .eq :=
  ⟨fun h => Term.absurd_of_kind h hr, fun h => absurd (Term.rank_eq_of_cmp h) (Nat.ne_of_beq_eq_false hr)⟩

theorem ExprKind.eqv_iff_of_kind {a b : ExprKind} (hr : Nat.beq a.rank b.rank = false) :
    a.eqv b = true ↔ a.cmp b = .eq :=
  ⟨fun h => ExprKind.absurd_of_kind h hr, fun h => absurd (ExprKind.rank_eq_of_cmp h) (Nat.ne_of_beq_eq_false hr)⟩

mutual
theorem Term.eqv_iff_cmp : ∀ a b : Term, a.eqv b = true ↔ a.cmp b = .eq
  | .null, b => by
    cases b with
    | null => simp only [Term.eqv, Term.cmp]
    | _ => exact Term.eqv_iff_of_kind rfl
  | .bool x, b => by
    cases b with
    | bool y =>
      simp only [Term.eqv, Term.cmp]
      exact beq_iff_compare
    | _ => exact Term.eqv_iff_of_kind rfl
  | .number m, b => by
    cases b with
    | number n => simp only [Term.eqv, Term.cmp, decide_eq_true_eq, Number.cmp_eq_iff]
    | _ => exact Term.eqv_iff_of_kind rfl
  | .string x, b => by
    cases b with
    | string y =>
      simp only [Term.eqv, Term.cmp]
      exact beq_iff_compare
    | _ => exact Term.eqv_iff_of_kind rfl
  | .array xs, b => by
    cases b with
    | array ys =>
      simp only [Term.eqv, Term.cmp]
      exact Term.eqvList_iff_cmp xs ys
    | _ => exact Term.eqv_iff_of_kind rfl
  | .object fs, b => by
    cases b with
    | object gs =>
      simp only [Term.eqv, Term.cmp]
      exact Term.eqvFields_iff_cmp fs gs
    | _ => exact Term.eqv_iff_of_kind rfl
  | .set xs, b => by
    cases b with
    | set ys =>
      simp only [Term.eqv, Term.cmp]
      exact Term.eqvList_iff_cmp xs ys
    | _ => exact Term.eqv_iff_of_kind rfl
  | .var x, b => by
    cases b with
    | var y =>
      simp only [Term.eqv, Term.cmp]
      exact beq_iff_compare
    | _ => exact Term.eqv_iff_of_kind rfl
  | .ref u xs, b => by
    cases b with
    | ref v ys =>
      simp only [Term.eqv, Term.cmp, Bool.and_eq_true, Ordering.then_eq_eq]
      exact and_congr (Term.eqv_iff_cmp u v) (Term.eqvList_iff_cmp xs ys)
    | _ => exact Term.eqv_iff_of_kind rfl
  | .call u xs, b => by
    cases b with
    | call v ys =>
      simp only [Term.eqv, Term.cmp, Bool.and_eq_true, Ordering.then_eq_eq]
      exact and_congr (Term.eqv_iff_cmp u v) (Term.eqvList_iff_cmp xs ys)
    | _ => exact Term.eqv_iff_of_kind rfl
  | .arrayCompr u body, b => by
    cases b with
    | arrayCompr v body' =>
      simp only [Term.eqv, Term.cmp, Bool.and_eq_true, Ordering.then_eq_eq]
      exact and_congr (Term.eqv_iff_cmp u v) (Expr.eqvBody_iff_cmp body body')
    | _ => exact Term.eqv_iff_of_kind rfl
  | .setCompr u body, b => by
    cases b with
    | setCompr v body' =>
      simp only [Term.eqv, Term.cmp, Bool.and_eq_true, Ordering.then_eq_eq]
      exact and_congr (Term.eqv_iff_cmp u v) (Expr.eqvBody_iff_cmp body body')
    | _ => exact Term.eqv_iff_of_kind rfl
  | .objectCompr k u body, b => by
    cases b with
    | objectCompr k' v body' =>
      simp only [Term.eqv, Term.cmp, Bool.and_eq_true, Ordering.then_eq_eq]
      exact and_congr (and_congr (Term.eqv_iff_cmp k k') (Term.eqv_iff_cmp u v)) (Expr.eqvBody_iff_cmp body body')
    | _ => exact Term.eqv_iff_of_kind rfl
termination_by a => sizeOf a
theorem Term.eqvList_iff_cmp : ∀ xs ys : List Term, Term.eqvList xs ys = true ↔ Term.cmpList xs ys = .eq
  | [], [] | [], _ :: _ | _ :: _, [] => by simp [Term.eqvList, Term.cmpList]
  | x :: xs, y :: ys => by
    simp only [Term.eqvList, Term.cmpList, Bool.and_eq_true, Ordering.then_eq_eq]
    exact and_congr (Term.eqv_iff_cmp x y) (Term.eqvList_iff_cmp xs ys)
termination_by a => sizeOf a
theorem Term.eqvFields_iff_cmp :
    ∀ fs gs : List (Term × Term), Term.eqvFields fs gs = true ↔ Term.cmpFields fs gs = .eq
  | [], [] | [], _ :: _ | _ :: _, [] => by simp [Term.eqvFields, Term.cmpFields]
  | (k, v) :: fs, (k', v') :: gs => by
    simp only [Term.eqvFields, Term.cmpFields, Bool.and_eq_true, Ordering.then_eq_eq]
    exact and_congr (and_congr (Term.eqv_iff_cmp k k') (Term.eqv_iff_cmp v v')) (Term.eqvFields_iff_cmp fs gs)
termination_by a => sizeOf a
theorem Term.eqvOption_iff_cmp : ∀ x y : Option Term, Term.eqvOption x y = true ↔ Term.cmpOption x y = .eq
  | none, none | none, some _ | some _, none => by simp [Term.eqvOption, Term.cmpOption]
  | some x, some y => by
    simp only [Term.eqvOption, Term.cmpOption]
    exact Term.eqv_iff_cmp x y
termination_by a => sizeOf a
theorem Expr.eqvBody_iff_cmp : ∀ xs ys : List Expr, Expr.eqvBody xs ys = true ↔ Expr.cmpBody xs ys = .eq
  | [], [] | [], _ :: _ | _ :: _, [] => by simp [Expr.eqvBody, Expr.cmpBody]
  | x :: xs, y :: ys => by
    simp only [Expr.eqvBody, Expr.cmpBody, Bool.and_eq_true, Ordering.then_eq_eq]
    exact and_congr (Expr.eqv_iff_cmp x y) (Expr.eqvBody_iff_cmp xs ys)
termination_by a => sizeOf a
theorem Expr.eqv_iff_cmp : ∀ a b : Expr, a.eqv b = true ↔ a.cmp b = .eq
  | .mk k n o i, .mk k' n' o' i' => by
    simp only [Expr.eqv, Expr.cmp, Bool.and_eq_true, Ordering.then_eq_eq]
    exact and_congr (and_congr (and_congr (ExprKind.eqv_iff_cmp k k') beq_iff_compare)
      (Term.eqvFields_iff_cmp o o')) beq_iff_compare
termination_by a => sizeOf a
theorem ExprKind.eqv_iff_cmp : ∀ a b : ExprKind, a.eqv b = true ↔ a.cmp b = .eq
  | .term u, b => by
    cases b with
    | term v =>
      simp only [ExprKind.eqv, ExprKind.cmp]
      exact Term.eqv_iff_cmp u v
    | _ => exact ExprKind.eqv_iff_of_kind rfl
  | .someDecl us, b => by
    cases b with
    | someDecl vs =>
      simp only [ExprKind.eqv, ExprKind.cmp]
      exact Term.eqvList_iff_cmp us vs
    | _ => exact ExprKind.eqv_iff_of_kind rfl
  | .every k v d body, b => by
    cases b with
    | every k' v' d' body' =>
      simp only [ExprKind.eqv, ExprKind.cmp, Bool.and_eq_true, Ordering.then_eq_eq]
      exact and_congr (and_congr (and_congr (Term.eqvOption_iff_cmp k k') (Term.eqv_iff_cmp v v'))
        (Term.eqv_iff_cmp d d')) (Expr.eqvBody_iff_cmp body body')
    | _ => exact ExprKind.eqv_iff_of_kind rfl
termination_by a => sizeOf a
end

/-! ## Hashes -/

theorem Term.length_eq_of_eqvList : ∀ {xs ys : List Term}, Term.eqvList xs ys = true → xs.length = ys.length
  | [], [], _ => rfl
  | [], _ :: _, h | _ :: _, [], h => by simp [Term.eqvList] at h
  | _ :: xs, _ :: ys, h => by
    simp only [Term.eqvList, Bool.and_eq_true] at h
    rw [List.length_cons, List.length_cons, Term.length_eq_of_eqvList h.2]

theorem Term.length_eq_of_eqvFields :
    ∀ {fs gs : List (Term × Term)}, Term.eqvFields fs gs = true → fs.length = gs.length
  | [], [], _ => rfl
  | [], _ :: _, h | _ :: _, [], h => by simp [Term.eqvFields] at h
  | (_, _) :: fs, (_, _) :: gs, h => by
    simp only [Term.eqvFields, Bool.and_eq_true] at h
    rw [List.length_cons, List.length_cons, Term.length_eq_of_eqvFields h.2]

theorem Expr.length_eq_of_eqvBody : ∀ {xs ys : List Expr}, Expr.eqvBody xs ys = true → xs.length = ys.length
  | [], [], _ => rfl
  | [], _ :: _, h | _ :: _, [], h => by simp [Expr.eqvBody] at h
  | _ :: xs, _ :: ys, h => by
    simp only [Expr.eqvBody, Bool.and_eq_true] at h
    rw [List.length_cons, List.length_cons, Expr.length_eq_of_eqvBody h.2]

mutual
theorem Term.hashParts_congr : ∀ a b : Term, a.eqv b = true → a.hashParts = b.hashParts
  | .null, b, h => by
    cases b with
    | null => rfl
    | _ => exact Term.absurd_of_kind h rfl
  | .bool x, b, h => by
    cases b with
    | bool y =>
      simp only [Term.eqv, beq_iff_eq] at h
      rw [h]
    | _ => exact Term.absurd_of_kind h rfl
  | .number m, b, h => by
    cases b with
    | number n =>
      simp only [Term.eqv, decide_eq_true_eq] at h
      simp only [Term.hashParts, Number.hashKey_congr h]
    | _ => exact Term.absurd_of_kind h rfl
  | .string x, b, h => by
    cases b with
    | string y =>
      simp only [Term.eqv, beq_iff_eq] at h
      rw [h]
    | _ => exact Term.absurd_of_kind h rfl
  | .array xs, b, h => by
    cases b with
    | array ys =>
      simp only [Term.eqv] at h
      simp only [Term.hashParts, Term.length_eq_of_eqvList h, Term.listHashParts_congr xs ys h]
    | _ => exact Term.absurd_of_kind h rfl
  | .object fs, b, h => by
    cases b with
    | object gs =>
      simp only [Term.eqv] at h
      simp only [Term.hashParts, Term.length_eq_of_eqvFields h, Term.fieldsHashParts_congr fs gs h]
    | _ => exact Term.absurd_of_kind h rfl
  | .set xs, b, h => by
    cases b with
    | set ys =>
      simp only [Term.eqv] at h
      simp only [Term.hashParts, Term.length_eq_of_eqvList h, Term.listHashParts_congr xs ys h]
    | _ => exact Term.absurd_of_kind h rfl
  | .var x, b, h => by
    cases b with
    | var y =>
      simp only [Term.eqv, beq_iff_eq] at h
      rw [h]
    | _ => exact Term.absurd_of_kind h rfl
  | .ref u xs, b, h => by
    cases b with
    | ref v ys =>
      simp only [Term.eqv, Bool.and_eq_true] at h
      simp only [Term.hashParts, Term.length_eq_of_eqvList h.2, Term.hashParts_congr u v h.1,
        Term.listHashParts_congr xs ys h.2]
    | _ => exact Term.absurd_of_kind h rfl
  | .call u xs, b, h => by
    cases b with
    | call v ys =>
      simp only [Term.eqv, Bool.and_eq_true] at h
      simp only [Term.hashParts, Term.length_eq_of_eqvList h.2, Term.hashParts_congr u v h.1,
        Term.listHashParts_congr xs ys h.2]
    | _ => exact Term.absurd_of_kind h rfl
  | .arrayCompr u body, b, h => by
    cases b with
    | arrayCompr v body' =>
      simp only [Term.eqv, Bool.and_eq_true] at h
      simp only [Term.hashParts, Expr.length_eq_of_eqvBody h.2, Term.hashParts_congr u v h.1,
        Expr.listHashParts_congr body body' h.2]
    | _ => exact Term.absurd_of_kind h rfl
  | .setCompr u body, b, h => by
    cases b with
    | setCompr v body' =>
      simp only [Term.eqv, Bool.and_eq_true] at h
      simp only [Term.hashParts, Expr.length_eq_of_eqvBody h.2, Term.hashParts_congr u v h.1,
        Expr.listHashParts_congr body body' h.2]
    | _ => exact Term.absurd_of_kind h rfl
  | .objectCompr k u body, b, h => by
    cases b with
    | objectCompr k' v body' =>
      simp only [Term.eqv, Bool.and_eq_true] at h
      simp only [Term.hashParts, Expr.length_eq_of_eqvBody h.2, Term.hashParts_congr k k' h.1.1,
        Term.hashParts_congr u v h.1.2, Expr.listHashParts_congr body body' h.2]
    | _ => exact Term.absurd_of_kind h rfl
termination_by a => sizeOf a
theorem Term.listHashParts_congr :
    ∀ xs ys : List Term, Term.eqvList xs ys = true → Term.listHashParts xs = Term.listHashParts ys
  | [], [], _ => rfl
  | [], _ :: _, h | _ :: _, [], h => by simp [Term.eqvList] at h
  | x :: xs, y :: ys, h => by
    simp only [Term.eqvList, Bool.and_eq_true] at h
    simp only [Term.listHashParts, Term.hashParts_congr x y h.1, Term.listHashParts_congr xs ys h.2]
termination_by a => sizeOf a
theorem Term.fieldsHashParts_congr :
    ∀ fs gs : List (Term × Term), Term.eqvFields fs gs = true → Term.fieldsHashParts fs = Term.fieldsHashParts gs
  | [], [], _ => rfl
  | [], _ :: _, h | _ :: _, [], h => by simp [Term.eqvFields] at h
  | (k, v) :: fs, (k', v') :: gs, h => by
    simp only [Term.eqvFields, Bool.and_eq_true] at h
    simp only [Term.fieldsHashParts, Term.hashParts_congr k k' h.1.1, Term.hashParts_congr v v' h.1.2,
      Term.fieldsHashParts_congr fs gs h.2]
termination_by a => sizeOf a
theorem Expr.listHashParts_congr :
    ∀ xs ys : List Expr, Expr.eqvBody xs ys = true → Expr.listHashParts xs = Expr.listHashParts ys
  | [], [], _ => rfl
  | [], _ :: _, h | _ :: _, [], h => by simp [Expr.eqvBody] at h
  | x :: xs, y :: ys, h => by
    simp only [Expr.eqvBody, Bool.and_eq_true] at h
    simp only [Expr.listHashParts, Expr.hashParts_congr x y h.1, Expr.listHashParts_congr xs ys h.2]
termination_by a => sizeOf a
theorem Expr.hashParts_congr : ∀ a b : Expr, a.eqv b = true → a.hashParts = b.hashParts
  | .mk k n o i, .mk k' n' o' i', h => by
    simp only [Expr.eqv, Bool.and_eq_true, beq_iff_eq] at h
    obtain ⟨⟨⟨hk, rfl⟩, ho⟩, rfl⟩ := h
    simp only [Expr.hashParts, ExprKind.hashParts_congr k k' hk, Term.length_eq_of_eqvFields ho,
      Term.fieldsHashParts_congr o o' ho]
termination_by a => sizeOf a
theorem ExprKind.hashParts_congr : ∀ a b : ExprKind, a.eqv b = true → a.hashParts = b.hashParts
  | .term u, b, h => by
    cases b with
    | term v =>
      simp only [ExprKind.eqv] at h
      simp only [ExprKind.hashParts, Term.hashParts_congr u v h]
    | _ => exact ExprKind.absurd_of_kind h rfl
  | .someDecl us, b, h => by
    cases b with
    | someDecl vs =>
      simp only [ExprKind.eqv] at h
      simp only [ExprKind.hashParts, Term.length_eq_of_eqvList h, Term.listHashParts_congr us vs h]
    | _ => exact ExprKind.absurd_of_kind h rfl
  | .every none v d body, b, h => by
    cases b with
    | every k' v' d' body' =>
      simp only [ExprKind.eqv, Bool.and_eq_true] at h
      obtain ⟨⟨⟨hk, hv⟩, hd⟩, hbody⟩ := h
      cases k' with
      | none =>
        simp only [ExprKind.hashParts, Term.hashParts_congr v v' hv, Term.hashParts_congr d d' hd,
          Expr.length_eq_of_eqvBody hbody, Expr.listHashParts_congr body body' hbody]
      | some _ => simp [Term.eqvOption] at hk
    | _ => exact ExprKind.absurd_of_kind h rfl
  | .every (some k) v d body, b, h => by
    cases b with
    | every k' v' d' body' =>
      simp only [ExprKind.eqv, Bool.and_eq_true] at h
      obtain ⟨⟨⟨hk, hv⟩, hd⟩, hbody⟩ := h
      cases k' with
      | none => simp [Term.eqvOption] at hk
      | some k' =>
        simp only [Term.eqvOption] at hk
        simp only [ExprKind.hashParts, Term.hashParts_congr k k' hk, Term.hashParts_congr v v' hv,
          Term.hashParts_congr d d' hd, Expr.length_eq_of_eqvBody hbody, Expr.listHashParts_congr body body' hbody]
    | _ => exact ExprKind.absurd_of_kind h rfl
termination_by a => sizeOf a
end

/-! ## The order -/

theorem Number.cmp_nan {m n : Number} (hm : m.exact ≠ .nan) (hn : n.exact = .nan) : m.cmp n = .lt := by
  rw [cmp_exact, hn]
  cases hexact : m.exact with
  | nan => exact absurd hexact hm
  | _ => rfl

theorem Term.isLE_trans {a b c : Term} (h : (a.cmp b).isLE = true) (h' : (b.cmp c).isLE = true) :
    (a.cmp c).isLE = true := by
  cases hab : a.cmp b with
  | gt =>
    rw [hab] at h
    cases h
  | eq => rwa [cmp_congr a b c hab]
  | lt =>
    cases hbc : b.cmp c with
    | gt =>
      rw [hbc] at h'
      cases h'
    | eq => rwa [cmp_congr_right hbc]
    | lt => rw [cmp_trans a b c hab hbc]; rfl

/-- The order of terms is total: it turns round with its sides and is transitive. It tells apart what differs in some
part and nothing else; numbers differ when their exact values do, and not-a-number stands after all others. Terms that
it does not tell apart feed the same sequence to a hash function. -/
theorem Term.cmp_total :
    (∀ a b : Term, a.cmp b = (b.cmp a).swap) ∧
      (∀ a b c : Term, a.cmp b = .lt → b.cmp c = .lt → a.cmp c = .lt) ∧
      (∀ a b c : Term, (a.cmp b).isLE = true → (b.cmp c).isLE = true → (a.cmp c).isLE = true) ∧
      (∀ a b : Term, (a == b) = a.eqv b ∧ (a.eqv b = true ↔ a.cmp b = .eq)) ∧
      (∀ m n : Number, (Term.number m == Term.number n) = true ↔ m.exact = n.exact) ∧
      (∀ m n : Number, m.exact ≠ .nan → n.exact = .nan → (Term.number m).cmp (.number n) = .lt) ∧
      ∀ a b : Term, (a == b) = true → a.hashParts = b.hashParts := by
  have heqv : ∀ a b : Term, (a == b) = a.eqv b := fun a b => by
    rw [Bool.eq_iff_iff, beq_iff_cmp, eqv_iff_cmp]
  refine ⟨fun a b => cmp_swap b a, cmp_trans, fun a b c => isLE_trans, fun a b => ⟨heqv a b, eqv_iff_cmp a b⟩,
    fun m n => ?_, fun m n hm hn => ?_, fun a b h => hashParts_congr a b (heqv a b ▸ h)⟩
  · rw [beq_iff_cmp, Term.cmp, Number.cmp_eq_iff]
  · rw [Term.cmp, Number.cmp_nan hm hn]

/-! ### Numbers in several representations -/

namespace Representations

/-- Terms with integers beyond the range in which floating-point words have all of them, one between two words. -/
def below : Term := .array [.number (.float ⟨0x4340000000000000⟩)]
def between : Term := .array [.number (.unsigned 0x20000000000001)]
def above : Term := .array [.number (.float ⟨0x4340000000000001⟩)]

/-- Comprehensions over a number as a machine word, and over the same number as a floating-point word. -/
def integral : Term := .setCompr (.number (.signed 1)) [.ofKind (.every none (.var "x") (.set [.number (.big 3)]) [])]
def floating : Term :=
  .setCompr (.number (.float ⟨0x3FF0000000000000⟩))
    [.ofKind (.every none (.var "x") (.set [.number (.float ⟨0x4008000000000000⟩)]) [])]

theorem cmp_representations :
    below.cmp above = .lt ∧ (below.cmp integral).isLE = true ∧ (integral == floating) = true ∧
      integral.hashParts = floating.hashParts ∧
      (Term.number (.float .nan)).cmp (.number (.float (.infinity false))) = .gt := by
  obtain ⟨hswap, htrans, hle, _, _, hnan, hhash⟩ := Term.cmp_total
  refine ⟨htrans below between above (by decide +kernel) (by decide +kernel),
    hle below above integral (by decide +kernel) (by decide +kernel), by decide +kernel,
    hhash integral floating (by decide +kernel), ?_⟩
  rw [hswap, hnan _ _ (by decide +kernel) (by decide +kernel)]
  rfl

end Representations
end PolicyEngine
