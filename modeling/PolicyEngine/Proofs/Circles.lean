import Mathlib.Data.Finset.Card
import Mathlib.Data.List.Dedup
import PolicyEngine.Eval.Bindings

/-!
Variables in circles. Following a variable to its value and putting values in place go on for ever where a variable
depends on itself. Where they come to an end, they do so in as many steps as there are assignments: each step on the
way takes another variable.
-/
namespace PolicyEngine

/-! ## The variables of a term -/

namespace Term

theorem exists_of_isVar {t : Term} (h : t.isVar = true) : ∃ x, t = .var x := by
  cases t with
  | var x => exact ⟨x, rfl⟩
  | _ => cases h

-- variables are collected along the term
attribute [simp] vars listVars fieldsVars

theorem mem_listVars {x : String} {ts : List Term} : x ∈ listVars ts ↔ ∃ t ∈ ts, x ∈ t.vars := by
  induction ts with
  | nil => simp [listVars]
  | cons t rest ih => simp [listVars, ih]

theorem mem_fieldsVars {x : String} {fs : List (Term × Term)} :
    x ∈ fieldsVars fs ↔ ∃ f ∈ fs, x ∈ f.1.vars ∨ x ∈ f.2.vars := by
  induction fs with
  | nil => simp [fieldsVars]
  | cons f rest ih =>
    obtain ⟨k, v⟩ := f
    simp [fieldsVars, ih, or_assoc]

mutual
/-- A ground term has no variables. -/
theorem vars_of_isGround : ∀ t : Term, t.isGround = true → t.vars = []
  | .array items, h => by simpa [vars] using listVars_of_allGround items (by simpa [isGround] using h)
  | .set members, h => by simpa [vars] using listVars_of_allGround members (by simpa [isGround] using h)
  | .object fields, h => by simpa [vars] using fieldsVars_of_fieldsGround fields (by simpa [isGround] using h)
  | .null, _ | .bool _, _ | .number _, _ | .string _, _ => rfl
  | .arrayCompr _ _, _ | .setCompr _ _, _ | .objectCompr _ _ _, _ => rfl
theorem listVars_of_allGround : ∀ ts : List Term, allGround ts = true → listVars ts = []
  | [], _ => rfl
  | t :: rest, h => by
    simp only [allGround, Bool.and_eq_true] at h
    simp [listVars, vars_of_isGround t h.1, listVars_of_allGround rest h.2]
theorem fieldsVars_of_fieldsGround : ∀ fs : List (Term × Term), fieldsGround fs = true → fieldsVars fs = []
  | [], _ => rfl
  | (k, v) :: rest, h => by
    simp only [fieldsGround, Bool.and_eq_true] at h
    simp [fieldsVars, vars_of_isGround k h.1.1, vars_of_isGround v h.1.2, fieldsVars_of_fieldsGround rest h.2]
end

end Term

/-- Where all of a list are mapped, each of them is. -/
theorem List.exists_of_mapM_eq_some {f : α → Option β} {xs : List α} {ys : List β} (h : xs.mapM f = some ys) :
    ∀ x ∈ xs, ∃ y, f x = some y := by
  induction xs generalizing ys with
  | nil => exact fun x hx => by cases hx
  | cons a rest ih =>
    rw [List.mapM_cons] at h
    obtain ⟨y, hy, h⟩ := Option.bind_eq_some_iff.1 h
    obtain ⟨ys, hys, -⟩ := Option.bind_eq_some_iff.1 h
    exact List.forall_mem_cons.2 ⟨⟨y, hy⟩, ih hys⟩

namespace Bindings

variable {b : Bindings} {x y : String} {t u : Term} {m n : Nat}

theorem mem_assignments_of_lookup (h : b.lookup x = some t) : x ∈ (b.assignments.map Prod.fst).toFinset := by
  obtain ⟨a, ha, -⟩ := Option.bind_eq_some_iff.1 h
  have hx : a.1 = x := by simpa using List.find?_some ha
  exact List.mem_toFinset.2 (List.mem_map.2 ⟨a, List.mem_of_find?_eq_some ha, hx⟩)

/-! ## Ways with an end -/

/-- The variables from which an end is reached in a number of steps. From unbound variables it is reached at once, and
on a way with more steps the next variable is one step nearer to the end. -/
structure Stepwise (b : Bindings) (ends : Nat → String → Prop) : Prop where
  unbound : ∀ {x}, b.lookup x = none → ends 0 x
  mono : ∀ {n x}, ends n x → ends (n + 1) x
  next : ∀ {n x}, ends (n + 2) x → ¬ends (n + 1) x → ∃ y, ends (n + 1) y ∧ ¬ends n y

namespace Stepwise

variable {ends : Nat → String → Prop} (h : b.Stepwise ends)

include h

theorem mono_le (hmn : m ≤ n) (hx : ends m x) : ends n x :=
  Nat.le_induction hx (fun _ _ => h.mono) n hmn

theorem mem_assignments (hx : ¬ends n x) : x ∈ (b.assignments.map Prod.fst).toFinset := by
  cases hlookup : b.lookup x with
  | none => exact absurd (h.mono_le n.zero_le (h.unbound hlookup)) hx
  | some t => exact mem_assignments_of_lookup hlookup

/-- A way on which no step can be spared takes as many variables as it has steps. -/
theorem exists_way (hx : ends (n + 1) x) (hspare : ¬ends n x) :
    ∃ way : Finset String, way.card = n + 1 ∧ (∀ y ∈ way, ends (n + 1) y) ∧
      way ⊆ (b.assignments.map Prod.fst).toFinset := by
  induction n generalizing x with
  | zero =>
    exact ⟨{x}, rfl, fun y hy => Finset.mem_singleton.1 hy ▸ hx,
      Finset.singleton_subset_iff.2 (h.mem_assignments hspare)⟩
  | succ n ih =>
    obtain ⟨y, hy, hyspare⟩ := h.next hx hspare
    obtain ⟨way, hcard, hends, hassigned⟩ := ih hy hyspare
    refine ⟨insert x way, ?_, fun z hz => ?_, Finset.insert_subset (h.mem_assignments hspare) hassigned⟩
    · rw [Finset.card_insert_of_notMem fun hmem => hspare (hends x hmem), hcard]
    · rcases Finset.mem_insert.1 hz with rfl | hz
      · exact hx
      · exact h.mono (hends z hz)

/-- As many steps as there are assignments are enough. -/
theorem within (hx : ends n x) : ends b.assignments.length x := by
  induction n with
  | zero => exact h.mono_le (Nat.zero_le _) hx
  | succ n ih =>
    by_cases hspare : ends n x
    · exact ih hspare
    · obtain ⟨way, hcard, -, hassigned⟩ := h.exists_way hx hspare
      have hle : n + 1 ≤ b.assignments.length := calc
        n + 1 = way.card := hcard.symm
        _ ≤ (b.assignments.map Prod.fst).toFinset.card := Finset.card_le_card hassigned
        _ ≤ (b.assignments.map Prod.fst).length := List.toFinset_card_le _
        _ = b.assignments.length := List.length_map _
      exact h.mono_le hle hx

end Stepwise

/-! ## Following variables -/

/-- No variable is left to follow. -/
def Arrived (b : Bindings) (t : Term) : Prop := ∀ x, t = .var x → b.lookup x = none

theorem arrived_of_not_isVar (h : t.isVar = false) : b.Arrived t := by
  rintro x rfl
  cases h

@[simp] theorem follow_zero : b.follow 0 t = t := by cases t <;> rfl

theorem follow_of_not_isVar (h : t.isVar = false) (n : Nat) : b.follow n t = t := by
  cases n <;> cases t <;> first | rfl | cases h

theorem follow_unbound (h : b.lookup x = none) (n : Nat) : b.follow n (.var x) = .var x := by
  cases n with
  | zero => rfl
  | succ n => simp only [follow, h]

theorem follow_bound (h : b.lookup x = some t) (n : Nat) : b.follow (n + 1) (.var x) = b.follow n t := by
  simp only [follow, h]

theorem Arrived.follow (h : b.Arrived t) (n : Nat) : b.follow n t = t := by
  cases t with
  | var x => exact follow_unbound (h x rfl) n
  | _ => exact follow_of_not_isVar rfl n

theorem follow_add (m n : Nat) (t : Term) : b.follow (m + n) t = b.follow n (b.follow m t) := by
  induction m generalizing t with
  | zero => rw [Nat.zero_add, follow_zero]
  | succ m ih =>
    cases hvar : t.isVar with
    | false => simp only [follow_of_not_isVar hvar]
    | true =>
      obtain ⟨x, rfl⟩ := Term.exists_of_isVar hvar
      cases hx : b.lookup x with
      | none => simp only [follow_unbound hx]
      | some u => rw [Nat.succ_add, follow_bound hx, follow_bound hx, ih]

theorem stepwise_follow : b.Stepwise fun n x => b.Arrived (b.follow n (.var x)) where
  unbound h := by
    rintro y hy
    cases hy
    exact h
  mono {n x} h := by rwa [follow_add, h.follow]
  next {n x} hx hspare := by
    cases hlookup : b.lookup x with
    | none =>
      refine absurd (fun y hy => ?_) hspare
      rw [follow_unbound hlookup] at hy
      cases hy
      exact hlookup
    | some t =>
      rw [follow_bound hlookup] at hx hspare
      cases hvar : t.isVar with
      | false => exact absurd ((follow_of_not_isVar hvar n).symm ▸ arrived_of_not_isVar hvar) hspare
      | true =>
        obtain ⟨y, rfl⟩ := Term.exists_of_isVar hvar
        exact ⟨y, hx, hspare⟩

/-- A way that ends is no longer than the number of assignments. -/
theorem arrived_follow_length (h : b.Arrived (b.follow n t)) : b.Arrived (b.follow b.assignments.length t) := by
  cases hvar : t.isVar with
  | false => exact (follow_of_not_isVar hvar _).symm ▸ arrived_of_not_isVar hvar
  | true =>
    obtain ⟨x, rfl⟩ := Term.exists_of_isVar hvar
    exact stepwise_follow.within h

theorem follow_of_followOn? (h : b.followOn? t = some u) : ∃ n, b.follow n t = u ∧ b.Arrived u := by
  refine followOn?.partial_correctness b (fun t u => ∃ n, b.follow n t = u ∧ b.Arrived u) ?_ t u h
  intro next ih t u h
  split at h
  · split at h
    · next hlookup =>
      obtain ⟨n, hn, hu⟩ := ih _ _ h
      exact ⟨n + 1, (follow_bound hlookup n).trans hn, hu⟩
    · next hlookup =>
      cases h
      exact ⟨0, rfl, fun y hy => by cases hy; exact hlookup⟩
  · next hvar =>
    cases h
    exact ⟨0, follow_zero, fun x hx => absurd hx (hvar x)⟩

theorem deref_eq_follow (b : Bindings) (t : Term) : b.deref t = b.follow b.assignments.length t := by
  rw [deref]
  split
  · next x hx =>
    split
    · exact hx.symm
    · next hbound =>
      have hnone : b.followOn? (.var x) = none := by
        rw [Option.eq_none_iff_forall_ne_some]
        intro u hu
        obtain ⟨n, hn, harrived⟩ := follow_of_followOn? hu
        -- the way to `x` and on to its end is longer than the number of assignments, and it has one that is not
        have hway : b.Arrived (b.follow (b.assignments.length + n) t) := by rwa [follow_add, hx, hn]
        exact hbound (Option.isNone_iff_eq_none.2 (arrived_follow_length hway x hx))
      rw [hnone, hx, Option.getD_none]
  · rfl

theorem deref_of_not_isVar (h : t.isVar = false) : b.deref t = t := by
  rw [deref_eq_follow, follow_of_not_isVar h]

theorem deref_unbound (h : b.lookup x = none) : b.deref (.var x) = .var x := by
  rw [deref_eq_follow, follow_unbound h]

/-! ## Putting values in place -/

theorem endsAt_iff : b.endsAt n t = true ↔ ∀ x ∈ t.vars, b.endsAt n (.var x) = true := by
  cases n <;> simp only [endsAt, Term.vars, List.all_eq_true, List.mem_singleton, forall_eq]

theorem endsAt_var_of_isVar (h : (b.deref (.var x)).isVar = true) : b.endsAt (n + 1) (.var x) = true := by
  cases hd : b.deref (.var x) with
  | var y => simp only [endsAt, Term.vars, hd, List.all_cons, List.all_nil, Bool.and_self]
  | _ =>
    rw [hd] at h
    cases h

theorem endsAt_var_of_not_isVar (h : (b.deref (.var x)).isVar = false) :
    b.endsAt (n + 1) (.var x) = b.endsAt n (b.deref (.var x)) := by
  cases hd : b.deref (.var x) with
  | var y =>
    rw [hd] at h
    cases h
  | _ => simp only [endsAt, Term.vars, hd, List.all_cons, List.all_nil, Bool.and_true]

theorem endsAt_succ (h : b.endsAt n t = true) : b.endsAt (n + 1) t = true := by
  induction n generalizing t with
  | zero =>
    refine endsAt_iff.2 fun x hx => endsAt_var_of_isVar ?_
    have hunbound : b.lookup x = none := by
      simpa only [endsAt, List.all_eq_true, Option.isNone_iff_eq_none] using List.all_eq_true.1 h x hx
    rw [deref_unbound hunbound]
    rfl
  | succ n ih =>
    refine endsAt_iff.2 fun x hx => ?_
    have hx := endsAt_iff.1 h x hx
    cases hvar : (b.deref (.var x)).isVar with
    | true => exact endsAt_var_of_isVar hvar
    | false =>
      rw [endsAt_var_of_not_isVar hvar] at hx ⊢
      exact ih hx

theorem stepwise_endsAt : b.Stepwise fun n x => b.endsAt n (.var x) = true where
  unbound h := by simp [endsAt, Term.vars, h]
  mono := endsAt_succ
  next {n x} hx hspare := by
    cases hvar : (b.deref (.var x)).isVar with
    | true => exact absurd (endsAt_var_of_isVar hvar) hspare
    | false =>
      rw [endsAt_var_of_not_isVar hvar] at hx hspare
      obtain ⟨y, hy, hspare⟩ : ∃ y ∈ (b.deref (.var x)).vars, ¬b.endsAt n (.var y) = true := by
        simpa only [endsAt_iff (t := b.deref (.var x)), not_forall, exists_prop] using hspare
      exact ⟨y, endsAt_iff.1 hx y hy, hspare⟩

theorem endsAt_mono (hmn : m ≤ n) (h : b.endsAt m t = true) : b.endsAt n t = true :=
  Nat.le_induction h (fun _ _ => endsAt_succ) n hmn

/-- Values that end do so at no more levels than there are assignments. -/
theorem endsAt_length (h : b.endsAt n t = true) : b.endsAt b.assignments.length t = true :=
  endsAt_iff.2 fun x hx => stepwise_endsAt.within (endsAt_iff.1 h x hx)

/-- For finitely many terms that end somewhere there is a level at which all of them end. -/
theorem exists_endsAt_all {ts : List Term} (h : ∀ t ∈ ts, ∃ n, b.endsAt n t = true) :
    ∃ n, ∀ t ∈ ts, b.endsAt n t = true := by
  induction ts with
  | nil => exact ⟨0, fun t ht => by cases ht⟩
  | cons t rest ih =>
    obtain ⟨m, hm⟩ := h t List.mem_cons_self
    obtain ⟨n, hn⟩ := ih fun u hu => h u (List.mem_cons_of_mem t hu)
    refine ⟨max m n, List.forall_mem_cons.2 ⟨endsAt_mono (le_max_left m n) hm, fun u hu => ?_⟩⟩
    exact endsAt_mono (le_max_right m n) (hn u hu)

theorem exists_endsAt_iff : (∃ n, b.endsAt n t = true) ↔ ∀ x ∈ t.vars, ∃ n, b.endsAt n (.var x) = true := by
  refine ⟨fun ⟨n, hn⟩ x hx => ⟨n, endsAt_iff.1 hn x hx⟩, fun h => ?_⟩
  obtain ⟨n, hn⟩ := @exists_endsAt_all b (t.vars.map Term.var) (List.forall_mem_map.2 h)
  exact ⟨n, endsAt_iff.2 (List.forall_mem_map.1 hn)⟩

/-- Where putting values in place comes to an end, the values end at some level. -/
theorem exists_endsAt_of_plugOn? (h : b.plugOn? t = some u) : ∃ n, b.endsAt n t = true := by
  refine plugOn?.partial_correctness b (fun t _ => ∃ n, b.endsAt n t = true) ?_ t u h
  intro plugOn ih t u h
  have hone : ∀ {t v : Term}, plugOn t = some v → ∀ x ∈ t.vars, ∃ n, b.endsAt n (.var x) = true :=
    fun hv => exists_endsAt_iff.1 (ih _ _ hv)
  have hall : ∀ {ts vs : List Term}, ts.mapM plugOn = some vs →
      ∀ x ∈ Term.listVars ts, ∃ n, b.endsAt n (.var x) = true := by
    intro ts vs hvs x hx
    obtain ⟨t, ht, hx⟩ := Term.mem_listVars.1 hx
    obtain ⟨v, hv⟩ := List.exists_of_mapM_eq_some hvs t ht
    exact hone hv x hx
  split at h
  · split at h
    · next hy => exact ⟨1, endsAt_var_of_isVar (hy ▸ rfl)⟩
    · next x hvalue =>
      obtain ⟨n, hn⟩ := ih _ _ h
      refine ⟨n + 1, ?_⟩
      rwa [endsAt_var_of_not_isVar (Bool.eq_false_iff.2 fun hvar => ?_)]
      obtain ⟨y, hy⟩ := Term.exists_of_isVar hvar
      exact hvalue y hy
  · obtain ⟨vs, hvs, -⟩ := Option.bind_eq_some_iff.1 h
    exact exists_endsAt_iff.2 (hall hvs)
  · next fields =>
    refine exists_endsAt_iff.2 fun x hx => ?_
    split at h
    · next hground =>
      rw [Term.vars, Term.fieldsVars_of_fieldsGround fields hground] at hx
      cases hx
    · obtain ⟨vs, hvs, -⟩ := Option.bind_eq_some_iff.1 h
      obtain ⟨f, hf, hx⟩ := Term.mem_fieldsVars.1 hx
      obtain ⟨v, hv⟩ := List.exists_of_mapM_eq_some hvs f hf
      obtain ⟨k, hk, hv⟩ := Option.bind_eq_some_iff.1 hv
      obtain ⟨w, hw, -⟩ := Option.bind_eq_some_iff.1 hv
      exact hx.elim (hone hk x) (hone hw x)
  · next members =>
    refine exists_endsAt_iff.2 fun x hx => ?_
    split at h
    · next hground =>
      rw [Term.vars, Term.listVars_of_allGround members hground] at hx
      cases hx
    · obtain ⟨vs, hvs, -⟩ := Option.bind_eq_some_iff.1 h
      exact hall hvs x hx
  · obtain ⟨v, hv, h⟩ := Option.bind_eq_some_iff.1 h
    obtain ⟨vs, hvs, -⟩ := Option.bind_eq_some_iff.1 h
    exact exists_endsAt_iff.2 fun x hx => (List.mem_append.1 hx).elim (hone hv x) (hall hvs x)
  · obtain ⟨v, hv, h⟩ := Option.bind_eq_some_iff.1 h
    obtain ⟨vs, hvs, -⟩ := Option.bind_eq_some_iff.1 h
    exact exists_endsAt_iff.2 fun x hx => (List.mem_append.1 hx).elim (hone hv x) (hall hvs x)
  · next hvar harray hobject hset href hcall =>
    cases t with
    | var x => exact absurd rfl (hvar x)
    | array items => exact absurd rfl (harray items)
    | object fields => exact absurd rfl (hobject fields)
    | set members => exact absurd rfl (hset members)
    | ref head operands => exact absurd rfl (href head operands)
    | call operator arguments => exact absurd rfl (hcall operator arguments)
    | _ => exact ⟨0, rfl⟩

theorem plugTo_of_isGround (h : t.isGround = true) (n : Nat) : b.plugTo n t = t := by
  cases n with
  | zero => rfl
  | succ n => rw [plugTo, if_pos h]

theorem plug_eq_plugTo (b : Bindings) (t : Term) : b.plug t = b.plugTo b.assignments.length t := by
  rw [plug]
  split
  · rfl
  · next hends =>
    have hnone : b.plugOn? t = none := by
      rw [Option.eq_none_iff_forall_ne_some]
      intro u hu
      obtain ⟨n, hn⟩ := exists_endsAt_of_plugOn? hu
      exact hends (endsAt_length hn)
    rw [hnone, Option.getD_none]

/-- A variable that is bound to a ground term stands for it. -/
theorem plug_of_bound (h : b.lookup x = some t) (ht : t.isGround = true) : b.plug (.var x) = t := by
  have hvar : t.isVar = false := by
    cases t <;> first | rfl | cases ht
  have hlength : b.assignments.length ≠ 0 := by
    intro hzero
    rw [lookup, List.eq_nil_of_length_eq_zero hzero] at h
    cases h
  obtain ⟨n, hn⟩ := Nat.exists_eq_succ_of_ne_zero hlength
  have hderef : b.deref (.var x) = t := by
    rw [deref_eq_follow, hn, follow_bound h]
    exact follow_of_not_isVar hvar n
  rw [plug_eq_plugTo, hn, plugTo, if_neg (by simp [Term.isGround]), Term.substitute, hderef]
  split
  · cases hvar
  · exact plugTo_of_isGround ht n

end Bindings
end PolicyEngine
