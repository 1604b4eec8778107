import Mathlib.Data.List.Zip
import Mathlib.Logic.Equiv.Basic
import PolicyEngine.Proofs.Descent

/-!
Unification is symmetric. Two unbound variables are bound in opposite directions when the sides change places, so from
then on one environment has the first variable where the other has the second. Up to such a renaming of variables the
environments stay the same, step by step, and nothing that unification looks at is sensitive to it.
-/
namespace PolicyEngine
namespace Term

/-! ## Renaming -/

/-- A term with its variables renamed. -/
def rename (ρ : Equiv.Perm String) (t : Term) : Term := t.substitute fun x => .var (ρ x)

variable {ρ : Equiv.Perm String} {t u : Term}

theorem Keyed.rename (h : t.Keyed) : (t.rename ρ).Keyed := h.substitute fun _ _ => .var

theorem Keyed.mem_vars_rename (h : t.Keyed) {x : String} : ρ x ∈ (t.rename ρ).vars ↔ x ∈ t.vars := by
  simp only [Term.rename, h.mem_vars_substitute, vars, List.mem_singleton, EmbeddingLike.apply_eq_iff_eq,
    exists_eq_right']

/-- Renaming back restores a term. -/
theorem Keyed.rename_symm (h : t.Keyed) : Same ((t.rename ρ).rename ρ.symm) t := by
  have hback : (fun x => (Term.var (ρ x)).substitute fun y => .var (ρ.symm y)) = .var :=
    funext fun x => congrArg Term.var (ρ.symm_apply_apply x)
  have hcompose := h.substitute_substitute (f := fun x => .var (ρ x)) (g := fun y => .var (ρ.symm y))
  rwa [hback, h.substitute_var] at hcompose

/-- Terms are equal if and only if they are equal when renamed. -/
theorem Keyed.same_rename (ht : t.Keyed) (hu : u.Keyed) : Same (t.rename ρ) (u.rename ρ) ↔ Same t u :=
  ⟨fun h => ht.rename_symm.symm.trans ((h.substitute _).trans hu.rename_symm), fun h => h.substitute _⟩

end Term

namespace Bindings

open Term (Same)

variable {b b₁ b₂ : Bindings} {ρ : Equiv.Perm String} {x y l : String} {t u v : Term}

/-! ## Mirrored environments -/

/-- Variables lead to the same value in both environments, or to unbound variables of which one is the other renamed. -/
structure Mirrored (ρ : Equiv.Perm String) (b₁ b₂ : Bindings) : Prop where
  first : b₁.Triangular
  second : b₂.Triangular
  wild : ρ wildcard = wildcard
  leads : ∀ x, (∃ u, b₁.deref (.var x) = .var u ∧ b₂.deref (.var x) = .var (ρ u)) ∨
    (b₁.deref (.var x)).isVar = false ∧ b₂.deref (.var x) = b₁.deref (.var x)

theorem Mirrored.refl (hb : b.Triangular) : Mirrored (.refl _) b b := by
  refine ⟨hb, hb, rfl, fun x => ?_⟩
  cases h : (b.deref (.var x)).isVar with
  | true =>
    obtain ⟨u, hu⟩ := Term.exists_of_isVar h
    exact .inl ⟨u, hu, hu⟩
  | false => exact .inr ⟨rfl, rfl⟩

namespace Mirrored

variable (h : Mirrored ρ b₁ b₂)

include h

theorem leads_term (t : Term) : (∃ u, b₁.deref t = .var u ∧ b₂.deref t = .var (ρ u)) ∨
    (b₁.deref t).isVar = false ∧ b₂.deref t = b₁.deref t := by
  cases ht : t.isVar with
  | true =>
    obtain ⟨x, rfl⟩ := Term.exists_of_isVar ht
    exact h.leads x
  | false =>
    rw [deref_of_not_isVar ht, deref_of_not_isVar ht]
    exact .inr ⟨ht, rfl⟩

theorem wild_iff {u : String} : ρ u = wildcard ↔ u = wildcard := by
  rw [← h.wild, EmbeddingLike.apply_eq_iff_eq, h.wild]

/-- Plugged in one environment, a term is renamed what it is plugged in the other. -/
theorem same_plug (ht : t.Keyed) : Same (b₂.plug t) ((b₁.plug t).rename ρ) := by
  obtain ⟨level, hl⟩ := h.first.acyclic.exists_levels
  have hterm : ∀ {t}, t.Keyed → (t.VarsIn fun x => Same (b₂.plug (.var x)) ((b₁.plug (.var x)).rename ρ)) →
      Same (b₂.plug t) ((b₁.plug t).rename ρ) := by
    intro t ht hvars
    rw [h.second.plug_eq_substitute ht, h.first.plug_eq_substitute ht]
    exact (ht.same_substitute hvars).trans ht.substitute_substitute.symm
  -- by levels of the first environment: a value is common to both, and its variables are below
  have hvar : ∀ n x, level x < n → Same (b₂.plug (.var x)) ((b₁.plug (.var x)).rename ρ) := by
    intro n
    induction n with
    | zero => exact fun x hx => absurd hx (Nat.not_lt_zero _)
    | succ n ih =>
      intro x hx
      rw [← h.first.plug_deref, ← h.second.plug_deref]
      rcases h.leads x with ⟨u, hu₁, hu₂⟩ | ⟨hvalue, hsame⟩
      · rw [hu₁, hu₂, plug_unbound (h.first.acyclic.lookup_of_deref hu₁),
          plug_unbound (h.second.acyclic.lookup_of_deref hu₂)]
        exact .refl _
      · rw [hsame]
        exact hterm (h.first.keyed.deref h.first.acyclic .var) fun y hy =>
          ih y (hl.deref h.first.acyclic hvalue (Nat.le_of_lt_succ hx) y hy)
  exact hterm ht fun x _ => hvar _ x (Nat.lt_succ_self _)

theorem mem_vars_plug (ht : t.Keyed) : ρ x ∈ (b₂.plug t).vars ↔ x ∈ (b₁.plug t).vars := by
  rw [(h.same_plug ht).vars_eq, (h.first.keyed_plug ht).mem_vars_rename]

/-- Equality of plugged terms is alike in both environments. -/
theorem same_plug_iff (ht : t.Keyed) (hu : u.Keyed) :
    Same (b₁.plug t) (b₁.plug u) ↔ Same (b₂.plug t) (b₂.plug u) := by
  rw [← (h.first.keyed_plug ht).same_rename (h.first.keyed_plug hu) (ρ := ρ)]
  exact ⟨fun hE => (h.same_plug ht).trans (hE.trans (h.same_plug hu).symm),
    fun hE => (h.same_plug ht).symm.trans (hE.trans (h.same_plug hu))⟩

end Mirrored

/-! ## Binding on both sides -/

/-- Once an unbound variable is bound to a term at the end, what led to the variable leads to the term, and nothing else
changes. -/
theorem Triangular.deref_assign (hb : b.Triangular) (hl : b.lookup l = none) (ht : b.deref t = t) (hne : t ≠ .var l)
    (hb' : (b.assign l (some t)).Acyclic) (u : Term) :
    (b.deref u = .var l → (b.assign l (some t)).deref u = t) ∧
      (b.deref u ≠ .var l → (b.assign l (some t)).deref u = b.deref u) := by
  have hend : (b.assign l (some t)).deref t = t := by
    cases hvar : t.isVar with
    | false => exact deref_of_not_isVar hvar
    | true =>
      obtain ⟨r, rfl⟩ := Term.exists_of_isVar hvar
      refine deref_unbound ?_
      rw [lookup_assign, if_neg (by rintro rfl; exact hne rfl)]
      exact hb.acyclic.lookup_of_deref ht
  refine hb.acyclic.deref_induction (P := fun u d => (d = .var l → (b.assign l (some t)).deref u = t) ∧
    (d ≠ .var l → (b.assign l (some t)).deref u = d)) (fun x hx => ⟨fun hxl => ?_, fun hxl => ?_⟩)
    (fun v hv => ⟨?_, fun _ => deref_of_not_isVar hv⟩) (fun x v d hx ih => ?_) u
  · obtain rfl := Term.var.inj hxl
    rw [hb'.deref_bound (by rw [lookup_assign, if_pos rfl]), hend]
  · refine deref_unbound ?_
    rw [lookup_assign, if_neg (by rintro rfl; exact hxl rfl), hx]
  · rintro rfl
    cases hv
  · rwa [hb'.deref_bound (lookup_assign_of_lookup hl hx _)]

/-- Two runs end alike: both fail, or the environments are mirrored. -/
def BothEnd : Option Bindings → Option Bindings → Prop
  | some b₁, some b₂ => ∃ ρ, Mirrored ρ b₁ b₂
  | none, none => True
  | _, _ => False

namespace Mirrored

variable (h : Mirrored ρ b₁ b₂)

include h

/-- A variable at the end is bound to the same value on both sides, or on neither. -/
theorem bothEnd_bind_value (hl : b₁.lookup l = none) (hl' : b₂.lookup (ρ l) = none) (hv : v.Keyed)
    (hvar : v.isVar = false) : BothEnd (b₁.bind l v) (b₂.bind (ρ l) v) := by
  by_cases hwild : l = wildcard
  · rw [bind, bind, if_pos (by simpa using hwild), if_pos (by simpa using h.wild_iff.2 hwild)]
    exact ⟨ρ, h⟩
  have hwild' : ρ l ≠ wildcard := fun hw => hwild (h.wild_iff.1 hw)
  by_cases hocc : l ∈ (b₁.plug v).vars
  · rw [bind_of_mem hwild hocc, bind_of_mem hwild' ((h.mem_vars_plug hv).2 hocc)]
    trivial
  have hocc' : ρ l ∉ (b₂.plug v).vars := fun hmem => hocc ((h.mem_vars_plug hv).1 hmem)
  rw [bind_of_not_mem hwild hocc, bind_of_not_mem hwild' hocc']
  have h₁ := h.first.assign hl hv hocc
  have h₂ := h.second.assign hl' hv hocc'
  have hne : ∀ z, v ≠ .var z := by
    rintro z rfl
    cases hvar
  refine ⟨ρ, h₁, h₂, h.wild, fun x => ?_⟩
  have hd₁ := h.first.deref_assign hl (deref_of_not_isVar hvar) (hne l) h₁.acyclic (.var x)
  have hd₂ := h.second.deref_assign hl' (deref_of_not_isVar hvar) (hne (ρ l)) h₂.acyclic (.var x)
  rcases h.leads x with ⟨u, hu₁, hu₂⟩ | ⟨hvalue, hsame⟩
  · by_cases hul : u = l
    · subst hul
      rw [hd₁.1 hu₁, hd₂.1 hu₂]
      exact .inr ⟨hvar, rfl⟩
    · rw [hd₁.2 (by simpa [hu₁] using hul), hd₂.2 (by simpa [hu₂] using hul)]
      exact .inl ⟨u, hu₁, hu₂⟩
  · have hend : ∀ z, b₁.deref (.var x) ≠ .var z := fun z hz => by
      rw [hz] at hvalue
      cases hvalue
    rw [hd₁.2 (hend l), hd₂.2 (hsame ▸ hend (ρ l))]
    exact .inr ⟨hvalue, hsame⟩

/-- Of two variables at the end each side binds the other one. -/
theorem bothEnd_bind_var {r : String} (hl : b₁.lookup l = none) (hr : b₁.lookup r = none)
    (hl' : b₂.lookup (ρ l) = none) (hr' : b₂.lookup (ρ r) = none) (hlr : l ≠ r) (hlw : l ≠ wildcard)
    (hrw : r ≠ wildcard) : BothEnd (b₁.bind l (.var r)) (b₂.bind (ρ r) (.var (ρ l))) := by
  have hocc : l ∉ (b₁.plug (.var r)).vars := by
    rw [plug_unbound hr]
    simpa using hlr
  have hocc' : ρ r ∉ (b₂.plug (.var (ρ l))).vars := by
    rw [plug_unbound hl']
    simpa using Ne.symm hlr
  rw [bind_of_not_mem hlw hocc, bind_of_not_mem (fun hw => hrw (h.wild_iff.1 hw)) hocc']
  have h₁ := h.first.assign hl .var hocc
  have h₂ := h.second.assign hr' .var hocc'
  refine ⟨(Equiv.swap l r).trans ρ, h₁, h₂, ?_, fun x => ?_⟩
  · rw [Equiv.trans_apply, Equiv.swap_apply_of_ne_of_ne hlw.symm hrw.symm, h.wild]
  have hd₁ := h.first.deref_assign hl (deref_unbound hr) (by simpa using Ne.symm hlr) h₁.acyclic (.var x)
  have hd₂ := h.second.deref_assign hr' (deref_unbound hl') (by simpa using hlr) h₂.acyclic (.var x)
  rcases h.leads x with ⟨u, hu₁, hu₂⟩ | ⟨hvalue, hsame⟩
  · by_cases hul : u = l
    · subst hul
      rw [hd₁.1 hu₁, hd₂.2 (by simpa [hu₂] using hlr), hu₂]
      exact .inl ⟨r, rfl, by rw [Equiv.trans_apply, Equiv.swap_apply_right]⟩
    · rw [hd₁.2 (by simpa [hu₁] using hul), hu₁]
      by_cases hur : u = r
      · subst hur
        rw [hd₂.1 hu₂]
        exact .inl ⟨u, rfl, by rw [Equiv.trans_apply, Equiv.swap_apply_right]⟩
      · rw [hd₂.2 (by simpa [hu₂] using hur), hu₂]
        exact .inl ⟨u, rfl, by rw [Equiv.trans_apply, Equiv.swap_apply_of_ne_of_ne hul hur]⟩
  · have hend : ∀ z, b₁.deref (.var x) ≠ .var z := fun z hz => by
      rw [hz] at hvalue
      cases hvalue
    rw [hd₁.2 (hend l), hd₂.2 (hsame ▸ hend (ρ r))]
    exact .inr ⟨hvalue, hsame⟩

end Mirrored

/-! ## Unifying with the sides exchanged -/

theorem Mirrored.bothEnd (h : Mirrored ρ b₁ b₂) : BothEnd (some b₁) (some b₂) := ⟨ρ, h⟩

theorem Mirrored.bothEnd_if (h : Mirrored ρ b₁ b₂) {c c' : Bool} (hc : c = c') :
    BothEnd (if c then some b₁ else none) (if c' then some b₂ else none) := by
  subst hc
  cases c with
  | false => trivial
  | true => exact h.bothEnd

/-- Pairs are unified alike in turn, if what is compared beforehand agrees. -/
theorem Mirrored.bothEnd_foldlM {β : Type} {f g : Bindings → β → Option Bindings} {ps : List β} (h : Mirrored ρ b₁ b₂)
    (hp : ∀ p ∈ ps, ∀ ρ b₁ b₂, Mirrored ρ b₁ b₂ → BothEnd (f b₁ p) (g b₂ p)) {c c' : Bool} (hc : c = c') :
    BothEnd (if c then ps.foldlM f b₁ else none) (if c' then ps.foldlM g b₂ else none) := by
  subst hc
  cases c with
  | false => trivial
  | true =>
    change BothEnd (ps.foldlM f b₁) (ps.foldlM g b₂)
    induction ps generalizing ρ b₁ b₂ with
    | nil => exact h.bothEnd
    | cons p rest ih =>
      rw [List.forall_mem_cons] at hp
      have hfirst := hp.1 ρ b₁ b₂ h
      rw [List.foldlM_cons, List.foldlM_cons]
      revert hfirst
      rcases f b₁ p with _ | c₁ <;> rcases g b₂ p with _ | c₂
      · exact fun _ => trivial
      · exact False.elim
      · exact False.elim
      · rintro ⟨ρ', h'⟩
        exact ih h' hp.2

/-- In mirrored environments two terms are unified alike when they change places. -/
theorem unifyTo_bothEnd (n : Nat) (h : Mirrored ρ b₁ b₂) (hx : t.Keyed) (hy : u.Keyed) :
    BothEnd (unifyTo n t u b₁) (unifyTo n u t b₂) := by
  -- where the depth ends both sides fail, so no bound on it is needed here
  induction n generalizing ρ b₁ b₂ t u with
  | zero => trivial
  | succ n ih =>
    have hxk : (b₁.deref t).Keyed := h.first.keyed.deref h.first.acyclic hx
    have hyk : (b₁.deref u).Keyed := h.first.keyed.deref h.first.acyclic hy
    rcases h.leads_term t with ⟨l, hl₁, hl₂⟩ | ⟨hvx, hsx⟩ <;> rcases h.leads_term u with ⟨r, hr₁, hr₂⟩ | ⟨hvy, hsy⟩
    · have hsame : (ρ r == ρ l || ρ r == wildcard || ρ l == wildcard) = (l == r || l == wildcard || r == wildcard) := by
        rw [Bool.eq_iff_iff]
        simp only [Bool.or_eq_true, beq_iff_eq, EmbeddingLike.apply_eq_iff_eq, h.wild_iff, eq_comm (a := r) (b := l)]
        tauto
      rw [unifyTo_vars hl₁ hr₁, unifyTo_vars hr₂ hl₂, hsame]
      split
      · exact h.bothEnd
      · next hend =>
        simp only [Bool.or_eq_true, beq_iff_eq, not_or] at hend
        exact h.bothEnd_bind_var (h.first.acyclic.lookup_of_deref hl₁) (h.first.acyclic.lookup_of_deref hr₁)
          (h.second.acyclic.lookup_of_deref hl₂) (h.second.acyclic.lookup_of_deref hr₂) hend.1.1 hend.1.2 hend.2
    · rw [unifyTo_left hl₁ hvy, unifyTo_right (hsy ▸ hvy) hl₂, hsy]
      exact h.bothEnd_bind_value (h.first.acyclic.lookup_of_deref hl₁) (h.second.acyclic.lookup_of_deref hl₂) hyk hvy
    · rw [unifyTo_right hvx hr₁, unifyTo_left hr₂ (hsx ▸ hvx), hsx]
      exact h.bothEnd_bind_value (h.first.acyclic.lookup_of_deref hr₁) (h.second.acyclic.lookup_of_deref hr₂) hxk hvx
    · generalize hxd : b₁.deref t = x' at *
      generalize hyd : b₁.deref u = y' at *
      cases meeting x' y' with
      | vars => cases hvx
      | left => cases hvx
      | right => cases hvy
      | arrays l r =>
        rw [unifyTo_arrays hxd hyd, unifyTo_arrays hsy hsx, ← List.zip_swap l r, List.foldlM_map]
        refine h.bothEnd_foldlM (fun p hp ρ b₁ b₂ h => ?_) (Bool.beq_comm ..)
        exact ih h (hxk.item (List.of_mem_zip hp).1) (hyk.item (List.of_mem_zip hp).2)
      | objects l r =>
        have hl : ∀ p ∈ l, p.1.isGround = true := fun p hp => (hxk.field hp).1
        have hr : ∀ p ∈ r, p.1.isGround = true := fun p hp => (hyk.field hp).1
        have hkeys : (fun p : (Term × Term) × Term × Term => p.1.1 == p.2.1) ∘ Prod.swap = fun p => p.1.1 == p.2.1 :=
          funext fun p => BEq.comm
        rw [unifyTo_objects hxd hyd (plugKeys_eq hl) (plugKeys_eq hr),
          unifyTo_objects hsy hsx (plugKeys_eq hr) (plugKeys_eq hl), ← List.zip_swap (Term.sortFields l),
          List.foldlM_map, List.all_map, hkeys, Bool.beq_comm (a := (Term.sortFields r).length)]
        refine h.bothEnd_foldlM (fun p hp ρ b₁ b₂ h => ?_) rfl
        exact ih h (hxk.field (Term.mem_sortFields (List.of_mem_zip hp).1)).2
          (hyk.field (Term.mem_sortFields (List.of_mem_zip hp).2)).2
      | sets l r =>
        rw [unifyTo_sets hxd hyd, unifyTo_sets hsy hsx]
        refine h.bothEnd_if (Bool.eq_iff_iff.2 ?_)
        exact (h.same_plug_iff hxk hyk).trans ⟨Same.symm, Same.symm⟩
      | others _ _ hkind =>
        have hkind' : y'.isCollection = true → y'.rank ≠ x'.rank := by
          intro hy hrank
          rw [Term.isCollection_eq_rank, hrank, ← Term.isCollection_eq_rank] at hy
          exact hkind hy hrank.symm
        rw [unifyTo_others (hxd ▸ hvx) (hyd ▸ hvy) (hxd ▸ hyd ▸ hkind),
          unifyTo_others (hsy ▸ hvy) (hsx ▸ hvx) (hsx ▸ hsy ▸ hkind'), hxd, hyd, hsx, hsy]
        exact h.bothEnd_if BEq.comm

/-- Unification is symmetric, up to the names of variables. -/
theorem unify_symmetric (hb : b.Acyclic) (hvalues : b.Values Term.Keyed) (ht : t.Keyed) (hu : u.Keyed) :
    (b.unify t u).isSome = (b.unify u t).isSome ∧
    ∀ b₁ b₂, b.unify t u = some b₁ → b.unify u t = some b₂ →
      ∃ ρ : Equiv.Perm String, ∀ x, (b₂.plug (.var x) == (b₁.plug (.var x)).substitute fun y => .var (ρ y)) = true := by
  have hends : BothEnd (b.unify t u) (b.unify u t) := by
    rw [unify, unify, Nat.add_comm u.size]
    exact unifyTo_bothEnd _ (.refl ⟨hb, hvalues⟩) ht hu
  constructor
  · revert hends
    rcases b.unify t u with _ | b₁ <;> rcases b.unify u t with _ | b₂
    · exact fun _ => rfl
    · exact False.elim
    · exact False.elim
    · exact fun _ => rfl
  · intro b₁ b₂ h₁ h₂
    rw [h₁, h₂] at hends
    obtain ⟨ρ, h⟩ := hends
    exact ⟨ρ, fun x => h.same_plug .var⟩

/-! ### Two variables beside a set -/

namespace Sides

/-- A variable stands for a set of one variable. -/
def environment : Bindings := ({} : Bindings).assign "s" (some (.set [.var "a"]))

def reference : Term := .ref (.var "data") [.var "c"]

def left : Term := .array [.var "a", .var "s", reference, .var wildcard]

def right : Term := .array [.var "b", .set [.var "b"], reference, .setCompr (.var "c") []]

theorem acyclic : environment.Acyclic := by
  refine acyclic_of_rank (fun x => if x = "s" then 1 else 0) ?_
  rintro x y ⟨t, hx, hy⟩
  simp only [environment, lookup_assign] at hx
  split_ifs at hx with hs <;> cases hx
  obtain rfl : y = "a" := List.mem_singleton.1 hy
  subst hs
  decide

theorem keyed_singleton (x : String) : (Term.set [.var x]).Keyed :=
  .set (List.pairwise_singleton _ _) (List.forall_mem_singleton.2 .var)

theorem keyed_reference : reference.Keyed := .ref .var (List.forall_mem_singleton.2 .var)

theorem values_keyed : environment.Values Term.Keyed := by
  intro x t hx
  simp only [environment, lookup_assign] at hx
  split_ifs at hx <;> cases hx
  exact keyed_singleton "a"

theorem keyed_left : left.Keyed := by
  refine .array ?_
  simp only [List.forall_mem_cons]
  exact ⟨.var, .var, keyed_reference, .var, List.forall_mem_nil _⟩

theorem keyed_right : right.Keyed := by
  refine .array ?_
  simp only [List.forall_mem_cons]
  exact ⟨.var, keyed_singleton "b", keyed_reference, .ground rfl, List.forall_mem_nil _⟩

/-- Either variable comes to stand for the other one, depending on the side it is on. -/
theorem unify_sides : ∃ b₁ b₂, environment.unify left right = some b₁ ∧ environment.unify right left = some b₂ ∧
    (b₁.plug (.var "a") == .var "b") = true ∧ (b₂.plug (.var "a") == .var "a") = true ∧
    ∃ ρ : Equiv.Perm String, ∀ x,
      (b₂.plug (.var x) == (b₁.plug (.var x)).substitute fun y => .var (ρ y)) = true := by
  obtain ⟨hsome, hplug⟩ := unify_symmetric acyclic values_keyed keyed_left keyed_right
  obtain ⟨b₁, h₁⟩ : ∃ b₁, environment.unify left right = some b₁ := Option.isSome_iff_exists.1 (by decide +kernel)
  obtain ⟨b₂, h₂⟩ : ∃ b₂, environment.unify right left = some b₂ := by
    rw [h₁] at hsome
    exact Option.isSome_iff_exists.1 hsome.symm
  have hfirst : (environment.unify left right).all fun b => b.plug (.var "a") == .var "b" := by decide +kernel
  have hsecond : (environment.unify right left).all fun b => b.plug (.var "a") == .var "a" := by decide +kernel
  rw [h₁] at hfirst
  rw [h₂] at hsecond
  exact ⟨b₁, b₂, h₁, h₂, hfirst, hsecond, hplug b₁ b₂ h₁ h₂⟩

end Sides
end Bindings
end PolicyEngine
