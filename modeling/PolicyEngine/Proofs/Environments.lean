import Mathlib.Data.Finset.Card
import Mathlib.Data.List.Dedup
import Mathlib.Logic.Relation
import PolicyEngine.Proofs.Substitution

/-!
Acyclic environments, in which no variable depends on itself. Following variables ends at an unbound variable or a
value, and plugging is a substitution, the same at all depths: what the environment stands for as a whole.
-/
namespace PolicyEngine

namespace Bindings

open Relation

/-! ## Dependence -/

/-- A variable occurs in the value of another. -/
def Uses (b : Bindings) (x y : String) : Prop := ∃ t, b.lookup x = some t ∧ y ∈ t.vars

/-- No variable depends on itself. -/
def Acyclic (b : Bindings) : Prop := ∀ x, ¬TransGen b.Uses x x

/-- All values have a property. -/
def Values (V : Term → Prop) (b : Bindings) : Prop := ∀ x t, b.lookup x = some t → V t

variable {b b' : Bindings} {x y : String} {t u : Term}

theorem acyclic_of_rank (rank : String → Nat) (h : ∀ x y, b.Uses x y → rank y < rank x) : b.Acyclic := by
  have hlt : ∀ {x y}, TransGen b.Uses x y → rank y < rank x := by
    intro x y hxy
    induction hxy with
    | single hxy => exact h _ _ hxy
    | tail _ hyz ih => exact (h _ _ hyz).trans ih
  exact fun x hx => lt_irrefl _ (hlt hx)

theorem lookup_assign (b : Bindings) (x y : String) (value : Option Term) :
    (b.assign x value).lookup y = if x = y then value else b.lookup y := by
  by_cases h : x = y <;> simp [lookup, assign, h]

/-- Binding an unbound variable leaves the other bindings. -/
theorem lookup_assign_of_lookup (hx : b.lookup x = none) (hy : b.lookup y = some t) (value : Option Term) :
    (b.assign x value).lookup y = some t := by
  rw [lookup_assign, if_neg, hy]
  rintro rfl
  rw [hx] at hy
  cases hy

theorem Values.assign {V : Term → Prop} (hV : b.Values V) (ht : V t) : (b.assign x (some t)).Values V := by
  intro z u hu
  rw [lookup_assign] at hu
  split at hu
  · exact Option.some.inj hu ▸ ht
  · exact hV z u hu

/-- Levels of the variables: a bound variable is above the variables in its value, and no level is above the number of
assignments. -/
structure Levels (b : Bindings) (level : String → Nat) : Prop where
  le_length : ∀ x, level x ≤ b.assignments.length
  pos : ∀ {x t}, b.lookup x = some t → 0 < level x
  lt : ∀ {x t y}, b.lookup x = some t → y ∈ t.vars → level y < level x

open Classical in
/-- The level of a variable is the number of bound variables that it depends on, itself included. -/
theorem Acyclic.exists_levels (h : b.Acyclic) : ∃ level, b.Levels level := by
  let names := (b.assignments.map Prod.fst).toFinset
  refine ⟨fun x => (names.filter fun z => ReflTransGen b.Uses x z ∧ (b.lookup z).isSome).card, ?_, ?_, ?_⟩
  · intro x
    exact (Finset.card_filter_le _ _).trans ((List.toFinset_card_le _).trans_eq (List.length_map _))
  · intro x t hx
    exact Finset.card_pos.2 ⟨x, Finset.mem_filter.2 ⟨mem_assignments_of_lookup hx, .refl, by rw [hx]; rfl⟩⟩
  · intro x t y hx hy
    have huse : b.Uses x y := ⟨t, hx, hy⟩
    refine Finset.card_lt_card ((Finset.ssubset_iff_of_subset ?_).2 ⟨x, ?_, ?_⟩)
    · intro z hz
      obtain ⟨hz, hyz, hbound⟩ := Finset.mem_filter.1 hz
      exact Finset.mem_filter.2 ⟨hz, hyz.head huse, hbound⟩
    · exact Finset.mem_filter.2 ⟨mem_assignments_of_lookup hx, .refl, by rw [hx]; rfl⟩
    · intro hxy
      exact h x (.head' huse (Finset.mem_filter.1 hxy).2.1)

/-- What holds of a variable if it holds of all variables in its value holds of every variable. -/
theorem Acyclic.induction (hb : b.Acyclic) {P : String → Prop} (step : ∀ x, (∀ y, b.Uses x y → P y) → P x)
    (x : String) : P x := by
  obtain ⟨level, hl⟩ := hb.exists_levels
  induction hx : level x using Nat.strong_induction_on generalizing x with
  | _ n ih => exact step x fun y ⟨t, ht, hy⟩ => ih _ (hx ▸ hl.lt ht hy) y rfl

/-! ## Following variables -/

theorem Levels.follow_succ {level : String → Nat} (hl : b.Levels level) {n : Nat} (h : level x ≤ n) :
    b.follow (n + 1) (.var x) = b.follow n (.var x) := by
  induction n generalizing x with
  | zero =>
    cases hx : b.lookup x with
    | none => rw [follow_unbound hx, follow_unbound hx]
    | some t => exact absurd h (hl.pos hx).not_ge
  | succ n ih =>
    rw [follow, follow]
    cases hx : b.lookup x with
    | none => rfl
    | some t =>
      cases hvar : t.isVar with
      | true =>
        obtain ⟨y, rfl⟩ := Term.exists_of_isVar hvar
        exact ih (Nat.le_of_lt_succ ((hl.lt hx (List.mem_singleton_self y)).trans_le h))
      | false => exact (follow_of_not_isVar hvar _).trans (follow_of_not_isVar hvar _).symm

theorem Acyclic.deref_bound (hb : b.Acyclic) (h : b.lookup x = some t) : b.deref (.var x) = b.deref t := by
  obtain ⟨level, hl⟩ := hb.exists_levels
  obtain ⟨n, hn⟩ := Nat.exists_eq_succ_of_ne_zero ((hl.pos h).trans_le (hl.le_length x)).ne'
  have hx : level x ≤ n + 1 := (hl.le_length x).trans_eq hn
  rw [deref_eq_follow, deref_eq_follow, hn, follow_bound h]
  cases hvar : t.isVar with
  | true =>
    obtain ⟨y, rfl⟩ := Term.exists_of_isVar hvar
    exact (hl.follow_succ (Nat.le_of_lt_succ ((hl.lt h (List.mem_singleton_self y)).trans_le hx))).symm
  | false => exact (follow_of_not_isVar hvar _).trans (follow_of_not_isVar hvar _).symm

/-- What holds of terms other than bound variables, and is handed on from the value of a variable to the variable, holds
of every term and where it leads. -/
theorem Acyclic.deref_induction (hb : b.Acyclic) {P : Term → Term → Prop}
    (unbound : ∀ x, b.lookup x = none → P (.var x) (.var x)) (value : ∀ t, t.isVar = false → P t t)
    (bound : ∀ x t u, b.lookup x = some t → P t u → P (.var x) u) (t : Term) : P t (b.deref t) := by
  have hvar : ∀ x, P (.var x) (b.deref (.var x)) := by
    refine hb.induction fun x ih => ?_
    cases hlookup : b.lookup x with
    | none => exact (deref_unbound hlookup).symm ▸ unbound x hlookup
    | some t =>
      rw [hb.deref_bound hlookup]
      refine bound x t _ hlookup ?_
      cases hvar : t.isVar with
      | false => exact (deref_of_not_isVar hvar).symm ▸ value t hvar
      | true =>
        obtain ⟨y, rfl⟩ := Term.exists_of_isVar hvar
        exact ih y ⟨_, hlookup, List.mem_singleton_self y⟩
  cases ht : t.isVar with
  | false => exact (deref_of_not_isVar ht).symm ▸ value t ht
  | true =>
    obtain ⟨x, rfl⟩ := Term.exists_of_isVar ht
    exact hvar x

/-- A variable at the end is unbound. -/
theorem Acyclic.lookup_of_deref (hb : b.Acyclic) (h : b.deref t = .var x) : b.lookup x = none := by
  suffices hend : ∀ y, b.deref t = .var y → b.lookup y = none from hend x h
  refine hb.deref_induction (P := fun _ u => ∀ y, u = .var y → b.lookup y = none) ?_ ?_ (fun _ _ _ _ => id) t
  · rintro x hx _ ⟨⟩
    exact hx
  · rintro _ ht y rfl
    cases ht

theorem Values.deref {V : Term → Prop} (hV : b.Values V) (hb : b.Acyclic) (ht : V t) : V (b.deref t) :=
  hb.deref_induction (P := fun t u => V t → V u) (fun _ _ => id) (fun _ _ => id)
    (fun x t _ hx ih _ => ih (hV x t hx)) t ht

/-- On the way from a variable to a value the level falls. -/
theorem Levels.deref {level : String → Nat} (hl : b.Levels level) (hb : b.Acyclic) {n : Nat}
    (h : (b.deref (.var x)).isVar = false) (hx : level x ≤ n) : (b.deref (.var x)).VarsIn fun y => level y < n := by
  have hdown : ∀ t, (t.VarsIn fun y => level y < n) → (b.deref t).VarsIn fun y => level y < n := by
    refine hb.deref_induction (P := fun t u => (t.VarsIn fun y => level y < n) → u.VarsIn fun y => level y < n)
      (fun _ _ => id) (fun _ _ => id) fun x t u hlookup ih hx => ih fun y hy => ?_
    exact (hl.lt hlookup hy).trans (Term.varsIn_var.1 hx)
  cases hlookup : b.lookup x with
  | none =>
    rw [deref_unbound hlookup] at h
    cases h
  | some t =>
    rw [hb.deref_bound hlookup]
    exact hdown t fun y hy => (hl.lt hlookup hy).trans_le hx

/-! ## Plugging -/

/-- An environment in which no variable depends on itself and all objects have ground keys. -/
structure Triangular (b : Bindings) : Prop where
  acyclic : b.Acyclic
  keyed : b.Values Term.Keyed

/-- The substitution that an environment stands for. -/
def substitution (b : Bindings) (x : String) : Term := b.plug (.var x)

theorem plugTo_unbound (h : b.lookup x = none) (n : Nat) : b.plugTo n (.var x) = .var x := by
  cases n with
  | zero => rfl
  | succ n => simp [plugTo, Term.isGround, Term.substitute, deref_unbound h]

namespace Triangular

variable (hb : b.Triangular)

include hb

theorem plugTo_succ_eq (n : Nat) : b.plugTo (n + 1) t = t.substitute fun x => b.plugTo n (b.deref (.var x)) := by
  rw [plugTo]
  split
  · next hground => rw [Term.substitute_of_isGround t hground]
  · congr 1
    funext x
    split
    · next u hu => rw [hu, plugTo_unbound (hb.acyclic.lookup_of_deref hu)]
    · rfl

/-- Plugging deeper than the levels of the variables changes nothing. -/
theorem plugTo_succ {level : String → Nat} (hl : b.Levels level) {n : Nat} (ht : t.Keyed)
    (hn : t.VarsIn fun x => level x ≤ n) : b.plugTo (n + 1) t = b.plugTo n t := by
  induction n generalizing t with
  | zero =>
    rw [hb.plugTo_succ_eq, plugTo]
    refine (ht.substitute_congr fun x hx => ?_).trans ht.substitute_var
    cases hlookup : b.lookup x with
    | none => rw [deref_unbound hlookup, plugTo]
    | some u => exact absurd (hn x hx) (hl.pos hlookup).not_ge
  | succ n ih =>
    rw [hb.plugTo_succ_eq, hb.plugTo_succ_eq]
    refine ht.substitute_congr fun x hx => ?_
    cases hvar : (b.deref (.var x)).isVar with
    | true =>
      obtain ⟨u, hd⟩ := Term.exists_of_isVar hvar
      have hu := hb.acyclic.lookup_of_deref hd
      rw [hd, plugTo_unbound hu, plugTo_unbound hu]
    | false =>
      refine ih (hb.keyed.deref hb.acyclic .var) fun y hy => Nat.le_of_lt_succ ?_
      exact hl.deref hb.acyclic hvar (hn x hx) y hy

theorem plug_eq (ht : t.Keyed) : b.plug t = t.substitute fun x => b.plug (b.deref (.var x)) := by
  obtain ⟨level, hl⟩ := hb.acyclic.exists_levels
  simp only [plug_eq_plugTo]
  rw [← hb.plugTo_succ hl ht fun x _ => hl.le_length x, hb.plugTo_succ_eq]

/-- A variable is plugged like where it leads. -/
theorem plug_deref : b.plug (b.deref t) = b.plug t := by
  cases hvar : t.isVar with
  | false => rw [deref_of_not_isVar hvar]
  | true =>
    obtain ⟨x, rfl⟩ := Term.exists_of_isVar hvar
    rw [hb.plug_eq .var, Term.substitute]

theorem plug_bound (h : b.lookup x = some t) : b.plug (.var x) = b.plug t := by
  rw [← hb.plug_deref, hb.acyclic.deref_bound h, hb.plug_deref]

/-- To plug a term is to put in place of its variables what the environment stands for. -/
theorem plug_eq_substitute (ht : t.Keyed) : b.plug t = t.substitute b.substitution := by
  rw [hb.plug_eq ht]
  congr 1
  funext x
  exact hb.plug_deref

end Triangular

theorem plug_unbound (h : b.lookup x = none) : b.plug (.var x) = .var x := by
  rw [plug_eq_plugTo, plugTo_unbound h]

theorem Triangular.keyed_plug (hb : b.Triangular) (ht : t.Keyed) : (b.plug t).Keyed := by
  have hvar : ∀ x, (b.plug (.var x)).Keyed := by
    refine hb.acyclic.induction fun x ih => ?_
    cases hx : b.lookup x with
    | none =>
      rw [plug_unbound hx]
      exact .var
    | some u =>
      have hu := hb.keyed x u hx
      rw [hb.plug_bound hx, hb.plug_eq_substitute hu]
      exact hu.substitute fun y hy => ih y ⟨u, hx, hy⟩
  rw [hb.plug_eq_substitute ht]
  exact ht.substitute fun x _ => hvar x

theorem plug_of_isGround (h : t.isGround = true) : b.plug t = t := by
  rw [plug_eq_plugTo, plugTo_of_isGround h]

/-! ## Binding variables -/

/-- An unbound variable may be bound to a term in which it does not occur, plugged. -/
theorem Triangular.assign (hb : b.Triangular) (hx : b.lookup x = none) (ht : t.Keyed) (hocc : x ∉ (b.plug t).vars) :
    (b.assign x (some t)).Triangular := by
  obtain ⟨level, hl⟩ := hb.acyclic.exists_levels
  have hplug : ∀ {u y}, u.Keyed → y ∈ u.vars → x ∈ (b.plug (.var y)).vars → x ∈ (b.plug u).vars := by
    intro u y hu hy hxy
    rw [hb.plug_eq_substitute hu, hu.mem_vars_substitute]
    exact ⟨y, hy, hxy⟩
  -- variables that depend on `x` are lifted above all others
  let rank : String → Nat := fun y =>
    if x ∈ (b.plug (.var y)).vars then level y + b.assignments.length + 1 else level y
  refine ⟨acyclic_of_rank rank ?_, ?_⟩
  · rintro z y ⟨u, hu, hy⟩
    rw [lookup_assign] at hu
    split at hu
    · next hxz =>
      obtain rfl : t = u := Option.some.inj hu
      have hself : x ∈ (b.plug (.var z)).vars := by
        rw [← hxz, plug_unbound hx]
        exact List.mem_singleton_self x
      simp only [rank, if_pos hself, if_neg fun hxy => hocc (hplug ht hy hxy)]
      have := hl.le_length y
      omega
    · have hlt := hl.lt hu hy
      by_cases hxy : x ∈ (b.plug (.var y)).vars
      · have hxz : x ∈ (b.plug (.var z)).vars := by
          rw [hb.plug_bound hu]
          exact hplug (hb.keyed z u hu) hy hxy
        simp only [rank, if_pos hxy, if_pos hxz]
        omega
      · simp only [rank, if_neg hxy]
        split <;> omega
  · exact hb.keyed.assign ht

/-! ## Solutions -/

/-- A substitution gives every bound variable what it gives the value of the variable. -/
def Solves (σ : String → Term) (b : Bindings) : Prop := ∀ x t, b.lookup x = some t → Term.Same (σ x) (t.substitute σ)

theorem solves_assign {σ : String → Term} (hx : b.lookup x = none) :
    Solves σ (b.assign x (some t)) ↔ Solves σ b ∧ Term.Same (σ x) (t.substitute σ) := by
  refine ⟨fun hσ => ⟨fun y u hy => ?_, hσ x t (by rw [lookup_assign, if_pos rfl])⟩, fun ⟨hσ, hxt⟩ y u hy => ?_⟩
  · exact hσ y u (lookup_assign_of_lookup hx hy _)
  · rw [lookup_assign] at hy
    split at hy
    · next hxy => exact hxy ▸ Option.some.inj hy ▸ hxt
    · exact hσ y u hy

theorem Triangular.solves_substitution (hb : b.Triangular) : Solves b.substitution b := by
  intro x t hx
  rw [← hb.plug_eq_substitute (hb.keyed x t hx), substitution, hb.plug_bound hx]
  exact .refl _

/-- A solution gives a term what it gives the term that variables lead to. -/
theorem Solves.same_deref {σ : String → Term} (hσ : Solves σ b) (hb : b.Acyclic) (t : Term) :
    Term.Same (t.substitute σ) ((b.deref t).substitute σ) :=
  hb.deref_induction (P := fun t u => Term.Same (t.substitute σ) (u.substitute σ)) (fun _ _ => .refl _)
    (fun _ _ => .refl _) (fun x t _ hx ih => (hσ x t hx).trans ih) t

/-- A solution gives a term what it gives the plugged term. -/
theorem Solves.same_plug {σ : String → Term} (hσ : Solves σ b) (hb : b.Triangular) (ht : t.Keyed) :
    Term.Same ((b.plug t).substitute σ) (t.substitute σ) := by
  have hterm : ∀ {t}, t.Keyed → (t.VarsIn fun y => Term.Same ((b.plug (.var y)).substitute σ) (σ y)) →
      Term.Same ((b.plug t).substitute σ) (t.substitute σ) := by
    intro t ht hvars
    rw [hb.plug_eq_substitute ht]
    exact ht.substitute_substitute.trans (ht.same_substitute hvars)
  have hvar : ∀ x, Term.Same ((b.plug (.var x)).substitute σ) (σ x) := by
    refine hb.acyclic.induction fun x ih => ?_
    cases hx : b.lookup x with
    | none =>
      rw [plug_unbound hx]
      exact .refl _
    | some t =>
      rw [hb.plug_bound hx]
      exact (hterm (hb.keyed x t hx) fun y hy => ih y ⟨t, hx, hy⟩).trans (hσ x t hx).symm
  exact hterm ht fun y _ => hvar y

end Bindings
end PolicyEngine
