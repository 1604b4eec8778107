import PolicyEngine.Proofs.Attempts

/-!
Unification as it is known from logic, on terms whose objects have ground keys and whose sets are ground. It succeeds if
and only if the terms have a common instance that respects the environment, and then the environment it makes has
exactly the common solutions.
-/
namespace PolicyEngine

/-! ## The terms of logic -/

namespace Term

/-- Scalars, variables that can be bound, arrays, objects with ground keys, and ground sets. -/
inductive Elementary : Term → Prop where
  | scalar {t : Term} : t.isScalar = true → Elementary t
  | var {x : String} : x ≠ wildcard → Elementary (.var x)
  | array {items : List Term} : (∀ t ∈ items, Elementary t) → Elementary (.array items)
  | object {fields : List (Term × Term)} : SortedBy Prod.fst fields → (∀ p ∈ fields, p.1.isGround = true) →
      (∀ p ∈ fields, Elementary p.2) → Elementary (.object fields)
  | set {members : List Term} : (Term.set members).isGround = true → Elementary (.set members)

theorem Elementary.keyed {t : Term} (h : t.Elementary) : t.Keyed := by
  induction h with
  | scalar h => exact .ground (hereditary_isGround.scalar h)
  | var => exact .var
  | array _ ih => exact .array ih
  | object hsorted hkeys _ ih => exact .object hsorted hkeys ih
  | set h => exact .ground h

theorem Elementary.ne_wildcard {x : String} (h : (Term.var x).Elementary) : x ≠ wildcard := by
  cases h with
  | scalar h => cases h
  | var h => exact h

theorem Elementary.set_inv {members : List Term} (h : (Term.set members).Elementary) :
    (Term.set members).isGround = true := by
  cases h with
  | scalar h => cases h
  | set h => exact h

theorem Elementary.object_inv {fields : List (Term × Term)} (h : (Term.object fields).Elementary) :
    SortedBy Prod.fst fields ∧ ∀ p ∈ fields, p.1.isGround = true := by
  cases h with
  | scalar h => cases h
  | object hsorted hkeys _ => exact ⟨hsorted, hkeys⟩

theorem Elementary.isAtom {t : Term} (h : t.Elementary) (hvar : t.isVar = false) (hkind : t.isCollection = false) :
    t.isAtom = true := by
  cases h with
  | scalar h => cases t <;> first | rfl | cases h
  | var => cases hvar
  | array | object | set => cases hkind

/-- Terms that unification only compares are as equal as their instances. -/
theorem Elementary.same_substitute_iff {x y : Term} (h : x.Elementary) (hx : x.isVar = false) (hy : y.isVar = false)
    (hkind : x.isCollection = true → x.rank ≠ y.rank) {σ : String → Term} :
    Same (x.substitute σ) (y.substitute σ) ↔ (x == y) = true := by
  by_cases hrank : x.rank = y.rank
  · have hatom : x.isAtom = true := h.isAtom hx (by simpa [hrank] using hkind)
    have hatom' : y.isAtom = true := by rwa [isAtom_eq_rank, ← hrank, ← isAtom_eq_rank]
    rw [substitute_of_isGround x (isGround_of_isAtom hatom), substitute_of_isGround y (isGround_of_isAtom hatom')]
    rfl
  · refine ⟨fun h => absurd ?_ hrank, fun h => absurd (Same.rank_eq h) hrank⟩
    rw [← rank_substitute (f := σ) hx, ← rank_substitute (f := σ) hy, h.rank_eq]

theorem Elementary.part {t u : Term} (h : t.Elementary) (hu : Part u t) : u.Elementary := by
  cases hu with
  | item hmem =>
    cases h with
    | scalar h => cases h
    | array h => exact h _ hmem
  | value hmem =>
    cases h with
    | scalar h => cases h
    | object _ _ h => exact h _ hmem

end Term

namespace Bindings

variable {b b' : Bindings} {x y t u : Term} {U : List Term}

open Term (Same Part)

/-! ## Outcomes -/

/-- An environment with exactly those solutions of another one that meet a condition, or none if there are none. -/
def Settles (U : List Term) (b : Bindings) (E : (String → Term) → Prop) : Option Bindings → Prop
  | some b' => Grows U b b' ∧ ∀ σ, Solves σ b' ↔ Solves σ b ∧ E σ
  | none => ∀ σ, Solves σ b → ¬E σ

variable {E E' : (String → Term) → Prop} {r : Option Bindings}

theorem Settles.congr (h : Settles U b E r) (hE : ∀ σ, Solves σ b → (E σ ↔ E' σ)) : Settles U b E' r := by
  cases r with
  | none => exact fun σ hσ hE' => h σ hσ ((hE σ hσ).2 hE')
  | some b' => exact ⟨h.1, fun σ => (h.2 σ).trans (and_congr_right (hE σ))⟩

theorem settles_some (hb : Over U b) (hE : ∀ σ, E σ) : Settles U b E (some b) :=
  ⟨.refl hb, fun σ => (and_iff_left (hE σ)).symm⟩

theorem settles_if {c : Bool} (hb : Over U b) (hE : ∀ σ, E σ ↔ c = true) :
    Settles U b E (if c then some b else none) := by
  cases c with
  | false => exact fun σ _ h => Bool.false_ne_true ((hE σ).1 h)
  | true => exact settles_some hb fun σ => (hE σ).2 rfl

/-- Conditions are met one after the other. -/
theorem Settles.bind {f : Bindings → Option Bindings} (h : Settles U b E r)
    (hf : ∀ b', Grows U b b' → Settles U b' E' (f b')) : Settles U b (fun σ => E σ ∧ E' σ) (r.bind f) := by
  cases r with
  | none => exact fun σ hσ hE => h σ hσ hE.1
  | some b₁ =>
    obtain ⟨hgrows, hsolves⟩ := h
    have hrest := hf b₁ hgrows
    rw [Option.bind_some]
    cases hr : f b₁ with
    | none =>
      rw [hr] at hrest
      exact fun σ hσ hE => hrest σ ((hsolves σ).2 ⟨hσ, hE.1⟩) hE.2
    | some b₂ =>
      rw [hr] at hrest
      exact ⟨hgrows.trans hrest.1, fun σ => by rw [hrest.2 σ, hsolves σ, and_assoc]⟩

/-- The pairs of a list are unified in turn, if what is compared beforehand agrees. -/
theorem settles_foldlM {β : Type} {F : β → (String → Term) → Prop} {f : Bindings → β → Option Bindings} {ps : List β}
    (hb : Over U b) (hf : ∀ p ∈ ps, ∀ b', Grows U b b' → Settles U b' (F p) (f b' p)) {c : Bool}
    (hE : ∀ σ, E σ ↔ c = true ∧ ∀ p ∈ ps, F p σ) : Settles U b E (if c then ps.foldlM f b else none) := by
  have hfold : Settles U b (fun σ => ∀ p ∈ ps, F p σ) (ps.foldlM f b) := by
    clear hE
    induction ps generalizing b with
    | nil => exact settles_some hb fun _ => List.forall_mem_nil _
    | cons p rest ih =>
      rw [List.forall_mem_cons] at hf
      simp only [List.forall_mem_cons, List.foldlM_cons]
      refine (hf.1 b (.refl hb)).bind fun b₁ h₁ => ih h₁.stays fun q hq b₂ h₂ => hf.2 q hq b₂ (h₁.trans h₂)
  cases c with
  | true => exact hfold.congr fun σ _ => ((hE σ).trans (and_iff_right rfl)).symm
  | false => exact fun σ _ h => Bool.false_ne_true ((hE σ).1 h).1

/-! ## Unifying -/

section Unifying

variable (hU : Universe Term.Elementary U)

include hU

/-- A variable at the end is bound to another such term, unless it occurs in it, and then no substitution makes them
equal. -/
theorem settles_bind {l : String} (hb : Over U b) (hl : b.lookup l = none) (hwild : l ≠ wildcard) (ht : t ∈ U)
    (hend : b.deref t = t) (hne : t ≠ .var l) :
    Settles U b (fun σ => Same (σ l) (t.substitute σ)) (b.bind l t) := by
  have hkeyedU := hU.mono fun _ => Term.Elementary.keyed
  have htri := hb.triangular hkeyedU
  have hkeyed := hkeyedU.all t ht
  by_cases hocc : l ∈ (b.plug t).vars
  · rw [bind_of_mem hwild hocc]
    intro σ hσ hE
    -- a term with the variable in it is the variable, or larger than what the variable stands for
    rcases (htri.keyed_plug hkeyed).size_lt_substitute (f := σ) hocc with hplug | hlt
    · cases hvar : t.isVar with
      | false =>
        have hplugged := Term.isVar_substitute (f := b.substitution) hvar
        rw [← htri.plug_eq_substitute hkeyed, hplug] at hplugged
        cases hplugged
      | true =>
        obtain ⟨r, rfl⟩ := Term.exists_of_isVar hvar
        rw [plug_unbound (hb.acyclic.lookup_of_deref hend)] at hplug
        exact hne hplug
    · rw [(hσ.same_plug htri hkeyed).size_eq, hE.size_eq] at hlt
      exact lt_irrefl _ hlt
  · rw [bind_of_not_mem hwild hocc]
    exact ⟨hb.grows_assign hkeyedU hl ht hocc, fun σ => solves_assign hl⟩

/-- Unification settles whether two terms can be made equal. -/
theorem unifyTo_settles (n : Nat) {above : List Term} (hb : Over U b) (hx : x ∈ U) (hy : y ∈ U)
    (h : Descent U b x n above) :
    Settles U b (fun σ => Same (x.substitute σ) (y.substitute σ)) (unifyTo n x y b) := by
  have hkeyedU := hU.mono fun _ => Term.Elementary.keyed
  induction n generalizing x y b above with
  | zero => exact absurd (h.pos hkeyedU hb hx) (lt_irrefl _)
  | succ n ih =>
    have hxU : b.deref x ∈ U := hb.values.deref hb.acyclic hx
    have hyU : b.deref y ∈ U := hb.values.deref hb.acyclic hy
    have hpart : ∀ {u v b'}, Grows U b b' → Part u (b.deref x) → Part v (b.deref y) →
        Settles U b' (fun σ => Same (u.substitute σ) (v.substitute σ)) (unifyTo n u v b') :=
      fun hgrows hu hv => ih hgrows.stays (hU.closed _ hxU _ hu) (hU.closed _ hyU _ hv)
        (h.part hkeyedU hb hx hgrows.keeps hu)
    -- solutions do not tell a variable from where it leads
    refine Settles.congr (E := fun σ => Same ((b.deref x).substitute σ) ((b.deref y).substitute σ)) ?_
      fun σ hσ => ⟨fun hE => (hσ.same_deref hb.acyclic x).trans (hE.trans (hσ.same_deref hb.acyclic y).symm),
        fun hE => (hσ.same_deref hb.acyclic x).symm.trans (hE.trans (hσ.same_deref hb.acyclic y))⟩
    generalize hxd : b.deref x = x' at hxU hpart ⊢
    generalize hyd : b.deref y = y' at hyU hpart ⊢
    cases meeting x' y' with
    | vars l r =>
      rw [unifyTo_vars hxd hyd]
      have hl := (hU.all _ hxU).ne_wildcard
      have hr := (hU.all _ hyU).ne_wildcard
      by_cases hlr : l = r
      · rw [if_pos (by simp [hlr])]
        exact settles_some hb fun σ => hlr ▸ .refl _
      · rw [if_neg (by simp [hlr, hl, hr])]
        exact settles_bind hU hb (hb.acyclic.lookup_of_deref hxd) hl hyU
          (deref_unbound (hb.acyclic.lookup_of_deref hyd)) (by simpa using Ne.symm hlr)
    | left l hvar =>
      rw [unifyTo_left hxd (hyd ▸ hvar), hyd]
      exact settles_bind hU hb (hb.acyclic.lookup_of_deref hxd) (hU.all _ hxU).ne_wildcard hyU
        (deref_of_not_isVar hvar) (by rintro rfl; cases hvar)
    | right r hvar =>
      rw [unifyTo_right (hxd ▸ hvar) hyd, hxd]
      refine (settles_bind hU hb (hb.acyclic.lookup_of_deref hyd) (hU.all _ hyU).ne_wildcard hxU
        (deref_of_not_isVar hvar) (by rintro rfl; cases hvar)).congr fun σ _ => ⟨Same.symm, Same.symm⟩
    | arrays l r =>
      rw [unifyTo_arrays hxd hyd]
      refine settles_foldlM (F := fun p σ => Same (p.1.substitute σ) (p.2.substitute σ)) hb (fun p hp b' hgrows => ?_)
        fun σ => ?_
      · exact hpart hgrows (.item (List.of_mem_zip hp).1) (.item (List.of_mem_zip hp).2)
      · rw [Term.substitute_array, Term.substitute_array, Term.same_array, Term.forall₂_map_iff_zip]
    | objects l r =>
      obtain ⟨hlsorted, hlkeys⟩ := (hU.all _ hxU).object_inv
      obtain ⟨hrsorted, hrkeys⟩ := (hU.all _ hyU).object_inv
      rw [unifyTo_objects hxd hyd ((plugKeys_eq hlkeys).trans (Term.sortFields_of_sorted hlsorted))
        ((plugKeys_eq hrkeys).trans (Term.sortFields_of_sorted hrsorted))]
      refine settles_foldlM (F := fun p σ => Same (p.1.2.substitute σ) (p.2.2.substitute σ)) hb
        (fun p hp b' hgrows => ?_) fun σ => ?_
      · exact hpart hgrows (.value (List.of_mem_zip hp).1) (.value (List.of_mem_zip hp).2)
      · rw [Term.substitute_object hlsorted hlkeys, Term.substitute_object hrsorted hrkeys, Term.same_object,
          Term.forall₂_map_iff_zip]
        simp only [Term.SameField, Bool.and_eq_true, List.all_eq_true, forall₂_and, and_assoc]
        rfl
    | sets l r =>
      have hlground := (hU.all _ hxU).set_inv
      have hrground := (hU.all _ hyU).set_inv
      rw [unifyTo_sets hxd hyd, plug_of_isGround hlground, plug_of_isGround hrground]
      refine settles_if hb fun σ => ?_
      rw [Term.substitute_of_isGround _ hlground, Term.substitute_of_isGround _ hrground]
      rfl
    | others hvx hvy hkind =>
      rw [unifyTo_others (hxd ▸ hvx) (hyd ▸ hvy) (hxd ▸ hyd ▸ hkind), hxd, hyd]
      refine settles_if hb fun σ => ?_
      exact (hU.all _ hxU).same_substitute_iff hvx hvy hkind

end Unifying

/-- Unification computes a most general unifier. It succeeds if and only if some solution of the environment makes the
terms equal. Then it keeps all bindings and stays acyclic, the terms are equal when plugged, and every solution that
makes them equal is one of the new environment, which can be undone. If it fails, nothing has changed: in place all
assignments are taken back, and a search goes on as it was. Ground terms are unified if they are equal. -/
theorem unify_most_general (hb : b.Acyclic) (hvalues : b.Values Term.Elementary) (hx : x.Elementary)
    (hy : y.Elementary) :
    ((b.unify x y).isSome ↔ ∃ σ, Solves σ b ∧ (x.substitute σ == y.substitute σ) = true) ∧
    (∀ b', b.unify x y = some b' →
      b.tryUnify x y = (true, b') ∧ (∀ z t, b.lookup z = some t → b'.lookup z = some t) ∧ b'.Acyclic ∧
      (b'.plug x == b'.plug y) = true ∧
      (∀ σ, Solves σ b → (x.substitute σ == y.substitute σ) = true → Solves σ b') ∧ b'.undo b.mark = b) ∧
    (b.unify x y = none → b.tryUnify x y = (false, b) ∧
      ∀ (α : Type) (k : Search α) (found : α) (s : State), s.bindings = b →
        Search.unifying x y k found s = ⟨.ok .more, found, s⟩) ∧
    (x.isGround = true → y.isGround = true → ((b.unify x y).isSome ↔ (x == y) = true)) := by
  obtain ⟨U, hU, hover, hxU, hyU, hdescent⟩ := exists_universe (fun _ _ => Term.Elementary.part) hb hvalues hx hy
  have hkeyedU := hU.mono fun _ => Term.Elementary.keyed
  have hsettles : Settles U b (fun σ => Same (x.substitute σ) (y.substitute σ)) (b.unify x y) :=
    unifyTo_settles hU _ hover hxU hyU hdescent
  have hiff : (b.unify x y).isSome ↔ ∃ σ, Solves σ b ∧ Same (x.substitute σ) (y.substitute σ) := by
    cases hr : b.unify x y with
    | none =>
      rw [hr] at hsettles
      exact ⟨nofun, fun ⟨σ, hσ, hE⟩ => absurd hE (hsettles σ hσ)⟩
    | some b' =>
      rw [hr] at hsettles
      exact ⟨fun _ => ⟨b'.substitution, (hsettles.2 _).1 (hsettles.1.stays.triangular hkeyedU).solves_substitution⟩,
        fun _ => rfl⟩
  have hinPlace := b.tryUnify_eq x y
  refine ⟨hiff, fun b' hr => ?_, fun hr => ?_, fun hxg hyg => ?_⟩
  · rw [hr] at hsettles hinPlace
    obtain ⟨hgrows, hsolves⟩ := hsettles
    have htri := hgrows.stays.triangular hkeyedU
    refine ⟨hinPlace, hgrows.keeps, hgrows.stays.acyclic, ?_, fun σ hσ hE => (hsolves σ).2 ⟨hσ, hE⟩, ?_⟩
    · rw [htri.plug_eq_substitute hx.keyed, htri.plug_eq_substitute hy.keyed]
      exact ((hsolves _).1 htri.solves_substitution).2
    · have hadds := adds_unify (p := fun _ => True) (x := x) (y := y) (fun _ _ => trivial) fun _ _ => trivial
      exact undo_mark (hadds b b' (fun _ _ => ⟨trivial, fun _ _ _ _ => trivial⟩) hr).2
  · rw [hr] at hinPlace
    refine ⟨hinPlace, fun α k found s hs => ?_⟩
    rw [Search.unifying, Search.extending, hs, hr]
  · rw [hiff]
    constructor
    · rintro ⟨σ, _, hE⟩
      rwa [Term.substitute_of_isGround x hxg, Term.substitute_of_isGround y hyg] at hE
    · intro h
      refine ⟨b.substitution, (hover.triangular hkeyedU).solves_substitution, ?_⟩
      rwa [Term.substitute_of_isGround x hxg, Term.substitute_of_isGround y hyg]

/-! ### A pair of variables below a key -/

namespace Paired

/-- The first item of a pair is a variable that stands for another one. -/
def environment : Bindings :=
  ((({} : Bindings).assign "pair" (some (.array [.var "first", .number 2]))).assign "first" (some (.var "other")))

def left : Term := .object [(.string "k", .var "pair")]

def right : Term := .object [(.string "k", .array [.number 1, .var "second"])]

/-- Two variables, and values for them. The second value holds its variable. -/
def pattern : Term := .array [.var "second", .var "other"]

def value : Term := .array [.number 3, .array [.number 4, .var "pair"]]

theorem elementary_var {x : String} (h : (x == wildcard) = false) : (Term.var x).Elementary := .var (by simpa using h)

theorem elementary_pair {t u : Term} (ht : t.Elementary) (hu : u.Elementary) : (Term.array [t, u]).Elementary := by
  refine .array ?_
  simp only [List.forall_mem_cons]
  exact ⟨ht, hu, List.forall_mem_nil _⟩

theorem elementary_object {t : Term} (h : t.Elementary) : (Term.object [(.string "k", t)]).Elementary :=
  .object (List.pairwise_singleton _ _) (fun _ hp => by rw [List.mem_singleton.1 hp]; rfl)
    fun _ hp => by rw [List.mem_singleton.1 hp]; exact h

theorem values_elementary : environment.Values Term.Elementary := by
  intro x t hx
  simp only [environment, lookup_assign] at hx
  split_ifs at hx <;> cases hx
  · exact elementary_var rfl
  · exact elementary_pair (elementary_var rfl) (.scalar rfl)

theorem acyclic : environment.Acyclic := by
  refine acyclic_of_rank (fun x => if x = "pair" then 2 else if x = "first" then 1 else 0) ?_
  rintro x y ⟨t, hx, hy⟩
  simp only [environment, lookup_assign] at hx
  split_ifs at hx with hfirst hpair <;> cases hx
  · obtain rfl : y = "other" := List.mem_singleton.1 hy
    subst hfirst
    decide
  · obtain rfl : y = "first" := List.mem_singleton.1 hy
    subst hpair
    decide

/-- The pair is unified with another one below the same key. Where its first item is to be a term that holds the pair,
there is no solution, and the variable bound before is unbound again. -/
theorem unify_paired : (∃ b', environment.unify left right = some b' ∧ b'.Acyclic ∧
      (b'.plug left == b'.plug right) = true ∧ (b'.plug (.var "other") == .number 1) = true) ∧
    (¬∃ σ, Solves σ environment ∧ (pattern.substitute σ == value.substitute σ) = true) ∧
    environment.tryUnify pattern value = (false, environment) := by
  constructor
  · obtain ⟨b', hb'⟩ : ∃ b', environment.unify left right = some b' :=
      Option.isSome_iff_exists.1 (by decide +kernel)
    have hleft : left.Elementary := elementary_object (elementary_var rfl)
    have hright : right.Elementary := elementary_object (elementary_pair (.scalar rfl) (elementary_var rfl))
    obtain ⟨-, -, hacyclic, hplug, -⟩ := (unify_most_general acyclic values_elementary hleft hright).2.1 b' hb'
    have hother : (environment.unify left right).all fun b' => b'.plug (.var "other") == .number 1 := by
      decide +kernel
    rw [hb'] at hother
    exact ⟨b', hb', hacyclic, hplug, hother⟩
  · have hpattern : pattern.Elementary := elementary_pair (elementary_var rfl) (elementary_var rfl)
    have hvalue : value.Elementary :=
      elementary_pair (.scalar rfl) (elementary_pair (.scalar rfl) (elementary_var rfl))
    have hnone : environment.unify pattern value = none := Option.isNone_iff_eq_none.1 (by decide +kernel)
    obtain ⟨hiff, -, hfailed, -⟩ := unify_most_general acyclic values_elementary hpattern hvalue
    refine ⟨?_, (hfailed hnone).1⟩
    rw [← hiff, hnone]
    decide

end Paired
end Bindings
end PolicyEngine
