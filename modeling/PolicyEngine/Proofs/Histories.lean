import PolicyEngine.Proofs.Attempts
import PolicyEngine.Proofs.Endings

/-!
Histories of an environment. Evaluation unifies terms, lets a local variable cover an outer one, hides variables and
goes back to choice points, in any order. Where the keys of objects are ground, no variable ever depends on itself:
variables lead somewhere, and plugging ends, leaves no bound variable, and changes nothing a second time.

The keys matter because plugging can make two keys equal. One of the two fields is then lost, and with it the variables
that the occurs check would have found there.
-/
namespace PolicyEngine
namespace Bindings

/-! ## Changes -/

/-- What evaluation does to its environment. Values that cover a variable come from collections and are ground. -/
inductive Change where
  | unify (x y : Term)
  | shadow (name : String) (value : Term)
  | hide (name : String)
  | undo (mark : Nat)

/-- Unification is done in place, and a failure takes back what it has bound. -/
def Change.apply (b : Bindings) : Change → Bindings
  | .unify x y => (b.tryUnify x y).2
  | .shadow name value => b.shadow name value
  | .hide name => b.hide name
  | .undo mark => b.undo mark

/-- Terms to be unified have ground keys, and the values that are not checked have no variables at all. -/
def Change.Keyed : Change → Prop
  | .unify x y => x.Keyed ∧ y.Keyed
  | .shadow _ value => value.isGround = true
  | .hide _ | .undo _ => True

/-- The environment after changes to an empty one. -/
def ofChanges (changes : List Change) : Bindings := changes.foldl Change.apply {}

variable {b b' : Bindings} {x y : Term} {name : String}

/-! ## Assignments without variables -/

theorem Acyclic.of_uses (hb : b.Acyclic) (huses : ∀ x y, b'.Uses x y → b.Uses x y) : b'.Acyclic :=
  fun x hx => hb x (Relation.TransGen.mono huses _ _ hx)

/-- A variable may be given a ground value, or none, whatever it was bound to. -/
theorem Triangular.assign_ground (hb : b.Triangular) {value : Option Term}
    (hvalue : ∀ t, value = some t → t.isGround = true) : (b.assign name value).Triangular := by
  refine ⟨hb.acyclic.of_uses ?_, fun z t hz => ?_⟩
  · rintro z y ⟨t, hz, hy⟩
    rw [lookup_assign] at hz
    split at hz
    · rw [Term.vars_of_isGround t (hvalue t hz)] at hy
      cases hy
    · exact ⟨t, hz, hy⟩
  · rw [lookup_assign] at hz
    split at hz
    · exact .ground (hvalue t hz)
    · exact hb.keyed z t hz

/-! ## One change -/

/-- Acyclic, with ground keys, and so is every environment that it can be taken back to. A mark may lie between two
assignments of one unification, so these are all that have fewer assignments. -/
def Sound (b : Bindings) : Prop := ∀ s, s <:+ b.assignments → Triangular ⟨s⟩

theorem Sound.triangular (hb : b.Sound) : b.Triangular := hb _ List.suffix_rfl

theorem sound_empty : Sound {} := by
  intro s hs
  obtain rfl := List.suffix_nil.1 hs
  exact ⟨acyclic_of_rank (fun _ => 0) (fun _ _ ⟨_, hx, _⟩ => by cases hx), fun _ _ hx => by cases hx⟩

theorem Sound.assign_ground (hb : b.Sound) {value : Option Term} (hvalue : ∀ t, value = some t → t.isGround = true) :
    (b.assign name value).Sound := by
  intro s hs
  rcases List.suffix_cons_iff.1 hs with rfl | hs
  · exact hb.triangular.assign_ground hvalue
  · exact hb s hs

theorem Sound.shadow (hb : b.Sound) {value : Term} (hvalue : value.isGround = true) : (b.shadow name value).Sound := by
  rw [Bindings.shadow]
  split
  · exact hb
  · exact hb.assign_ground fun t ht => Option.some.inj ht ▸ hvalue

theorem Sound.hide (hb : b.Sound) : (b.hide name).Sound := by
  rw [Bindings.hide]
  split
  · exact hb.assign_ground (by rintro _ ⟨⟩)
  · exact hb

theorem Sound.undo (hb : b.Sound) (mark : Nat) : (b.undo mark).Sound :=
  fun s hs => hb s (hs.trans (List.drop_suffix _ _))

/-- Each variable that unification binds on its way is unbound and does not occur in its value, plugged. -/
theorem Sound.unify (hb : b.Sound) (hx : x.Keyed) (hy : y.Keyed) (h : b.unify x y = some b') : b'.Sound := by
  have htri := hb.triangular
  obtain ⟨U, hU, hover, hxU, hyU, hdescent⟩ :=
    exists_universe (fun _ _ => Term.Keyed.part) htri.acyclic htri.keyed hx hy
  have hgrows : Grows U b b' := (unifyTo_add hU _ 0 hover hxU hyU hdescent).2 b' h
  intro s hs
  rcases List.suffix_or_suffix_of_suffix hs hgrows.adds with hold | hnew
  · exact hb s hold
  · exact (hgrows.between s hnew hs).triangular hU

theorem Sound.tryUnify (hb : b.Sound) (hx : x.Keyed) (hy : y.Keyed) : (b.tryUnify x y).2.Sound := by
  rw [tryUnify_eq]
  cases h : b.unify x y with
  | none => exact hb
  | some b' => exact hb.unify hx hy h

theorem Sound.apply (hb : b.Sound) {change : Change} (h : change.Keyed) : (change.apply b).Sound := by
  cases change with
  | unify x y => exact hb.tryUnify h.1 h.2
  | shadow name value => exact hb.shadow h
  | hide name => exact hb.hide
  | undo mark => exact hb.undo mark

/-! ## What an acyclic environment stands for -/

section Triangular

variable {t : Term}

/-- All values can be put in place. -/
theorem Triangular.plugOn?_eq (hb : b.Triangular) (ht : t.Keyed) : b.plugOn? t = some (b.plug t) := by
  obtain ⟨level, hl⟩ := hb.acyclic.exists_levels
  rw [plugOn?_of_endsAt (hb.acyclic.ends t).2, hb.plugTo_succ hl ht fun x _ => hl.le_length x, plug_eq_plugTo]

theorem Triangular.unbound_of_plug (hb : b.Triangular) (ht : t.Keyed) :
    (b.plug t).VarsIn fun x => b.lookup x = none := by
  have hvar : ∀ x, (b.plug (.var x)).VarsIn fun y => b.lookup y = none := by
    refine hb.acyclic.induction fun x ih => ?_
    cases hx : b.lookup x with
    | none =>
      rw [plug_unbound hx]
      exact Term.varsIn_var.2 hx
    | some u =>
      have hu := hb.keyed x u hx
      rw [hb.plug_bound hx, hb.plug_eq_substitute hu]
      exact hu.varsIn_substitute.2 fun y hy => ih y ⟨u, hx, hy⟩
  rw [hb.plug_eq_substitute ht]
  exact ht.varsIn_substitute.2 fun x _ => hvar x

theorem Triangular.plug_plug (hb : b.Triangular) (ht : t.Keyed) : b.plug (b.plug t) = b.plug t := by
  have hkeyed := hb.keyed_plug ht
  rw [hb.plug_eq_substitute hkeyed]
  refine (hkeyed.substitute_congr fun x hx => ?_).trans hkeyed.substitute_var
  exact plug_unbound (hb.unbound_of_plug ht x hx)

end Triangular

/-! ## All changes -/

theorem sound_ofChanges (changes : List Change) (hchanges : ∀ c ∈ changes, c.Keyed) : (ofChanges changes).Sound := by
  refine List.foldlRecOn changes Change.apply sound_empty fun b hb c hc => ?_
  exact hb.apply (hchanges c hc)

/-- Whatever is unified, covered, hidden and taken back, in every order: where the keys of objects are ground, no variable
comes to depend on itself. Every variable can be followed to the end, to an unbound variable or to another term; and all
values can be put in place, which leaves no bound variable, and changes nothing a second time. -/
theorem acyclic_ofChanges (changes : List Change) (hchanges : ∀ c ∈ changes, c.Keyed) :
    (ofChanges changes).Acyclic ∧
    (∀ t, (ofChanges changes).followOn? t = some ((ofChanges changes).deref t) ∧
      ∀ x, (ofChanges changes).deref t = .var x → (ofChanges changes).lookup x = none) ∧
    ∀ t : Term, t.Keyed →
      (ofChanges changes).plugOn? t = some ((ofChanges changes).plug t) ∧
      (∀ x ∈ ((ofChanges changes).plug t).vars, (ofChanges changes).lookup x = none) ∧
      (ofChanges changes).plug ((ofChanges changes).plug t) = (ofChanges changes).plug t := by
  have hb := (sound_ofChanges changes hchanges).triangular
  generalize ofChanges changes = b at hb
  exact ⟨hb.acyclic, fun t => ⟨(hb.acyclic.ends t).1, fun _ => hb.acyclic.lookup_of_deref⟩,
    fun t ht => ⟨hb.plugOn?_eq ht, hb.unbound_of_plug ht, hb.plug_plug ht⟩⟩

/-! ### Keys that are variables -/

namespace Circular

/-- Three variables, and values for them. The last value holds the last variable. -/
def pattern : Term := .array [.var "x", .var "y", .var "z"]

def value : Term := .array [.string "a", .string "a", .object [(.var "x", .var "z"), (.var "y", .number 1)]]

/-- A circle goes unnoticed. When `z` is met both keys have become `"a"`, and the field with `z` in it is not among those
of the plugged object. Putting the value of `z` in place meets that field again and again. -/
theorem unify_circular : ∃ b', unify pattern value {} = some b' ∧ ¬b'.Acyclic ∧ b'.plugOn? (.var "z") = none := by
  have hsome : (unify pattern value {}).isSome = true := by decide +kernel
  have hself : (unify pattern value {}).all fun b => (b.lookup "z").any fun t => t.vars.contains "z" := by
    decide +kernel
  have hcontinues : (unify pattern value {}).all fun b => !b.endsAt b.assignments.length (.var "z") := by
    decide +kernel
  obtain ⟨b', hb'⟩ := Option.isSome_iff_exists.1 hsome
  rw [hb', Option.all_some, Option.any_eq_true] at hself
  rw [hb', Option.all_some, Bool.not_eq_true'] at hcontinues
  obtain ⟨t, hz, ht⟩ := hself
  refine ⟨b', hb', fun hacyclic => hacyclic "z" (.single ⟨t, hz, List.contains_iff_mem.1 ht⟩), ?_⟩
  refine Option.eq_none_iff_forall_ne_some.2 fun u hu => ?_
  rw [(plugOn?_eq_some_iff.1 hu).1] at hcontinues
  cases hcontinues

end Circular
end Bindings
end PolicyEngine
