import PolicyEngine.Eval.Rules
import PolicyEngine.Proofs.Circles

/-!
Properties that terms inherit from their parts. What evaluation makes of terms with such a property has it too: the
parts that are looked up, documents with a value put in place, and the values that unification assigns.
-/
namespace PolicyEngine

namespace Term

/-! ## Collections -/

theorem mem_insertMember {t m : Term} {ms : List Term} (h : m ∈ insertMember t ms) : m = t ∨ m ∈ ms := by
  induction ms with
  | nil => simpa [insertMember] using h
  | cons a rest ih =>
    simp only [insertMember] at h
    split at h <;> simp only [List.mem_cons] at h ⊢
    · exact h
    · exact .inr h
    · rcases h with h | h
      · exact .inr (.inl h)
      · exact (ih h).imp_right .inr

theorem forall_insertMember {V : Term → Prop} {ms : List Term} {t : Term} (h : ∀ u ∈ ms, V u) (ht : V t) :
    ∀ u ∈ insertMember t ms, V u := by
  intro u hu
  rcases mem_insertMember hu with rfl | hu
  · exact ht
  · exact h u hu

theorem mem_sortMembers {m : Term} {ts : List Term} (h : m ∈ sortMembers ts) : m ∈ ts := by
  induction ts with
  | nil => exact h
  | cons t rest ih =>
    rcases mem_insertMember h with rfl | h
    · exact List.mem_cons_self
    · exact List.mem_cons_of_mem _ (ih h)

theorem mem_addField {k v : Term} {f : Term × Term} {fs : List (Term × Term)} (h : f ∈ addField k v fs) :
    f = (k, v) ∨ f ∈ fs := by
  induction fs with
  | nil => simpa [addField] using h
  | cons a rest ih =>
    obtain ⟨k', v'⟩ := a
    simp only [addField] at h
    split at h <;> simp only [List.mem_cons] at h ⊢
    · exact h
    · exact .inr h
    · rcases h with h | h
      · exact .inr (.inl h)
      · exact (ih h).imp_right .inr

theorem mem_sortFields {f : Term × Term} {fs : List (Term × Term)} (h : f ∈ sortFields fs) : f ∈ fs := by
  induction fs with
  | nil => exact h
  | cons a rest ih =>
    rcases mem_addField h with rfl | h
    · exact List.mem_cons_self
    · exact List.mem_cons_of_mem _ (ih h)

/-- A field that is there after setting one is the one that was set, with its own or an older key, or was there
before. -/
theorem mem_insertField {k v : Term} {f : Term × Term} {fs : List (Term × Term)} (h : f ∈ insertField k v fs) :
    (f.2 = v ∧ (f.1 = k ∨ ∃ v', (f.1, v') ∈ fs)) ∨ f ∈ fs := by
  induction fs with
  | nil => exact .inl (by simp only [insertField, List.mem_singleton] at h; simp [h])
  | cons a rest ih =>
    obtain ⟨k', v'⟩ := a
    simp only [insertField] at h
    split at h <;> simp only [List.mem_cons] at h ⊢
    · rcases h with rfl | h
      · exact .inl ⟨rfl, .inl rfl⟩
      · exact .inr h
    · rcases h with rfl | h
      · exact .inl ⟨rfl, .inr ⟨v', .inl rfl⟩⟩
      · exact .inr (.inr h)
    · rcases h with h | h
      · exact .inr (.inl h)
      · rcases ih h with ⟨hv, hk⟩ | h
        · exact .inl ⟨hv, hk.imp_right fun ⟨v', hv'⟩ => ⟨v', .inr hv'⟩⟩
        · exact .inr (.inr h)

theorem forall_insertField {V : Term → Prop} {fs : List (Term × Term)} {k v : Term} (h : ∀ f ∈ fs, V f.1 ∧ V f.2)
    (hk : V k) (hv : V v) : ∀ f ∈ insertField k v fs, V f.1 ∧ V f.2 := by
  intro f hf
  rcases mem_insertField hf with ⟨hfv, hfk⟩ | hf
  · refine ⟨?_, hfv ▸ hv⟩
    rcases hfk with hfk | ⟨v', hv'⟩
    · exact hfk ▸ hk
    · exact (h _ hv').1
  · exact h f hf

theorem mem_of_findField? {k v : Term} {fs : List (Term × Term)} (h : findField? k fs = some v) :
    ∃ k', (k', v) ∈ fs := by
  induction fs with
  | nil => simp [findField?] at h
  | cons a rest ih =>
    obtain ⟨k', v'⟩ := a
    simp only [findField?] at h
    split at h
    · cases h
    · cases h
      exact ⟨k', List.mem_cons_self⟩
    · obtain ⟨k₁, h₁⟩ := ih h
      exact ⟨k₁, List.mem_cons_of_mem _ h₁⟩

theorem mem_of_findMember? {t m : Term} {ms : List Term} (h : findMember? t ms = some m) : m ∈ ms := by
  induction ms with
  | nil => simp [findMember?] at h
  | cons a rest ih =>
    simp only [findMember?] at h
    split at h
    · cases h
    · cases h
      exact List.mem_cons_self
    · exact List.mem_cons_of_mem _ (ih h)

/-- What goes over from a document to its parts goes over to the end of every path. -/
theorem at?_of_child? {V : Term → Prop}
    (hV : ∀ (t v : Term) (segment : PathSegment), V t → t.child? segment = some v → V v) {t v : Term} {path : StorePath}
    (h : V t) (hv : t.at? path = some v) : V v := by
  induction path generalizing t with
  | nil =>
    cases hv
    exact h
  | cons segment rest ih =>
    obtain ⟨u, hu, hv⟩ := Option.bind_eq_some_iff.1 hv
    exact ih (hV t u segment h hu) hv

/-! ## Inherited properties -/

/-- A property of scalars that a collection has if and only if its parts have it. -/
structure Hereditary (V : Term → Prop) : Prop where
  scalar : ∀ {t}, t.isScalar = true → V t
  array : ∀ {items}, V (.array items) ↔ ∀ t ∈ items, V t
  set : ∀ {members}, V (.set members) ↔ ∀ t ∈ members, V t
  object : ∀ {fields}, V (.object fields) ↔ ∀ f ∈ fields, V f.1 ∧ V f.2

/-- The same of references and calls. Of comprehensions, whose parts are not looked into, nothing is said. -/
structure Pervasive (V : Term → Prop) : Prop extends Hereditary V where
  ref : ∀ {head operands}, V (.ref head operands) ↔ V head ∧ ∀ t ∈ operands, V t
  call : ∀ {operator arguments}, V (.call operator arguments) ↔ V operator ∧ ∀ t ∈ arguments, V t

namespace Hereditary

variable {V : Term → Prop} (hV : Hereditary V)

include hV

theorem emptyObject : V Term.emptyObject := hV.object.2 (List.forall_mem_nil _)

theorem setOf {ts : List Term} (h : ∀ t ∈ ts, V t) : V (Term.setOf ts) := hV.set.2 fun t ht => h t (mem_sortMembers ht)

theorem objectOf {fs : List (Term × Term)} (h : ∀ f ∈ fs, V f.1 ∧ V f.2) : V (Term.objectOf fs) :=
  hV.object.2 fun f hf => h f (mem_sortFields hf)

theorem lookup {t key v : Term} (h : V t) (hv : t.lookup key = some v) : V v := by
  unfold Term.lookup at hv
  split at hv
  · obtain ⟨k, hk⟩ := mem_of_findField? hv
    exact (hV.object.1 h _ hk).2
  · exact hV.set.1 h _ (mem_of_findMember? hv)
  · obtain ⟨n, _, hn⟩ := Option.bind_eq_some_iff.1 hv
    exact hV.array.1 h _ (List.mem_of_getElem? hn)
  · cases hv

theorem lookupKeys {t v : Term} {keys : List String} (h : V t) (hv : t.lookupKeys keys = some v) : V v := by
  induction keys generalizing t with
  | nil =>
    cases hv
    exact h
  | cons key rest ih =>
    obtain ⟨u, hu, hv⟩ := Option.bind_eq_some_iff.1 hv
    exact ih (hV.lookup h hu) hv

theorem entries {t : Term} {e : Term × Term} (h : V t) (he : e ∈ t.entries) : V e.1 ∧ V e.2 := by
  unfold Term.entries at he
  split at he
  · obtain ⟨⟨item, i⟩, hi, rfl⟩ := List.mem_map.1 he
    exact ⟨hV.scalar rfl, hV.array.1 h _ (List.fst_mem_of_mem_zipIdx hi)⟩
  · exact hV.object.1 h _ he
  · obtain ⟨m, hm, rfl⟩ := List.mem_map.1 he
    exact ⟨hV.set.1 h _ hm, hV.set.1 h _ hm⟩
  · simp at he

theorem child? {t v : Term} {segment : PathSegment} (h : V t) (hv : t.child? segment = some v) : V v := by
  unfold Term.child? at hv
  split at hv
  · obtain ⟨k, hk⟩ := mem_of_findField? hv
    exact (hV.object.1 h _ hk).2
  · exact hV.array.1 h _ (List.mem_of_getElem? hv)
  · obtain ⟨n, _, hn⟩ := Option.bind_eq_some_iff.1 hv
    exact hV.array.1 h _ (List.mem_of_getElem? hn)
  · cases hv

theorem at? {t v : Term} {path : StorePath} (h : V t) (hv : t.at? path = some v) : V v :=
  at?_of_child? (fun _ _ _ => hV.child?) h hv

theorem childKeys? {t : Term} {ks : List Term} (h : V t) (hk : t.childKeys? = some ks) : ∀ k ∈ ks, V k := by
  intro k hmem
  unfold Term.childKeys? at hk
  split at hk <;> cases hk
  · obtain ⟨f, hf, rfl⟩ := List.mem_map.1 hmem
    exact (hV.object.1 h _ hf).1
  · obtain ⟨n, _, rfl⟩ := List.mem_map.1 hmem
    exact hV.scalar rfl
  · exact hV.set.1 h _ hmem

theorem setPath {value t u : Term} {path : List String} (hvalue : V value) (h : V t)
    (hu : Term.setPath value t path = .ok u) : V u := by
  induction path generalizing t u with
  | nil =>
    cases hu
    exact hvalue
  | cons key rest ih =>
    cases t with
    | object fields =>
      simp only [Term.setPath] at hu
      split at hu
      · rename_i inner hinner
        cases hu
        have hslot : V ((findField? (.string key) fields).getD Term.emptyObject) := by
          cases hf : findField? (.string key) fields with
          | none => exact hV.emptyObject
          | some v =>
            obtain ⟨k, hk⟩ := mem_of_findField? hf
            exact (hV.object.1 h _ hk).2
        exact hV.object.2 (forall_insertField (hV.object.1 h) (hV.scalar rfl) (ih hslot hinner))
      · cases hu
    | _ => simp [Term.setPath] at hu

/-- A document that overrides give and the overrides after it. -/
theorem covering? {path : DataPath} {overrides later : List (DataPath × Term)} {doc : Option Term}
    (hc : Scope.covering? path overrides = some (doc, later)) (ho : ∀ d ∈ overrides, V d.2) :
    (∀ t, doc = some t → V t) ∧ ∀ d ∈ later, V d.2 := by
  induction overrides with
  | nil => cases hc
  | cons d rest ih =>
    obtain ⟨q, value⟩ := d
    rw [List.forall_mem_cons] at ho
    simp only [Scope.covering?] at hc
    split at hc
    · next found hfound =>
      cases hc
      exact ih hfound ho.2
    · split at hc <;> cases hc
      exact ⟨fun t ht => hV.lookupKeys ho.1 ht, ho.2⟩

end Hereditary

/-! ### Ground terms -/

theorem allGround_iff {ts : List Term} : allGround ts = true ↔ ∀ t ∈ ts, t.isGround = true := by
  induction ts with
  | nil => simp [allGround]
  | cons t rest ih => simp [allGround, ih]

theorem fieldsGround_iff {fs : List (Term × Term)} :
    fieldsGround fs = true ↔ ∀ f ∈ fs, f.1.isGround = true ∧ f.2.isGround = true := by
  induction fs with
  | nil => simp [fieldsGround]
  | cons f rest ih => simp [fieldsGround, ih]

theorem hereditary_isGround : Hereditary fun t => t.isGround = true where
  scalar {t} ht := by cases t <;> first | rfl | cases ht
  array := allGround_iff
  set := allGround_iff
  object := fieldsGround_iff

/-! ### Substitution -/

mutual
/-- Terms with the property may be put in place of variables. -/
theorem Pervasive.substitute {V : Term → Prop} (hV : Pervasive V) {f : String → Term}
    (hf : ∀ x, V (.var x) → V (f x)) : ∀ t : Term, V t → V (t.substitute f)
  | .var x, h => hf x h
  | .array items, h => hV.array.2 (hV.substituteList hf items (hV.array.1 h))
  | .object fields, h => by
    rw [Term.substitute]
    split
    · exact h
    · exact hV.objectOf (hV.substituteFields hf fields (hV.object.1 h))
  | .set members, h => by
    rw [Term.substitute]
    split
    · exact h
    · exact hV.setOf (hV.substituteList hf members (hV.set.1 h))
  | .ref head operands, h =>
    hV.ref.2 ⟨hV.substitute hf head (hV.ref.1 h).1, hV.substituteList hf operands (hV.ref.1 h).2⟩
  | .call operator arguments, h =>
    hV.call.2 ⟨hV.substitute hf operator (hV.call.1 h).1, hV.substituteList hf arguments (hV.call.1 h).2⟩
  | .null, h | .bool _, h | .number _, h | .string _, h => h
  | .arrayCompr _ _, h | .setCompr _ _, h | .objectCompr _ _ _, h => h
theorem Pervasive.substituteList {V : Term → Prop} (hV : Pervasive V) {f : String → Term}
    (hf : ∀ x, V (.var x) → V (f x)) : ∀ ts : List Term, (∀ t ∈ ts, V t) → ∀ t ∈ Term.substituteList f ts, V t
  | [], h => h
  | t :: rest, h => by
    simp only [Term.substituteList, List.forall_mem_cons] at h ⊢
    exact ⟨hV.substitute hf t h.1, hV.substituteList hf rest h.2⟩
theorem Pervasive.substituteFields {V : Term → Prop} (hV : Pervasive V) {f : String → Term}
    (hf : ∀ x, V (.var x) → V (f x)) :
    ∀ fs : List (Term × Term), (∀ a ∈ fs, V a.1 ∧ V a.2) → ∀ a ∈ Term.substituteFields f fs, V a.1 ∧ V a.2
  | [], h => h
  | (k, v) :: rest, h => by
    simp only [Term.substituteFields, List.forall_mem_cons] at h ⊢
    exact ⟨⟨hV.substitute hf k h.1.1, hV.substitute hf v h.1.2⟩, hV.substituteFields hf rest h.2⟩
end

end Term

/-! ## Environments -/

namespace Bindings

/-- The variables assigned and the values assigned to them have a property. -/
def Holds (V : Term → Prop) (b : Bindings) : Prop :=
  ∀ a ∈ b.assignments, V (.var a.1) ∧ ∀ t, a.2 = some t → V t

theorem holds_empty {V : Term → Prop} : Holds V {} := fun _ ha => by cases ha

/-- Makes an environment from another by adding assignments with a property to it. -/
def Extends (V : Term → Prop) (extend : Bindings → Option Bindings) : Prop :=
  ∀ b b', b.Holds V → extend b = some b' → b'.Holds V ∧ b.assignments <:+ b'.assignments

variable {V : Term → Prop}

theorem Holds.undo {b : Bindings} (h : b.Holds V) (n : Nat) : (b.undo n).Holds V :=
  fun a ha => h a (List.mem_of_mem_drop ha)

theorem Holds.assign {b : Bindings} (h : b.Holds V) {x : String} {value : Option Term} (hx : V (.var x))
    (hv : ∀ t, value = some t → V t) : (b.assign x value).Holds V :=
  List.forall_mem_cons.2 ⟨⟨hx, hv⟩, h⟩

theorem Holds.lookup {b : Bindings} (h : b.Holds V) {x : String} {t : Term} (ht : b.lookup x = some t) :
    V (.var x) ∧ V t := by
  obtain ⟨a, ha, hat⟩ := Option.bind_eq_some_iff.1 ht
  have hx : a.1 = x := by simpa using List.find?_some ha
  obtain ⟨hp, hv⟩ := h a (List.mem_of_find?_eq_some ha)
  exact ⟨hx ▸ hp, hv t hat⟩

theorem Holds.follow {b : Bindings} (h : b.Holds V) (n : Nat) {t : Term} (ht : V t) : V (b.follow n t) := by
  induction n generalizing t with
  | zero => simpa [Bindings.follow] using ht
  | succ n ih =>
    cases t with
    | var x =>
      simp only [Bindings.follow]
      split
      · next hl => exact ih (h.lookup hl).2
      · exact ht
    | _ => exact ht

theorem Holds.deref {b : Bindings} (h : b.Holds V) {t : Term} (ht : V t) : V (b.deref t) :=
  Bindings.deref_eq_follow b t ▸ h.follow _ ht

theorem assign_suffix (b : Bindings) (x : String) (value : Option Term) :
    b.assignments <:+ (b.assign x value).assignments :=
  ⟨[(x, value)], rfl⟩

theorem extends_some : Extends V some := by
  intro b b' hb h
  cases h
  exact ⟨hb, List.suffix_rfl⟩

theorem Extends.bind {f g : Bindings → Option Bindings} (hf : Extends V f) (hg : Extends V g) :
    Extends V fun b => (f b).bind g := by
  intro b b' hb h
  obtain ⟨c, hc, h⟩ := Option.bind_eq_some_iff.1 h
  obtain ⟨hc, hs⟩ := hf b c hb hc
  obtain ⟨hb', hs'⟩ := hg c b' hc h
  exact ⟨hb', hs.trans hs'⟩

theorem Extends.foldlM {β : Type} {f : Bindings → β → Option Bindings} {l : List β}
    (hf : ∀ a ∈ l, Extends V fun b => f b a) : Extends V fun b => l.foldlM f b := by
  induction l with
  | nil => exact extends_some
  | cons a rest ih =>
    rw [List.forall_mem_cons] at hf
    simp only [List.foldlM_cons]
    exact hf.1.bind (ih hf.2)

theorem extends_bind {x : String} {value : Term} (hx : V (.var x)) (hv : V value) :
    Extends V (Bindings.bind x value) := by
  intro b b' hb h
  unfold Bindings.bind at h
  split at h
  · exact extends_some b b' hb h
  · split at h <;> cases h
    exact ⟨hb.assign hx fun t ht => by cases ht; exact hv, b.assign_suffix _ _⟩

theorem extends_hideAll (symbols : List Term) : Extends V fun b => some (b.hideAll symbols) := by
  intro b b' hb h
  cases h
  induction symbols generalizing b with
  | nil => exact ⟨hb, List.suffix_rfl⟩
  | cons t rest ih =>
    simp only [hideAll, List.foldl_cons]
    split
    · next x =>
      have hhide : (b.hide x).Holds V ∧ b.assignments <:+ (b.hide x).assignments := by
        rw [hide]
        split
        · next hl =>
          obtain ⟨t, ht⟩ := Option.isSome_iff_exists.1 hl
          exact ⟨hb.assign (hb.lookup ht).1 (by rintro _ ⟨⟩), b.assign_suffix _ _⟩
        · exact ⟨hb, List.suffix_rfl⟩
      obtain ⟨hv, hs⟩ := ih _ hhide.1
      exact ⟨hv, hhide.2.trans hs⟩
    · exact ih b hb

section Unification

variable (hV : Term.Pervasive V)

include hV

theorem Holds.plugTo {b : Bindings} (h : b.Holds V) (n : Nat) {t : Term} (ht : V t) : V (b.plugTo n t) := by
  induction n generalizing t with
  | zero => exact ht
  | succ n ih =>
    simp only [Bindings.plugTo]
    split
    · exact ht
    · refine hV.substitute (fun x hx => ?_) t ht
      have hd := h.deref hx
      split
      · next hv => rwa [hv] at hd
      · exact ih hd

theorem Holds.plug {b : Bindings} (h : b.Holds V) {t : Term} (ht : V t) : V (b.plug t) :=
  Bindings.plug_eq_plugTo b t ▸ h.plugTo hV _ ht

theorem Holds.plugKeys {b : Bindings} (h : b.Holds V) {fields : List (Term × Term)}
    (hf : ∀ f ∈ fields, V f.1 ∧ V f.2) : ∀ f ∈ b.plugKeys fields, V f.1 ∧ V f.2 := by
  intro f hmem
  obtain ⟨g, hg, rfl⟩ := List.mem_map.1 (Term.mem_sortFields hmem)
  exact ⟨h.plug hV (hf g hg).1, (hf g hg).2⟩

theorem extends_unifyTo (n : Nat) {x y : Term} (hx : V x) (hy : V y) : Extends V (unifyTo n x y) := by
  induction n generalizing x y with
  | zero => exact fun b b' _ h => by cases h
  | succ n ih =>
    intro b b' hb h
    have hx' := hb.deref hx
    have hy' := hb.deref hy
    unfold unifyTo at h
    generalize b.deref x = x' at h hx'
    generalize b.deref y = y' at h hy'
    split at h
    · split at h
      · exact extends_some b b' hb h
      · exact extends_bind hx' hy' b b' hb h
    · exact extends_bind hx' hy' b b' hb h
    · exact extends_bind hy' hx' b b' hb h
    · split at h
      · refine Extends.foldlM (fun a ha => ?_) b b' hb h
        exact ih (hV.array.1 hx' _ (List.of_mem_zip ha).1) (hV.array.1 hy' _ (List.of_mem_zip ha).2)
      · cases h
    · simp only at h
      split at h
      · refine Extends.foldlM (fun a ha => ?_) b b' hb h
        exact ih (hb.plugKeys hV (hV.object.1 hx') _ (List.of_mem_zip ha).1).2
          (hb.plugKeys hV (hV.object.1 hy') _ (List.of_mem_zip ha).2).2
      · cases h
    all_goals
      split at h
      · exact extends_some b b' hb h
      · cases h

theorem extends_unify {x y : Term} (hx : V x) (hy : V y) : Extends V (unify x y) :=
  fun b => extends_unifyTo hV _ hx hy b

theorem extends_unifyAll {params args : List Term} (hp : ∀ t ∈ params, V t) (ha : ∀ t ∈ args, V t) :
    Extends V (unifyAll params args) := by
  intro b b' hb h
  unfold unifyAll at h
  split at h
  · refine Extends.foldlM (fun a hmem => ?_) b b' hb h
    exact extends_unify hV (hp _ (List.of_mem_zip hmem).1) (ha _ (List.of_mem_zip hmem).2)
  · cases h

theorem extends_bindLocal {pattern value : Term} (hp : V pattern) (hv : V value) :
    Extends V (bindLocal pattern value) := by
  intro b b' hb h
  unfold bindLocal at h
  split at h
  · cases h
    rw [shadow]
    split
    · exact ⟨hb, List.suffix_rfl⟩
    · exact ⟨hb.assign hp fun t ht => by cases ht; exact hv, b.assign_suffix _ _⟩
  · exact extends_unify hV hp hv b b' hb h

theorem extends_bindEntry {key : Option Term} {value : Term} {entry : Term × Term}
    (hk : ∀ t, key = some t → V t) (hv : V value) (he : V entry.1 ∧ V entry.2) :
    Extends V (bindEntry key value entry) := by
  cases key with
  | none => exact extends_bindLocal hV hv he.2
  | some pattern => exact (extends_bindLocal hV (hk pattern rfl) he.1).bind (extends_bindLocal hV hv he.2)

end Unification

end Bindings
end PolicyEngine
