import PolicyEngine.Proofs.Collections
import PolicyEngine.Proofs.Indexing
import PolicyEngine.Proofs.Merging

/-!
Documents that are part of others: what is found in them along keys is found in the others, too, with the same value or
as an object that may have more fields. A merge that succeeds gives the least document that both are part of, and one
succeeds whenever there is such a document. So the order of merges does not matter, and a second merge of the same
document finds nothing to do.
-/
namespace PolicyEngine

namespace Term

variable {t u v w k key value : Term} {fields fields' existing : List (Term × Term)}

/-! ## Parts of documents -/

/-- What is found along keys through nested objects. -/
def along (t : Term) : List Term → Option Term
  | [] => some t
  | key :: rest =>
    match t with
    | .object fields => (findField? key fields).bind (along · rest)
    | _ => none

/-- The terms have the same value, or both are objects. -/
def Meets (v w : Term) : Prop := Same v w ∨ ∃ fields fields', v = .object fields ∧ w = .object fields'

/-- What is found in one document is found in another one, which may have more fields. -/
def PartOf (t u : Term) : Prop := ∀ keys v, t.along keys = some v → ∃ w, u.along keys = some w ∧ Meets v w

/-- Only objects are equal to objects. -/
theorem exists_object_of_same (h : Same t (.object fields)) : ∃ fields', t = .object fields' := by
  by_contra hnone
  rw [not_exists] at hnone
  cases (bne_object hnone fields).symm.trans h

theorem Meets.trans (h : Meets t u) (h' : Meets u v) : Meets t v := by
  rcases h with h | ⟨fields, fields', rfl, rfl⟩ <;> rcases h' with h' | ⟨fields'', fields''', hu, rfl⟩
  · exact .inl (beq_trans h h')
  · obtain ⟨fields, rfl⟩ := exists_object_of_same (hu ▸ h)
    exact .inr ⟨_, _, rfl, rfl⟩
  · obtain ⟨fields'', rfl⟩ := exists_object_of_same (beq_symm h')
    exact .inr ⟨_, _, rfl, rfl⟩
  · exact .inr ⟨_, _, rfl, rfl⟩

theorem PartOf.refl (t : Term) : t.PartOf t := fun _ v h => ⟨v, h, .inl (beq_refl v)⟩

theorem PartOf.trans (h : t.PartOf u) (h' : u.PartOf v) : t.PartOf v := by
  intro keys x hx
  obtain ⟨y, hy, hxy⟩ := h keys x hx
  obtain ⟨z, hz, hyz⟩ := h' keys y hy
  exact ⟨z, hz, hxy.trans hyz⟩

/-- A document other than an object is part of its equals. -/
theorem partOf_iff_same (h : ∀ fields, t ≠ .object fields) : t.PartOf u ↔ Same t u := by
  refine ⟨fun hpart => ?_, fun hsame keys v hv => ?_⟩
  · obtain ⟨w, hw, hsame | ⟨fields, _, hobject, _⟩⟩ := hpart [] t rfl
    · exact Option.some.inj hw ▸ hsame
    · exact absurd hobject (h fields)
  · cases keys with
    | nil => exact ⟨u, rfl, .inl (Option.some.inj hv ▸ hsame)⟩
    | cons key rest =>
      cases t with
      | object fields => exact absurd rfl (h fields)
      | _ => cases hv

/-- An object is part of another one when each of its fields is part of the field there. -/
theorem partOf_object_iff :
    (Term.object fields).PartOf u ↔ ∃ fields', u = .object fields' ∧
      ∀ k v, findField? k fields = some v → ∃ w, findField? k fields' = some w ∧ v.PartOf w := by
  constructor
  · intro h
    obtain ⟨u', hu, hmeets⟩ := h [] _ rfl
    obtain rfl := Option.some.inj hu
    obtain ⟨fields', rfl⟩ : ∃ fields', u = .object fields' := by
      rcases hmeets with hsame | ⟨_, fields', _, rfl⟩
      · exact exists_object_of_same (beq_symm hsame)
      · exact ⟨fields', rfl⟩
    refine ⟨fields', rfl, fun k v hv => ?_⟩
    obtain ⟨w, hw, -⟩ := h [k] v (by simp only [along, hv, Option.bind_some])
    simp only [along, Option.bind_eq_some_iff] at hw
    obtain ⟨w', hw', -⟩ := hw
    refine ⟨w', hw', fun keys x hx => ?_⟩
    obtain ⟨y, hy, hxy⟩ := h (k :: keys) x (by simp only [along, hv, Option.bind_some, hx])
    simp only [along, hw', Option.bind_some] at hy
    exact ⟨y, hy, hxy⟩
  · rintro ⟨fields', rfl, h⟩ keys v hv
    cases keys with
    | nil =>
      cases hv
      exact ⟨_, rfl, .inr ⟨_, _, rfl, rfl⟩⟩
    | cons k rest =>
      simp only [along, Option.bind_eq_some_iff] at hv ⊢
      obtain ⟨x, hx, hrest⟩ := hv
      obtain ⟨y, hy, hxy⟩ := h k x hx
      obtain ⟨w, hw, hvw⟩ := hxy rest v hrest
      exact ⟨w, ⟨y, hy, hw⟩, hvw⟩

theorem partOf_fields_iff : (Term.object fields).PartOf (.object fields') ↔
    ∀ k v, findField? k fields = some v → ∃ w, findField? k fields' = some w ∧ v.PartOf w := by
  rw [partOf_object_iff]
  refine ⟨?_, fun h => ⟨fields', rfl, h⟩⟩
  rintro ⟨_, ⟨⟩, h⟩
  exact h

/-! ## Changes to a field -/

/-- What is found after setting a field. -/
theorem findField?_insertField (k key value : Term) (fields : List (Term × Term)) :
    findField? k (insertField key value fields) = if k == key then some value else findField? k fields := by
  cases h : k == key with
  | true => rw [findField?_congr h, findField?_insertField_self, if_pos rfl]
  | false => rw [findField?_insertField_of_ne h, if_neg Bool.false_ne_true]

/-- An object is part of the one with a field added, or replaced by one that the old one is part of. -/
theorem partOf_insertField (h : ∀ old, findField? key fields = some old → old.PartOf value) :
    (Term.object fields).PartOf (.object (insertField key value fields)) := by
  refine partOf_fields_iff.2 fun k v hv => ?_
  rw [findField?_insertField]
  cases hkey : k == key with
  | true => exact ⟨value, rfl, h v (findField?_congr hkey fields ▸ hv)⟩
  | false => exact ⟨v, hv, .refl v⟩

/-- An object with a field set is part of what the object and the field are part of. -/
theorem insertField_partOf (h : (Term.object fields).PartOf (.object fields'))
    (hfield : ∃ w, findField? key fields' = some w ∧ value.PartOf w) :
    (Term.object (insertField key value fields)).PartOf (.object fields') := by
  refine partOf_fields_iff.2 fun k v hv => ?_
  rw [findField?_insertField] at hv
  cases hkey : k == key with
  | true =>
    rw [hkey] at hv
    cases hv
    rwa [findField?_congr hkey]
  | false =>
    rw [hkey] at hv
    exact partOf_fields_iff.1 h k v hv

/-! ## Documents in order -/

/-- The fields of the document, and of the objects in its fields, are in the order of their keys. -/
inductive Orderly : Term → Prop where
  | leaf {t : Term} (h : ∀ fields, t ≠ .object fields) : Orderly t
  | object {fields : List (Term × Term)} (hsorted : SortedBy Prod.fst fields) (h : ∀ f ∈ fields, Orderly f.2) :
    Orderly (.object fields)

theorem orderly_object_iff :
    (Term.object fields).Orderly ↔ SortedBy Prod.fst fields ∧ ∀ f ∈ fields, f.2.Orderly := by
  constructor
  · rintro (h | ⟨hsorted, h⟩)
    · exact absurd rfl (h fields)
    · exact ⟨hsorted, h⟩
  · rintro ⟨hsorted, h⟩
    exact .object hsorted h

theorem orderly_number (n : Number) : (Term.number n).Orderly := .leaf nofun

theorem orderly_string (s : String) : (Term.string s).Orderly := .leaf nofun

theorem Orderly.tail {f : Term × Term} (h : (Term.object (f :: fields)).Orderly) : (Term.object fields).Orderly := by
  rw [orderly_object_iff, SortedBy, List.pairwise_cons, List.forall_mem_cons] at h
  exact .object h.1.2 h.2.2

theorem Orderly.head {f : Term × Term} (h : (Term.object (f :: fields)).Orderly) : f.2.Orderly :=
  (orderly_object_iff.1 h).2 f List.mem_cons_self

theorem Orderly.findField? (h : (Term.object fields).Orderly) (hv : Term.findField? key fields = some v) :
    v.Orderly := by
  obtain ⟨k, hmem, -⟩ := mem_of_findField?_eq hv
  exact (orderly_object_iff.1 h).2 _ hmem

theorem Orderly.insertField (h : (Term.object fields).Orderly) (hv : value.Orderly) :
    (Term.object (insertField key value fields)).Orderly := by
  rw [orderly_object_iff] at h ⊢
  refine ⟨h.1.insertField, fun f hf => ?_⟩
  rcases mem_insertField hf with ⟨hvalue, -⟩ | hf
  · exact hvalue ▸ hv
  · exact h.2 f hf

/-- In sorted fields every field is found under its key. -/
theorem SortedBy.findField? {f : Term × Term} (h : SortedBy Prod.fst fields) (hf : f ∈ fields) :
    Term.findField? f.1 fields = some f.2 := by
  induction fields with
  | nil => cases hf
  | cons first rest ih =>
    rw [SortedBy, List.pairwise_cons] at h
    rw [Term.findField?]
    rcases List.mem_cons.1 hf with rfl | hf
    · rw [cmp_self]
    · rw [cmp_swap first.1, h.1 f hf]
      exact ih h.2 hf

/-- The first field is part of the field there of what all are part of. -/
theorem PartOf.head (h : (Term.object ((key, value) :: fields)).PartOf (.object fields')) :
    ∃ w, Term.findField? key fields' = some w ∧ value.PartOf w :=
  partOf_fields_iff.1 h key value (by simp only [Term.findField?, cmp_self])

/-- The fields after the first are part of what all are part of. -/
theorem PartOf.tail {f : Term × Term} (hsorted : SortedBy Prod.fst (f :: fields))
    (h : (Term.object (f :: fields)).PartOf u) : (Term.object fields).PartOf u := by
  refine PartOf.trans (partOf_fields_iff.2 fun k v hv => ?_) h
  obtain ⟨k', hmem, hkey⟩ := mem_of_findField?_eq hv
  have hfound := hsorted.findField? (List.mem_cons_of_mem f hmem)
  exact ⟨v, (findField?_congr hkey _).trans hfound, .refl v⟩

/-- Documents in order that are part of each other are equal. -/
theorem PartOf.antisymm (ht : t.Orderly) (hu : u.Orderly) (h : t.PartOf u) (h' : u.PartOf t) : Same t u := by
  induction ht generalizing u with
  | leaf hleaf => exact (partOf_iff_same hleaf).1 h
  | @object fields hsorted hfields ih =>
    obtain ⟨fields', rfl, hin⟩ := partOf_object_iff.1 h
    rw [partOf_fields_iff] at h'
    rw [orderly_object_iff] at hu
    -- A field that is found in both is equal in both.
    have hsame : ∀ k v w, findField? k fields = some v → findField? k fields' = some w → Same v w := by
      intro k v w hv hw
      obtain ⟨w', hw', hvw⟩ := hin k v hv
      cases hw.symm.trans hw'
      obtain ⟨v', hv', hwv⟩ := h' k w hw
      cases hv.symm.trans hv'
      obtain ⟨kv, hmem, -⟩ := mem_of_findField?_eq hv
      obtain ⟨kw, hmem', -⟩ := mem_of_findField?_eq hw
      exact ih _ hmem (hu.2 _ hmem') hvw hwv
    refine object_beq_of_within hsorted hu.1 (fun f hf => ?_) fun f hf => ?_
    · have hv := hsorted.findField? hf
      obtain ⟨w, hw, -⟩ := hin _ _ hv
      obtain ⟨k, hmem, hkey⟩ := mem_of_findField?_eq hw
      exact ⟨(k, w), hmem, hkey, hsame _ _ _ hv hw⟩
    · have hw := hu.1.findField? hf
      obtain ⟨v, hv, -⟩ := h' _ _ hw
      obtain ⟨k, hmem, hkey⟩ := mem_of_findField?_eq hv
      exact ⟨(k, v), hmem, hkey, beq_symm (hsame _ _ _ hv hw)⟩

end Term

/-! ## Merges -/

open Term

variable {path : List String} {existing fields all : List (Term × Term)} {result : Except StorageError Unit}
  {old new u : Term}

/-- A merge leaves what was there as part of the outcome, whether it fails or not. -/
theorem Merges.existing_partOf (h : Merges path existing fields all result) :
    (Term.object existing).PartOf (.object all) := by
  induction h with
  | done path existing => exact .refl _
  | added hnew hrest ih =>
    refine .trans (partOf_insertField fun old hold => ?_) ih
    cases hnew.symm.trans hold
  | equal hold hapart hequal hrest ih => exact ih
  | contradicts hold hapart hequal rest => exact .refl _
  | merged hold hinner hrest ihinner ihrest =>
    refine .trans (partOf_insertField fun old' hold' => ?_) ihrest
    cases hold.symm.trans hold'
    exact ihinner
  | failed hold hinner rest ih =>
    refine partOf_insertField fun old' hold' => ?_
    cases hold.symm.trans hold'
    exact ih

/-- One of two equal documents that are no objects is part of what the other is part of. -/
theorem Term.Apart.partOf (h : Apart old new) (hequal : (old == new) = true) (hpart : old.PartOf u) : new.PartOf u := by
  have hnew : ∀ fields, new ≠ .object fields := by
    rintro fields rfl
    obtain ⟨inner, rfl⟩ := exists_object_of_same hequal
    exact h inner fields rfl rfl
  exact ((partOf_iff_same hnew).2 (beq_symm hequal)).trans hpart

/-- Documents that are part of a third one, and are not both objects, are equal. -/
theorem Term.Apart.same_of_partOf (h : Apart old new) (hold : old.PartOf u) (hnew : new.PartOf u) : Same old new := by
  by_cases hobject : ∃ inner, old = .object inner
  · obtain ⟨inner, rfl⟩ := hobject
    obtain ⟨fields, rfl, -⟩ := partOf_object_iff.1 hold
    have hleaf : ∀ fields, new ≠ .object fields := fun fields => h inner fields rfl
    obtain ⟨fields', hnewObject⟩ := exists_object_of_same ((partOf_iff_same hleaf).1 hnew)
    exact absurd hnewObject (hleaf fields')
  · rw [not_exists] at hobject
    have hsame := (partOf_iff_same hobject).1 hold
    have hleaf : ∀ fields, new ≠ .object fields := by
      rintro fields rfl
      obtain ⟨fields', rfl, -⟩ := partOf_object_iff.1 hnew
      obtain ⟨inner, holdObject⟩ := exists_object_of_same hsame
      exact hobject inner holdObject
    exact beq_trans hsame (beq_symm ((partOf_iff_same hleaf).1 hnew))

/-- A field before others is part of a document when the field and the others are. -/
theorem Term.cons_partOf {k v w : Term} {rest : List (Term × Term)} (hv : findField? k all = some w) (hvw : v.PartOf w)
    (hrest : (Term.object rest).PartOf (.object all)) : (Term.object ((k, v) :: rest)).PartOf (.object all) := by
  refine partOf_fields_iff.2 fun k' v' hv' => ?_
  rw [findField?] at hv'
  split at hv'
  · cases hv'
  · next hcmp =>
    cases hv'
    exact ⟨w, (findField?_congr (beq_iff_cmp.2 hcmp) all).trans hv, hvw⟩
  · exact partOf_fields_iff.1 hrest k' v' hv'

/-- A merge that succeeds has what was merged as part of its outcome. -/
theorem Merges.fields_partOf (h : Merges path existing fields all (.ok ())) :
    (Term.object fields).PartOf (.object all) := by
  generalize hresult : (Except.ok () : Except StorageError Unit) = result at h
  induction h with
  | done path existing => exact partOf_fields_iff.2 fun k v hv => by cases hv
  | added hnew hrest ih =>
    obtain ⟨w, hw, hvw⟩ := partOf_fields_iff.1 hrest.existing_partOf _ _ (findField?_insertField_self ..)
    exact cons_partOf hw hvw (ih hresult)
  | equal hold hapart hequal hrest ih =>
    obtain ⟨w, hw, holdw⟩ := partOf_fields_iff.1 hrest.existing_partOf _ _ hold
    exact cons_partOf hw (hapart.partOf hequal holdw) (ih hresult)
  | contradicts hold hapart hequal rest => cases hresult
  | merged hold hinner hrest ihinner ihrest =>
    obtain ⟨w, hw, hinnerw⟩ := partOf_fields_iff.1 hrest.existing_partOf _ _ (findField?_insertField_self ..)
    exact cons_partOf hw ((ihinner rfl).trans hinnerw) (ihrest hresult)
  | failed hold hinner rest ih => cases hresult

/-- A merge succeeds when both documents are part of a third, and so is its outcome. -/
theorem Merges.bounded (h : Merges path existing fields all result) (hfields : (Term.object fields).Orderly)
    (hexisting : (Term.object existing).PartOf u) (hpart : (Term.object fields).PartOf u) :
    result = .ok () ∧ (Term.object all).PartOf u := by
  induction h generalizing u with
  | done path existing => exact ⟨rfl, hexisting⟩
  | added hnew hrest ih =>
    obtain ⟨us, rfl, -⟩ := partOf_object_iff.1 hpart
    exact ih hfields.tail (insertField_partOf hexisting hpart.head) (hpart.tail (orderly_object_iff.1 hfields).1)
  | equal hold hapart hequal hrest ih =>
    exact ih hfields.tail hexisting (hpart.tail (orderly_object_iff.1 hfields).1)
  | contradicts hold hapart hequal rest =>
    -- Both the old value and the new one would be part of what is found in the third document.
    obtain ⟨us, rfl, -⟩ := partOf_object_iff.1 hpart
    obtain ⟨w, hw, hvw⟩ := hpart.head
    obtain ⟨w', hw', holdw⟩ := partOf_fields_iff.1 hexisting _ _ hold
    cases hw.symm.trans hw'
    cases hequal.symm.trans (hapart.same_of_partOf holdw hvw)
  | merged hold hinner hrest ihinner ihrest =>
    obtain ⟨us, rfl, -⟩ := partOf_object_iff.1 hpart
    obtain ⟨w, hw, hvw⟩ := hpart.head
    obtain ⟨w', hw', holdw⟩ := partOf_fields_iff.1 hexisting _ _ hold
    cases hw.symm.trans hw'
    exact ihrest hfields.tail (insertField_partOf hexisting ⟨w, hw, (ihinner hfields.head holdw hvw).2⟩)
      (hpart.tail (orderly_object_iff.1 hfields).1)
  | failed hold hinner rest ih =>
    obtain ⟨us, rfl, -⟩ := partOf_object_iff.1 hpart
    obtain ⟨w, hw, hvw⟩ := hpart.head
    obtain ⟨w', hw', holdw⟩ := partOf_fields_iff.1 hexisting _ _ hold
    cases hw.symm.trans hw'
    cases (ih hfields.head holdw hvw).1

theorem Merges.orderly (h : Merges path existing fields all result) (hexisting : (Term.object existing).Orderly)
    (hfields : (Term.object fields).Orderly) : (Term.object all).Orderly := by
  induction h with
  | done path existing => exact hexisting
  | added hnew hrest ih => exact ih (hexisting.insertField hfields.head) hfields.tail
  | equal hold hapart hequal hrest ih => exact ih hexisting hfields.tail
  | contradicts hold hapart hequal rest => exact hexisting
  | merged hold hinner hrest ihinner ihrest =>
    exact ihrest (hexisting.insertField (ihinner (hexisting.findField? hold) hfields.head)) hfields.tail
  | failed hold hinner rest ih => exact hexisting.insertField (ih (hexisting.findField? hold) hfields.head)

/-- Fields that are part of an object are merged into it without a change. -/
theorem Merges.of_partOf (h : Merges path existing fields all result) (hfields : (Term.object fields).Orderly)
    (hpart : (Term.object fields).PartOf (.object existing)) : all = existing ∧ result = .ok () := by
  induction h with
  | done path existing => exact ⟨rfl, rfl⟩
  | added hnew hrest ih =>
    obtain ⟨w, hw, -⟩ := hpart.head
    cases hnew.symm.trans hw
  | equal hold hapart hequal hrest ih => exact ih hfields.tail (hpart.tail (orderly_object_iff.1 hfields).1)
  | contradicts hold hapart hequal rest =>
    obtain ⟨w, hw, hvw⟩ := hpart.head
    cases hold.symm.trans hw
    cases hequal.symm.trans (hapart.same_of_partOf (.refl _) hvw)
  | merged hold hinner hrest ihinner ihrest =>
    obtain ⟨w, hw, hvw⟩ := hpart.head
    cases hold.symm.trans hw
    obtain ⟨rfl, -⟩ := ihinner hfields.head hvw
    rw [insertField_of_findField? hold] at ihrest
    exact ihrest hfields.tail (hpart.tail (orderly_object_iff.1 hfields).1)
  | failed hold hinner rest ih =>
    obtain ⟨w, hw, hvw⟩ := hpart.head
    cases hold.symm.trans hw
    cases (ih hfields.head hvw).2

/-- A document that is part of another one is merged into it without a change. -/
theorem mergeInto_of_partOf (hnew : new.Orderly) (h : new.PartOf old) (path : List String) :
    mergeInto path old new = (old, .ok ()) := by
  by_cases hobject : ∃ fields, new = .object fields
  · obtain ⟨fields, rfl⟩ := hobject
    obtain ⟨existing, rfl, -⟩ := partOf_object_iff.1 h
    obtain ⟨all, result, hmerges⟩ := exists_merges path existing fields
    obtain ⟨rfl, rfl⟩ := hmerges.of_partOf hnew h
    rw [mergeInto_object, hmerges.eq]
  · rw [not_exists] at hobject
    rw [mergeInto_apart fun _ fields _ => hobject fields, if_pos (beq_symm ((partOf_iff_same hobject).1 h))]

/-- A first field that is part of what is there is merged without a change. -/
theorem mergeFields_cons_of_partOf {k v w : Term} (hw : findField? k existing = some w) (hv : v.Orderly)
    (h : v.PartOf w) (path : List String) (rest : List (Term × Term)) :
    mergeFields path existing ((k, v) :: rest) = mergeFields path existing rest := by
  simp only [mergeFields, hw, mergeInto_of_partOf hv h, insertField_of_findField? hw]

/-- Merging once more what was merged changes nothing and comes to the same, also when it failed. -/
theorem Merges.again (h : Merges path existing fields all result) (hfields : (Term.object fields).Orderly) :
    mergeFields path all fields = (all, result) := by
  induction h with
  | done path existing => rfl
  | added hnew hrest ih =>
    obtain ⟨w, hw, hvw⟩ := partOf_fields_iff.1 hrest.existing_partOf _ _ (findField?_insertField_self ..)
    rw [mergeFields_cons_of_partOf hw hfields.head hvw, ih hfields.tail]
  | equal hold hapart hequal hrest ih =>
    obtain ⟨w, hw, holdw⟩ := partOf_fields_iff.1 hrest.existing_partOf _ _ hold
    rw [mergeFields_cons_of_partOf hw hfields.head (hapart.partOf hequal holdw), ih hfields.tail]
  | contradicts hold hapart hequal rest => exact (Merges.contradicts hold hapart hequal rest).eq
  | merged hold hinner hrest ihinner ihrest =>
    obtain ⟨w, hw, hinnerw⟩ := partOf_fields_iff.1 hrest.existing_partOf _ _ (findField?_insertField_self ..)
    rw [mergeFields_cons_of_partOf hw hfields.head (hinner.fields_partOf.trans hinnerw), ihrest hfields.tail]
  | failed hold hinner rest ih =>
    simp only [mergeFields, findField?_insertField_self, mergeInto_object, ih hfields.head,
      insertField_of_findField? (findField?_insertField_self ..)]

/-! ## Loading documents -/

namespace Store

variable {s s' : Store} {data : Term} {docs docs' : List Term}

/-- Merges documents one after another, until one contradicts. -/
def mergeAll (s : Store) : List Term → Store × Except StorageError Unit
  | [] => (s, .ok ())
  | data :: rest =>
    match s.merge data with
    | (s', .ok ()) => s'.mergeAll rest
    | (s', .error e) => (s', .error e)

theorem merge_object (hroot : s.root = .object existing) (h : Merges [] existing fields all result) :
    s.merge (.object fields) = ({ s with root := .object all }, result) := by
  simp only [merge, hroot, mergeInto_object, h.eq]

/-- A merge that succeeds merges an object into an object. -/
theorem merge_eq_ok (h : s.merge data = (s', .ok ())) : ∃ existing fields all, s.root = .object existing ∧
    data = .object fields ∧ s' = { s with root := .object all } ∧ Merges [] existing fields all (.ok ()) := by
  cases data with
  | object fields =>
    cases hroot : s.root with
    | object existing =>
      obtain ⟨all, result, hmerges⟩ := exists_merges [] existing fields
      rw [merge_object hroot hmerges] at h
      cases h
      exact ⟨existing, fields, all, rfl, rfl, rfl, hmerges⟩
    | _ =>
      rw [merge, hroot] at h
      cases h
  | _ => cases h

/-- What is loaded has the root before it and every document as parts, and is in order. -/
theorem mergeAll_partOf (h : s.mergeAll docs = (s', .ok ())) :
    s.root.PartOf s'.root ∧ ∀ data ∈ docs, data.PartOf s'.root := by
  induction docs generalizing s with
  | nil =>
    cases h
    exact ⟨.refl _, List.forall_mem_nil _⟩
  | cons data rest ih =>
    rw [mergeAll] at h
    split at h
    · next s₁ hmerge =>
      obtain ⟨existing, fields, all, hroot, rfl, rfl, hmerges⟩ := merge_eq_ok hmerge
      obtain ⟨hall, hrest⟩ := ih h
      refine ⟨hroot ▸ hmerges.existing_partOf.trans hall, List.forall_mem_cons.2 ⟨?_, hrest⟩⟩
      exact hmerges.fields_partOf.trans hall
    · cases h

theorem mergeAll_orderly (h : s.mergeAll docs = (s', .ok ())) (hs : s.root.Orderly)
    (hdocs : ∀ data ∈ docs, data.Orderly) :
    s'.root.Orderly := by
  induction docs generalizing s with
  | nil =>
    cases h
    exact hs
  | cons data rest ih =>
    rw [List.forall_mem_cons] at hdocs
    rw [mergeAll] at h
    split at h
    · next s₁ hmerge =>
      obtain ⟨existing, fields, all, hroot, rfl, rfl, hmerges⟩ := merge_eq_ok hmerge
      exact ih h (hmerges.orderly (hroot ▸ hs) hdocs.1) hdocs.2
    · cases h

/-- Documents are loaded when they and the root are part of one document, and the outcome is part of it, too. -/
theorem exists_mergeAll (hroot : s.root = .object existing) (hpart : s.root.PartOf u)
    (hdocs : ∀ data ∈ docs, data.Orderly ∧ data.PartOf u) :
    ∃ s', s.mergeAll docs = (s', .ok ()) ∧ s'.root.PartOf u := by
  induction docs generalizing s existing with
  | nil => exact ⟨s, rfl, hpart⟩
  | cons data rest ih =>
    rw [List.forall_mem_cons] at hdocs
    rw [hroot] at hpart
    obtain ⟨us, rfl, -⟩ := partOf_object_iff.1 hpart
    obtain ⟨fields, rfl⟩ : ∃ fields, data = .object fields := by
      by_contra hleaf
      rw [not_exists] at hleaf
      obtain ⟨fields, hobject⟩ := exists_object_of_same ((partOf_iff_same hleaf).1 hdocs.1.2)
      exact hleaf fields hobject
    obtain ⟨all, result, hmerges⟩ := exists_merges [] existing fields
    obtain ⟨rfl, hall⟩ := hmerges.bounded hdocs.1.1 hpart hdocs.1.2
    rw [mergeAll, merge_object hroot hmerges]
    exact ih rfl hall hdocs.2

/-- The order in which documents are loaded does not matter, and merging a document again changes nothing. -/
theorem mergeAll_perm (hroot : s.root = .object existing) (hs : s.root.Orderly)
    (hdocs : ∀ data ∈ docs, data.Orderly) :
    (∀ docs' s', docs.Perm docs' → s.mergeAll docs = (s', .ok ()) →
      ∃ s'', s.mergeAll docs' = (s'', .ok ()) ∧ (s''.root == s'.root) = true) ∧
    ∀ data ∈ docs, (s.merge data).1.merge data = s.merge data := by
  refine ⟨fun docs' s' hperm h => ?_, fun data hdata => ?_⟩
  · have hdocs' : ∀ data ∈ docs', data.Orderly := fun data hdata => hdocs data (hperm.mem_iff.2 hdata)
    obtain ⟨hrootPart, hparts⟩ := mergeAll_partOf h
    obtain ⟨s'', h', hle⟩ := exists_mergeAll hroot hrootPart fun data hdata =>
      ⟨hdocs' data hdata, hparts data (hperm.mem_iff.2 hdata)⟩
    obtain ⟨hrootPart', hparts'⟩ := mergeAll_partOf h'
    obtain ⟨s₁, h₁, hle'⟩ := exists_mergeAll hroot hrootPart' fun data hdata =>
      ⟨hdocs data hdata, hparts' data (hperm.mem_iff.1 hdata)⟩
    cases h.symm.trans h₁
    exact ⟨s'', h', hle.antisymm (mergeAll_orderly h' hs hdocs') (mergeAll_orderly h hs hdocs) hle'⟩
  · cases data with
    | object fields =>
      obtain ⟨all, result, hmerges⟩ := exists_merges [] existing fields
      rw [merge_object hroot hmerges]
      simp only [merge, mergeInto_object, hmerges.again (hdocs _ hdata)]
    | _ => rfl

end Store

namespace Quotas

/-- A root with a limit. -/
def store : Store := { root := .object [(.string "limits", .object [(.string "cpu", .number 1)])] }

/-- The limit once more, as a floating-point number, beside a name. -/
def named : Term := .object [(.string "limits", .object [(.string "cpu", .number (.float ⟨0x3FF0000000000000⟩))]),
  (.string "name", .string "small")]

/-- Limits of memory: none at first. -/
def memory : Term := .object [(.string "limits", .object [(.string "memory", .object [])])]

def capped : Term := .object [(.string "limits", .object [(.string "memory", .object [(.string "max", .number 2)])])]

def loaded : Term := .object [(.string "limits", .object [(.string "cpu", .number 1),
  (.string "memory", .object [(.string "max", .number 2)])]), (.string "name", .string "small")]

theorem orderly_store : store.root.Orderly := by
  simp [store, Term.orderly_object_iff, Term.SortedBy, Term.orderly_number]

theorem orderly_named : named.Orderly := by
  have hkeys : (Term.string "limits").cmp (.string "name") = .lt := by decide +kernel
  simp [named, hkeys, Term.orderly_object_iff, Term.SortedBy, Term.orderly_number, Term.orderly_string]

theorem orderly_memory : memory.Orderly := by
  simp [memory, Term.orderly_object_iff, Term.SortedBy]

theorem orderly_capped : capped.Orderly := by
  simp [capped, Term.orderly_object_iff, Term.SortedBy, Term.orderly_number]

/-- The three documents are loaded in both orders, to the same, and the limit may be given twice. -/
theorem mergeAll_quotas : (store.mergeAll [memory, named, capped]).2 = .ok () ∧
    (∃ s'', store.mergeAll [capped, named, memory] = (s'', .ok ()) ∧ (s''.root == loaded) = true) ∧
    (store.merge named).1.merge named = store.merge named := by
  have hok : (store.mergeAll [memory, named, capped]).2 = .ok () := Except.eq_ok_of_isOk (by decide +kernel) ()
  have hroot : ((store.mergeAll [memory, named, capped]).1.root == loaded) = true := by decide +kernel
  have hdocs : ∀ data ∈ [memory, named, capped], data.Orderly := by
    simp [orderly_memory, orderly_named, orderly_capped]
  obtain ⟨hperm, htwice⟩ := Store.mergeAll_perm (s := store) rfl orderly_store hdocs
  obtain ⟨s'', h, hsame⟩ := hperm [capped, named, memory] _ (List.reverse_perm [capped, named, memory])
    (Prod.ext rfl hok)
  exact ⟨hok, ⟨s'', h, Term.beq_trans hsame hroot⟩, htwice named (by simp)⟩

end Quotas
end PolicyEngine
