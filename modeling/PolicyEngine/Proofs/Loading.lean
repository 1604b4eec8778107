import PolicyEngine.Proofs.Hereditary

/-!
Documents loaded from JSON. They are made of scalars, arrays and objects whose keys are strings, and so is everything
in them. A store into which only such documents were merged holds one, also after a merge that failed half-way.
-/
namespace PolicyEngine

/-- A scalar, an array or an object whose keys are strings. -/
inductive Term.IsJson : Term → Prop where
  | scalar {t : Term} : t.isScalar = true → IsJson t
  | array {items : List Term} : (∀ t ∈ items, IsJson t) → IsJson (.array items)
  | object {fields : List (Term × Term)} : (∀ f ∈ fields, ∃ name, f.1 = .string name) → (∀ f ∈ fields, IsJson f.2) →
      IsJson (.object fields)

namespace Term.IsJson

theorem object_iff {fields : List (Term × Term)} : (Term.object fields).IsJson ↔
    (∀ f ∈ fields, ∃ name, f.1 = .string name) ∧ ∀ f ∈ fields, f.2.IsJson := by
  refine ⟨fun h => ?_, fun h => .object h.1 h.2⟩
  cases h with
  | scalar h => cases h
  | object hkeys hvalues => exact ⟨hkeys, hvalues⟩

theorem emptyObject : Term.emptyObject.IsJson := .object (List.forall_mem_nil _) (List.forall_mem_nil _)

theorem isGround {t : Term} (h : t.IsJson) : t.isGround = true := by
  induction h with
  | scalar h => exact hereditary_isGround.scalar h
  | array _ ih => exact hereditary_isGround.array.2 ih
  | object hkeys _ ih =>
    refine hereditary_isGround.object.2 fun f hf => ⟨?_, ih f hf⟩
    obtain ⟨name, hname⟩ := hkeys f hf
    rw [hname]
    rfl

theorem insertField {name : String} {v : Term} {fields : List (Term × Term)} (h : (Term.object fields).IsJson)
    (hv : v.IsJson) : (Term.object (Term.insertField (.string name) v fields)).IsJson := by
  obtain ⟨hkeys, hvalues⟩ := object_iff.1 h
  refine .object (fun f hf => ?_) fun f hf => ?_
  · rcases mem_insertField hf with ⟨-, hkey | ⟨v', hold⟩⟩ | hf
    · exact ⟨name, hkey⟩
    · exact hkeys (f.1, v') hold
    · exact hkeys f hf
  · rcases mem_insertField hf with ⟨hvalue, -⟩ | hf
    · exact hvalue ▸ hv
    · exact hvalues f hf

theorem findField? {k v : Term} {fields : List (Term × Term)} (h : (Term.object fields).IsJson)
    (hv : Term.findField? k fields = some v) : v.IsJson := by
  obtain ⟨k', hk'⟩ := mem_of_findField? hv
  exact (object_iff.1 h).2 _ hk'

theorem child? {t v : Term} {segment : PathSegment} (h : t.IsJson) (hv : t.child? segment = some v) : v.IsJson := by
  cases h with
  | scalar h => cases t <;> cases h <;> cases hv
  | array h =>
    cases segment with
    | index i => exact h v (List.mem_of_getElem? hv)
    | key name =>
      obtain ⟨i, -, hi⟩ := Option.bind_eq_some_iff.1 hv
      exact h v (List.mem_of_getElem? hi)
  | object hkeys hvalues =>
    cases segment with
    | index i => cases hv
    | key name => exact findField? (.object hkeys hvalues) hv

theorem at? {t v : Term} {path : StorePath} (h : t.IsJson) (hv : t.at? path = some v) : v.IsJson :=
  at?_of_child? (fun _ _ _ => child?) h hv

end Term.IsJson

mutual
/-- What a JSON value stands for is such a document. -/
theorem Term.isJson_ofJson? : ∀ (json : Json) {t : Term}, Term.ofJson? json = some t → t.IsJson
  | .null, _, h | .bool _, _, h | .string _, _, h => by
    cases h
    exact .scalar rfl
  | .number n, _, h => by
    cases h
    cases n <;> exact .scalar rfl
  | .array items, t, h => by
    obtain ⟨ts, hts, rfl⟩ := Option.map_eq_some_iff.1 h
    exact .array (Term.isJson_ofJsonItems? items hts)
  | .object [], t, h => by
    cases h
    exact .emptyObject
  | .object ((key, .string s) :: rest), t, h => by
    rw [Term.ofJson?] at h
    split at h
    · split at h
      · obtain ⟨n, -, rfl⟩ := Option.map_eq_some_iff.1 h
        exact .scalar rfl
      · cases h
    · obtain ⟨fields, hfields, rfl⟩ := Option.map_eq_some_iff.1 h
      exact Term.isJson_ofJsonFields? rest (Term.IsJson.emptyObject.insertField (.scalar rfl)) hfields
  | .object ((key, .null) :: rest), _, h | .object ((key, .bool _) :: rest), _, h
  | .object ((key, .number _) :: rest), _, h | .object ((key, .array _) :: rest), _, h
  | .object ((key, .object _) :: rest), _, h => by
    obtain ⟨fields, hfields, rfl⟩ := Option.map_eq_some_iff.1 h
    exact Term.isJson_ofJsonFields? ((key, _) :: rest) .emptyObject hfields
theorem Term.isJson_ofJsonItems? : ∀ (items : List Json) {ts : List Term}, Term.ofJsonItems? items = some ts →
    ∀ t ∈ ts, t.IsJson
  | [], ts, h => by
    cases h
    nofun
  | v :: rest, ts, h => by
    rw [Term.ofJsonItems?] at h
    split at h
    · cases h
    · next t ht =>
      obtain ⟨ts, hts, rfl⟩ := Option.map_eq_some_iff.1 h
      exact List.forall_mem_cons.2 ⟨Term.isJson_ofJson? v ht, Term.isJson_ofJsonItems? rest hts⟩
theorem Term.isJson_ofJsonFields? : ∀ (fs : List (String × Json)) {fields fields' : List (Term × Term)},
    (Term.object fields).IsJson → Term.ofJsonFields? fs fields = some fields' → (Term.object fields').IsJson
  | [], _, _, hf, h => by
    cases h
    exact hf
  | (k, v) :: rest, _, _, hf, h => by
    rw [Term.ofJsonFields?] at h
    split at h
    · cases h
    · next t ht => exact Term.isJson_ofJsonFields? rest (hf.insertField (Term.isJson_ofJson? v ht)) h
end

/-! ## Merging -/

mutual
/-- What documents from JSON merge to is such a document, contradictions or not. -/
theorem Term.IsJson.mergeInto (path : List String) {old : Term} (h : old.IsJson) :
    ∀ new : Term, new.IsJson → (PolicyEngine.mergeInto path old new).1.IsJson
  | .object fields, hnew => by
    rw [PolicyEngine.mergeInto.eq_def]
    dsimp only
    split
    · exact Term.IsJson.mergeFields path h fields hnew
    · exact h
  | .null, _ | .bool _, _ | .number _, _ | .string _, _ | .array _, _ | .set _, _ | .var _, _ | .ref _ _, _
  | .call _ _, _ | .arrayCompr _ _, _ | .setCompr _ _, _ | .objectCompr _ _ _, _ => by
    rw [PolicyEngine.mergeInto.eq_def]
    dsimp only
    split <;> exact h
theorem Term.IsJson.mergeFields (path : List String) {existing : List (Term × Term)}
    (h : (Term.object existing).IsJson) : ∀ fields : List (Term × Term), (Term.object fields).IsJson →
      (Term.object (PolicyEngine.mergeFields path existing fields).1).IsJson
  | [], _ => h
  | (k, v) :: rest, hfields => by
    obtain ⟨hkeys, hvalues⟩ := Term.IsJson.object_iff.1 hfields
    simp only [List.forall_mem_cons] at hkeys hvalues
    obtain ⟨⟨name, rfl⟩, hkeys⟩ := hkeys
    have hrest := Term.IsJson.object_iff.2 ⟨hkeys, hvalues.2⟩
    rw [PolicyEngine.mergeFields]
    split
    · exact Term.IsJson.mergeFields path (h.insertField hvalues.1) rest hrest
    · next old hold =>
      have hmerged := Term.IsJson.mergeInto (path ++ [mergeKeyText (.string name)]) (h.findField? hold) v hvalues.1
      split
      · next merged hm =>
        rw [hm] at hmerged
        exact Term.IsJson.mergeFields path (h.insertField hmerged) rest hrest
      · next merged e hm =>
        rw [hm] at hmerged
        exact h.insertField hmerged
end

/-- The store holds what was loaded from JSON, and answers at every path. -/
structure Store.Loaded (st : Store) : Prop where
  root : st.root.IsJson
  answers : st.failing = []

theorem Store.loaded_empty : ({} : Store).Loaded := ⟨.emptyObject, rfl⟩

theorem Store.Loaded.merge {st : Store} (h : st.Loaded) {data : Term} (hdata : data.IsJson) :
    (st.merge data).1.Loaded := by
  unfold Store.merge
  split
  · exact ⟨Term.IsJson.mergeInto [] h.root _ hdata, h.answers⟩
  · exact h

/-- Whatever documents from JSON are merged into an empty store one after another, taken or refused. -/
theorem Store.loaded_of_merges {docs : List Term} (hdocs : ∀ data ∈ docs, data.IsJson) :
    (docs.foldl (fun st data => (st.merge data).1) ({} : Store)).Loaded := by
  suffices hmerges : ∀ st : Store, st.Loaded → (docs.foldl (fun st data => (st.merge data).1) st).Loaded from
    hmerges {} loaded_empty
  induction docs with
  | nil => exact fun _ h => h
  | cons data rest ih =>
    rw [List.forall_mem_cons] at hdocs
    exact fun st h => ih hdocs.2 _ (h.merge hdocs.1)

end PolicyEngine
