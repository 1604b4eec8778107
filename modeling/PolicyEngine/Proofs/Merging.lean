import PolicyEngine.Proofs.Layout

/-!
Merging documents into a store. A merge changes nothing that is stored: what could be read before can be read after it,
except that objects may have more fields. A merge that meets a contradiction is not undone. It ends where a merge of the
beginning of the data ends, up to the contradiction.
-/
namespace PolicyEngine

namespace Term

/-! ## What is kept -/

/-- What is read in a document is read in another one, too. Only objects may be others there. -/
def Keeps (t t' : Term) : Prop := ∀ path v, t.at? path = some v →
  t'.at? path = some v ∨ ∃ fields fields', v = .object fields ∧ t'.at? path = some (.object fields')

variable {t t' t'' old merged k : Term} {fields existing : List (Term × Term)}

theorem Keeps.refl (t : Term) : t.Keeps t := fun _ _ h => .inl h

theorem Keeps.trans (h : t.Keeps t') (h' : t'.Keeps t'') : t.Keeps t'' := by
  intro path v hv
  rcases h path v hv with hsame | ⟨fields, fields', rfl, hobject⟩
  · exact h' path v hsame
  · rcases h' path _ hobject with hsame | ⟨_, fields'', _, hobject'⟩
    · exact .inr ⟨fields, fields', rfl, hsame⟩
    · exact .inr ⟨fields, fields'', rfl, hobject'⟩

/-- An object keeps what it has when a field is added, or replaced by one that keeps what it had. -/
theorem Keeps.insertField (h : ∀ old, findField? k existing = some old → old.Keeps merged) :
    (Term.object existing).Keeps (.object (insertField k merged existing)) := by
  intro path v hv
  cases path with
  | nil =>
    cases hv
    exact .inr ⟨existing, _, rfl, rfl⟩
  | cons segment rest =>
    cases segment with
    | index position => cases hv
    | key name =>
      simp only [at?, child?] at hv ⊢
      cases hkey : Term.string name == k with
      | false =>
        rw [findField?_insertField_of_ne hkey]
        exact .inl hv
      | true =>
        obtain rfl := string_beq_iff.1 hkey
        obtain ⟨old, hold, hrest⟩ := Option.bind_eq_some_iff.1 hv
        rw [findField?_insertField_self, Option.bind_some]
        exact h old hold rest v hrest

/-- A field that is put back where it was changes nothing. -/
theorem insertField_of_findField? (h : findField? k fields = some old) : insertField k old fields = fields := by
  induction fields with
  | nil => cases h
  | cons f rest ih =>
    obtain ⟨key, value⟩ := f
    rw [findField?] at h
    rw [insertField]
    cases hcmp : k.cmp key with
    | lt =>
      rw [hcmp] at h
      cases h
    | eq =>
      rw [hcmp] at h
      cases h
      rfl
    | gt =>
      rw [hcmp] at h
      exact congrArg ((key, value) :: ·) (ih h)

end Term

/-! ## Merges, field by field -/

/-- One of two documents is no object, so they are not merged field by field. -/
def Term.Apart (old new : Term) : Prop := ∀ inner fields, old = .object inner → new ≠ .object fields

/-- How fields are merged into those of an object, with what comes of it. -/
inductive Merges : List String → List (Term × Term) → List (Term × Term) → List (Term × Term) →
    Except StorageError Unit → Prop where
  | done (path : List String) (existing : List (Term × Term)) : Merges path existing [] existing (.ok ())
  | added {path existing k v rest all result} (hnew : Term.findField? k existing = none)
    (hrest : Merges path (Term.insertField k v existing) rest all result) :
    Merges path existing ((k, v) :: rest) all result
  | equal {path existing k v rest all result old} (hold : Term.findField? k existing = some old)
    (hapart : Term.Apart old v) (hequal : (old == v) = true) (hrest : Merges path existing rest all result) :
    Merges path existing ((k, v) :: rest) all result
  | contradicts {path existing k v old} (hold : Term.findField? k existing = some old) (hapart : Term.Apart old v)
    (hequal : (old == v) = false) (rest : List (Term × Term)) :
    Merges path existing ((k, v) :: rest) existing (.error (.alreadyDefined (path ++ [mergeKeyText k])))
  | merged {path existing k rest all result inner fields innerAll}
    (hold : Term.findField? k existing = some (.object inner))
    (hinner : Merges (path ++ [mergeKeyText k]) inner fields innerAll (.ok ()))
    (hrest : Merges path (Term.insertField k (.object innerAll) existing) rest all result) :
    Merges path existing ((k, .object fields) :: rest) all result
  | failed {path existing k inner fields innerAll e} (hold : Term.findField? k existing = some (.object inner))
    (hinner : Merges (path ++ [mergeKeyText k]) inner fields innerAll (.error e)) (rest : List (Term × Term)) :
    Merges path existing ((k, .object fields) :: rest) (Term.insertField k (.object innerAll) existing) (.error e)

variable {path : List String} {existing fields all : List (Term × Term)} {result : Except StorageError Unit}
  {e : StorageError}

theorem mergeInto_object (path : List String) (existing fields : List (Term × Term)) :
    mergeInto path (.object existing) (.object fields) =
      (.object (mergeFields path existing fields).1, (mergeFields path existing fields).2) := rfl

theorem Term.bne_object {t : Term} (h : ∀ inner, t ≠ .object inner) (fields : List (Term × Term)) :
    (t == .object fields) = false := by
  rw [Bool.eq_false_iff]
  intro hequal
  have hrank := Term.rank_eq_of_cmp (Term.beq_iff_cmp.1 hequal)
  cases t with
  | object inner => exact h inner rfl
  | _ => exact absurd hrank (Nat.ne_of_beq_eq_false rfl)

/-- Unless both documents are objects the old one stays, and the new one must be equal to it. -/
theorem mergeInto_apart {old new : Term} (h : Term.Apart old new) :
    mergeInto path old new = (old, if old == new then .ok () else .error (.alreadyDefined path)) := by
  unfold mergeInto
  split
  · next fields =>
    split
    · exact absurd rfl (h _ _ rfl)
    · next hold => simp [Term.bne_object hold fields]
  · split <;> rfl

theorem Merges.eq (h : Merges path existing fields all result) : mergeFields path existing fields = (all, result) := by
  induction h with
  | done path existing => rfl
  | added hnew hrest ih => rw [mergeFields, hnew, ih]
  | equal hold hapart hequal hrest ih =>
    simp only [mergeFields, hold, mergeInto_apart hapart, hequal, if_true, Term.insertField_of_findField? hold, ih]
  | contradicts hold hapart hequal rest =>
    simp only [mergeFields, hold, mergeInto_apart hapart, hequal, Bool.false_eq_true, if_false,
      Term.insertField_of_findField? hold]
  | merged hold hinner hrest ihinner ihrest => simp only [mergeFields, hold, mergeInto_object, ihinner, ihrest]
  | failed hold hinner rest ih => simp only [mergeFields, hold, mergeInto_object, ih]

theorem exists_merges (path : List String) (existing fields : List (Term × Term)) :
    ∃ all result, Merges path existing fields all result := by
  cases fields with
  | nil => exact ⟨existing, _, .done path existing⟩
  | cons f rest =>
    obtain ⟨k, v⟩ := f
    cases hold : Term.findField? k existing with
    | none =>
      obtain ⟨all, result, hrest⟩ := exists_merges path (Term.insertField k v existing) rest
      exact ⟨all, result, .added hold hrest⟩
    | some old =>
      by_cases hobjects : ∃ inner fields, old = .object inner ∧ v = .object fields
      · obtain ⟨inner, fields, rfl, rfl⟩ := hobjects
        obtain ⟨innerAll, e | u, hinner⟩ := exists_merges (path ++ [mergeKeyText k]) inner fields
        · exact ⟨_, _, .failed hold hinner rest⟩
        · obtain ⟨all, result, hrest⟩ := exists_merges path (Term.insertField k (.object innerAll) existing) rest
          exact ⟨all, result, .merged hold hinner hrest⟩
      · have hapart : Term.Apart old v := fun inner fields hinner hfields => hobjects ⟨inner, fields, hinner, hfields⟩
        cases hequal : old == v with
        | false => exact ⟨_, _, .contradicts hold hapart hequal rest⟩
        | true =>
          obtain ⟨all, result, hrest⟩ := exists_merges path existing rest
          exact ⟨all, result, .equal hold hapart hequal hrest⟩
termination_by sizeOf fields

/-- The relation describes every merge. -/
theorem merges_iff : Merges path existing fields all result ↔ mergeFields path existing fields = (all, result) := by
  refine ⟨Merges.eq, fun h => ?_⟩
  obtain ⟨all', result', hmerges⟩ := exists_merges path existing fields
  cases h.symm.trans hmerges.eq
  exact hmerges

/-- A merge keeps what is there, whether it fails or not. -/
theorem Merges.keeps (h : Merges path existing fields all result) : (Term.object existing).Keeps (.object all) := by
  induction h with
  | done path existing => exact .refl _
  | added hnew hrest ih =>
    refine .trans (.insertField fun old hold => ?_) ih
    rw [hnew] at hold
    cases hold
  | equal hold hapart hequal hrest ih => exact ih
  | contradicts hold hapart hequal rest => exact .refl _
  | merged hold hinner hrest ihinner ihrest =>
    refine .trans (.insertField fun old' hold' => ?_) ihrest
    cases hold.symm.trans hold'
    exact ihinner
  | failed hold hinner rest ih =>
    refine .insertField fun old' hold' => ?_
    cases hold.symm.trans hold'
    exact ih

/-! ## Failed merges -/

/-- The fields are the beginning of others: they end before one of these, or within the fields of one. -/
inductive Begins : List (Term × Term) → List (Term × Term) → Prop where
  | before (fields : List (Term × Term)) : Begins [] fields
  | within (k : Term) {inner inner' : List (Term × Term)} (h : Begins inner inner') (rest : List (Term × Term)) :
    Begins [(k, .object inner)] ((k, .object inner') :: rest)
  | next (f : Term × Term) {part fields : List (Term × Term)} (h : Begins part fields) :
    Begins (f :: part) (f :: fields)

/-- A merge that fails ends as one of the beginning of the fields does. -/
theorem Merges.of_failed (h : Merges path existing fields all (.error e)) :
    ∃ part, Begins part fields ∧ Merges path existing part all (.ok ()) := by
  generalize hresult : (Except.error e : Except StorageError Unit) = result at h
  induction h with
  | done path existing => cases hresult
  | added hnew hrest ih =>
    obtain ⟨part, hpart, hmerges⟩ := ih hresult
    exact ⟨_, .next _ hpart, .added hnew hmerges⟩
  | equal hold hapart hequal hrest ih =>
    obtain ⟨part, hpart, hmerges⟩ := ih hresult
    exact ⟨_, .next _ hpart, .equal hold hapart hequal hmerges⟩
  | contradicts hold hapart hequal rest => exact ⟨[], .before _, .done _ _⟩
  | merged hold hinner hrest ihinner ihrest =>
    obtain ⟨part, hpart, hmerges⟩ := ihrest hresult
    exact ⟨_, .next _ hpart, .merged hold hinner hmerges⟩
  | failed hold hinner rest ih =>
    obtain ⟨part, hpart, hmerges⟩ := ih hresult
    exact ⟨_, .within _ hpart rest, .merged hold hmerges (.done _ _)⟩

/-- The fields before a contradiction are there afterwards. -/
example : mergeFields [] [(.string "b", .number 1)] [(.string "a", .number 1), (.string "b", .number 2)] =
    ([(.string "a", .number 1), (.string "b", .number 1)], .error (.alreadyDefined ["b"])) := by
  cbv

namespace Store

variable {s s' : Store} {data : Term}

/-- A merge keeps what is stored, whether it fails or not. -/
theorem merge_keeps (hroot : s.root = .object existing) (data : Term) : s.root.Keeps (s.merge data).1.root := by
  cases data with
  | object fields =>
    simp only [merge, hroot, mergeInto_object]
    exact (merges_iff.2 rfl).keeps
  | _ => exact .refl _

/-- A merge that fails ends as one of the beginning of the data does. Data that is no object is not merged at all. -/
theorem merge_failed (hroot : s.root = .object existing) (h : s.merge data = (s', .error e)) :
    (∀ fields, data ≠ .object fields) ∧ s' = s ∨
      ∃ fields part, data = .object fields ∧ Begins part fields ∧ s.merge (.object part) = (s', .ok ()) := by
  cases data with
  | object fields =>
    simp only [merge, hroot, mergeInto_object, Prod.mk.injEq] at h
    obtain ⟨rfl, hresult⟩ := h
    have hfailed : Merges [] existing fields (mergeFields [] existing fields).1 (.error e) :=
      merges_iff.2 (Prod.ext rfl hresult)
    obtain ⟨part, hpart, hmerges⟩ := hfailed.of_failed
    refine .inr ⟨fields, part, rfl, hpart, ?_⟩
    simp only [merge, hroot, mergeInto_object, hmerges.eq]
  | _ =>
    cases h
    exact .inl ⟨by rintro _ ⟨⟩, rfl⟩

end Store
end PolicyEngine
