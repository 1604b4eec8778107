import PolicyEngine.Proofs.Merging
import PolicyEngine.Proofs.Overlaying

/-!
Writes into a store. A write goes down its path and creates objects where there is nothing, in the root itself. All the
same it is done as a whole or not at all, since nothing can be in its way below an object it has created. What it
changes is what is read at its path, above and below, and it leaves every other document. The root it leaves is an
object unless something else was written in its place.
-/
namespace PolicyEngine

namespace Term

variable {value t t' u : Term} {fields : List (Term × Term)} {key : Term} {keys : List String} {path : StorePath}

/-! ## Filling a slot in place -/

/-- Fills the slot at a path in place. The objects created on the way down are there also when the way ends before the
slot. -/
def fill (value t : Term) : List String → Term × Except PathError Unit
  | [] => (value, .ok ())
  | key :: rest =>
    match t with
    | .object fields =>
      let entered := addField (.string key) emptyObject fields
      let (inner, result) := fill value ((findField? (.string key) entered).getD emptyObject) rest
      (.object (insertField (.string key) inner entered), result)
    | t => (t, .error ⟨key, t.typeName⟩)

theorem addField_of_findField? (h : findField? key fields = some u) (value : Term) :
    addField key value fields = fields := by
  induction fields with
  | nil => cases h
  | cons f rest ih =>
    obtain ⟨k, v⟩ := f
    rw [findField?] at h
    rw [addField]
    cases hcmp : key.cmp k with
    | lt =>
      rw [hcmp] at h
      cases h
    | eq => rfl
    | gt =>
      rw [hcmp] at h
      exact congrArg ((k, v) :: ·) (ih h)

theorem addField_of_findField?_none (h : findField? key fields = none) (value : Term) :
    addField key value fields = insertField key value fields := by
  induction fields with
  | nil => rfl
  | cons f rest ih =>
    obtain ⟨k, v⟩ := f
    rw [findField?] at h
    rw [addField, insertField]
    cases hcmp : key.cmp k with
    | lt => rfl
    | eq =>
      rw [hcmp] at h
      cases h
    | gt =>
      rw [hcmp] at h
      exact congrArg ((k, v) :: ·) (ih h)

/-- Of two values that are set in one field the later one stays. -/
theorem insertField_insertField (key value value' : Term) (fields : List (Term × Term)) :
    insertField key value (insertField key value' fields) = insertField key value fields := by
  induction fields with
  | nil => simp only [insertField, cmp_self]
  | cons f rest ih =>
    obtain ⟨k, v⟩ := f
    rw [insertField]
    cases hcmp : key.cmp k with
    | lt => simp only [insertField, cmp_self, hcmp]
    | eq => simp only [insertField, hcmp]
    | gt => simp only [insertField, hcmp, ih]

/-- Nothing is in the way of a write into an empty object. -/
theorem exists_setPath_emptyObject (value : Term) (keys : List String) :
    ∃ u, setPath value emptyObject keys = .ok u := by
  induction keys with
  | nil => exact ⟨value, rfl⟩
  | cons key rest ih =>
    obtain ⟨inner, hinner⟩ := ih
    refine ⟨.object [(.string key, inner)], ?_⟩
    rw [emptyObject, setPath, findField?, Option.getD_none, hinner]
    rfl

/-- Filling a slot in place changes nothing unless it succeeds. -/
theorem fill_eq (value t : Term) (keys : List String) : fill value t keys =
    match setPath value t keys with
    | .ok t' => (t', .ok ())
    | .error e => (t, .error e) := by
  induction keys generalizing t with
  | nil => rfl
  | cons key rest ih =>
    cases t with
    | object fields =>
      rw [fill, setPath]
      cases hold : findField? (.string key) fields with
      | some old =>
        simp only [addField_of_findField? hold, hold, Option.getD_some, ih old]
        cases setPath value old rest with
        | ok inner => rfl
        | error e => simp only [insertField_of_findField? hold]
      | none =>
        obtain ⟨inner, hinner⟩ := exists_setPath_emptyObject value rest
        simp only [addField_of_findField?_none hold, findField?_insertField_self, Option.getD_some, Option.getD_none,
          ih emptyObject, hinner, insertField_insertField]
    | _ => rfl

/-! ## What is found after a write -/

/-- What stands in the way of a write at a path: something other than an object above it. -/
def Blocks (t : Term) (path : StorePath) : Prop :=
  ∃ above u, above <+: path ∧ above ≠ path ∧ t.at? above = some u ∧ ∀ fields, u ≠ .object fields

theorem at?_key (fields : List (Term × Term)) (name : String) (path : StorePath) :
    (Term.object fields).at? (.key name :: path) = (findField? (.string name) fields).bind (at? · path) := rfl

theorem at?_emptyObject (h : path ≠ []) : emptyObject.at? path = none := by
  obtain ⟨segment, rest, rfl⟩ := List.exists_cons_of_ne_nil h
  cases segment <;> rfl

theorem not_blocks_emptyObject (path : StorePath) : ¬ emptyObject.Blocks path := by
  rintro ⟨above, u, -, -, hu, hleaf⟩
  by_cases habove : above = []
  · subst habove
    cases hu
    exact hleaf [] rfl
  · cases (at?_emptyObject habove).symm.trans hu

/-- In the way of a write into an object stands what is in the way within its field. -/
theorem blocks_cons_iff {name : String} : (Term.object fields).Blocks (.key name :: path) ↔
    ((findField? (.string name) fields).getD emptyObject).Blocks path := by
  constructor
  · rintro ⟨above, u, hpath, hne, hu, hleaf⟩
    cases above with
    | nil =>
      cases hu
      exact absurd rfl (hleaf fields)
    | cons segment above =>
      obtain ⟨rfl, hrest⟩ := List.cons_prefix_cons.1 hpath
      rw [at?_key, Option.bind_eq_some_iff] at hu
      obtain ⟨old, hold, hu⟩ := hu
      rw [hold, Option.getD_some]
      exact ⟨above, u, hrest, fun heq => hne (heq ▸ rfl), hu, hleaf⟩
  · cases hold : findField? (.string name) fields with
    | none => exact fun h => absurd h (not_blocks_emptyObject path)
    | some old =>
      rintro ⟨above, u, hpath, hne, hu, hleaf⟩
      refine ⟨.key name :: above, u, List.cons_prefix_cons.2 ⟨rfl, hpath⟩, fun heq => hne (List.cons.inj heq).2, ?_,
        hleaf⟩
      rw [at?_key, hold]
      exact hu

/-- A write fails when something is in its way, and only then. -/
theorem setPath_error_iff : (∃ e, setPath value t keys = .error e) ↔ t.Blocks (StorePath.ofKeys keys) := by
  induction keys generalizing t with
  | nil =>
    refine ⟨by rintro ⟨e, ⟨⟩⟩, ?_⟩
    rintro ⟨above, u, hpath, hne, -⟩
    exact absurd (List.prefix_nil.1 hpath) hne
  | cons key rest ih =>
    by_cases hobject : ∃ fields, t = .object fields
    · obtain ⟨fields, rfl⟩ := hobject
      rw [StorePath.ofKeys, List.map_cons, ← StorePath.ofKeys, blocks_cons_iff, ← ih, setPath]
      cases setPath value ((findField? (.string key) fields).getD emptyObject) rest with
      | ok inner => simp
      | error e => simp
    · rw [not_exists] at hobject
      refine iff_of_true ?_ ⟨[], t, List.nil_prefix, (List.cons_ne_nil _ _).symm, rfl, hobject⟩
      cases t with
      | object fields => exact absurd rfl (hobject fields)
      | _ => exact ⟨_, rfl⟩

/-- At the path of a write stands what was written. -/
theorem at?_setPath (h : setPath value t keys = .ok t') : t'.at? (StorePath.ofKeys keys) = some value := by
  induction keys generalizing t t' with
  | nil =>
    cases h
    rfl
  | cons key rest ih =>
    obtain ⟨fields, inner, rfl, hinner, rfl⟩ := setPath_cons_eq_ok h
    rw [StorePath.ofKeys, List.map_cons, ← StorePath.ofKeys, at?_key, findField?_insertField_self]
    exact ih hinner

/-- Above the path of a write stand objects. -/
theorem at?_setPath_above (h : setPath value t keys = .ok t') (hpath : path <+: StorePath.ofKeys keys)
    (hne : path ≠ StorePath.ofKeys keys) : ∃ fields, t'.at? path = some (.object fields) := by
  induction keys generalizing t t' path with
  | nil => exact absurd (List.prefix_nil.1 hpath) hne
  | cons key rest ih =>
    obtain ⟨fields, inner, rfl, hinner, rfl⟩ := setPath_cons_eq_ok h
    cases path with
    | nil => exact ⟨_, rfl⟩
    | cons segment path =>
      rw [StorePath.ofKeys, List.map_cons, ← StorePath.ofKeys] at hpath hne
      obtain ⟨rfl, hrest⟩ := List.cons_prefix_cons.1 hpath
      rw [at?_key, findField?_insertField_self]
      exact ih hinner hrest fun heq => hne (heq ▸ rfl)

/-- A write leaves what is neither above nor below its path. -/
theorem at?_setPath_apart (h : setPath value t keys = .ok t') (habove : ¬ path <+: StorePath.ofKeys keys)
    (hbelow : ¬ StorePath.ofKeys keys <+: path) : t'.at? path = t.at? path := by
  induction keys generalizing t t' path with
  | nil => exact absurd List.nil_prefix hbelow
  | cons key rest ih =>
    obtain ⟨fields, inner, rfl, hinner, rfl⟩ := setPath_cons_eq_ok h
    rw [StorePath.ofKeys, List.map_cons, ← StorePath.ofKeys] at habove hbelow
    cases path with
    | nil => exact absurd List.nil_prefix habove
    | cons segment path =>
      cases segment with
      | index position => rfl
      | key name =>
        rw [List.cons_prefix_cons] at habove hbelow
        rw [at?_key, at?_key]
        by_cases hname : name = key
        · subst hname
          rw [findField?_insertField_self, Option.bind_some,
            ih hinner (fun hp => habove ⟨rfl, hp⟩) fun hp => hbelow ⟨rfl, hp⟩]
          cases findField? (.string name) fields with
          | none =>
            refine at?_emptyObject ?_
            rintro rfl
            exact habove ⟨rfl, List.nil_prefix⟩
          | some old => rfl
        · rw [findField?_insertField_of_ne (string_bne hname)]

end Term

namespace Store

variable {s s' : Store} {path : StorePath} {value : Term} {keys : List String} {txn : Transaction}

/-- Writes in place: what a failed write has created stays in the root. -/
def overwrite (path : StorePath) (value : Term) (s : Store) : Store × Except StorageError Unit :=
  match writableKeys path with
  | .error e => (s, .error e)
  | .ok keys =>
    match Term.fill value s.root keys with
    | (root, .ok ()) => ({ s with root := root }, .ok ())
    | (root, .error e) => ({ s with root := root }, .error (.unwritable e))

/-- A transaction that sees the root as it is. -/
def Current (s : Store) (txn : Transaction) : Prop := s.view txn = s.root

theorem current_beginRead (s : Store) : s.beginRead.2.Current s.beginRead.1 := rfl

theorem current_unpinned (s : Store) (id : Nat) : s.Current ⟨id, none⟩ := rfl

theorem Current.read (h : s.Current txn) (path : StorePath) : s.read txn path = s.root.at? path := by
  rw [Store.read, h]

theorem writableKeys_eq_ok (h : writableKeys path = .ok keys) : path = StorePath.ofKeys keys := by
  induction path generalizing keys with
  | nil =>
    cases h
    rfl
  | cons segment rest ih =>
    cases segment with
    | index position => cases h
    | key name =>
      rw [writableKeys] at h
      cases hrest : writableKeys rest with
      | error e =>
        rw [hrest] at h
        cases h
      | ok names =>
        rw [hrest] at h
        cases h
        rw [ih hrest]
        rfl

theorem writableKeys_error_iff : (∃ e, writableKeys path = .error e) ↔ ∃ position, .index position ∈ path := by
  induction path with
  | nil => simp [writableKeys]
  | cons segment rest ih =>
    cases segment with
    | index position => simp [writableKeys]
    | key name =>
      simp only [writableKeys, List.mem_cons, reduceCtorEq, false_or, ← ih]
      cases writableKeys rest <;> simp [Except.map]

/-- Writing in place comes to the same as writing into a copy of the root: a failed write changes nothing. -/
theorem overwrite_eq (path : StorePath) (value : Term) (s : Store) : s.overwrite path value =
    match s.write path value with
    | .ok s' => (s', .ok ())
    | .error e => (s, .error e) := by
  rw [overwrite, write]
  cases writableKeys path with
  | error e => rfl
  | ok keys =>
    simp only [Term.fill_eq]
    cases Term.setPath value s.root keys <;> rfl

/-- A write that succeeds fills the slot at keys. -/
theorem write_eq_ok (h : s.write path value = .ok s') : ∃ keys root, path = StorePath.ofKeys keys ∧
    Term.setPath value s.root keys = .ok root ∧ s' = { s with root := root } := by
  rw [write] at h
  split at h
  · cases h
  · next keys hkeys =>
    split at h
    · next root hset =>
      cases h
      exact ⟨keys, root, writableKeys_eq_ok hkeys, hset, rfl⟩
    · cases h

/-- A write fails at an index, and when something is in its way. -/
theorem write_error_iff : (∃ e, s.write path value = .error e) ↔
    (∃ position, .index position ∈ path) ∨ s.root.Blocks path := by
  rw [write]
  cases hkeys : writableKeys path with
  | error e => exact iff_of_true ⟨e, rfl⟩ (.inl (writableKeys_error_iff.1 ⟨e, hkeys⟩))
  | ok keys =>
    have hindex : ¬ ∃ position, .index position ∈ path := by
      rw [← writableKeys_error_iff, hkeys]
      rintro ⟨e, ⟨⟩⟩
    have hblocks : (∃ e, Term.setPath value s.root keys = .error e) ↔ _ := Term.setPath_error_iff
    rw [or_iff_right hindex, writableKeys_eq_ok hkeys, ← hblocks]
    cases hset : Term.setPath value s.root keys <;> simp [hset]

/-- Writes are atomic and local. One in place fails at an index or when something is in its way, and then leaves the
store as it was. Otherwise the value is read at its path, objects are read above it, and what was read before is read
at every path that is neither above nor below it. -/
theorem overwrite_local (path : StorePath) (value : Term) (s : Store) :
    ((∃ s' e, s.overwrite path value = (s', .error e)) ↔
      (∃ position, .index position ∈ path) ∨ s.root.Blocks path) ∧
    (∀ s' e, s.overwrite path value = (s', .error e) → s.write path value = .error e ∧ s' = s) ∧
    ∀ s' txn txn', s.overwrite path value = (s', .ok ()) → s.Current txn → s'.Current txn' →
      s.write path value = .ok s' ∧ s'.read txn' path = some value ∧
      (∀ other, ¬ other <+: path → ¬ path <+: other → s'.read txn' other = s.read txn other) ∧
      ∀ above, above <+: path → above ≠ path → ∃ fields, s'.read txn' above = some (.object fields) := by
  have hfails : (∃ e, s.write path value = .error e) ↔ _ := write_error_iff
  rw [overwrite_eq, ← hfails]
  cases hwrite : s.write path value with
  | error e => exact ⟨by simp, by rintro s' _ ⟨⟩; exact ⟨rfl, rfl⟩, by rintro s' txn txn' ⟨⟩⟩
  | ok root =>
    refine ⟨by simp, by rintro s' _ ⟨⟩, ?_⟩
    rintro s' txn txn' ⟨⟩ htxn htxn'
    obtain ⟨keys, root', rfl, hset, rfl⟩ := write_eq_ok hwrite
    refine ⟨rfl, ?_, fun other habove hbelow => ?_, fun above hpath hne => ?_⟩
    · rw [htxn'.read]
      exact Term.at?_setPath hset
    · rw [htxn'.read, htxn.read]
      exact Term.at?_setPath_apart hset habove hbelow
    · rw [htxn'.read]
      exact Term.at?_setPath_above hset hpath hne

end Store

namespace Services

/-- A root with a list and a number. -/
def store : Store := { root := .object [(.string "ports", .object [(.string "web", .array [.number 80, .number 443])]),
  (.string "version", .number 1)] }

def path : StorePath := StorePath.ofKeys ["ports", "mail", "secure"]

def written : Store := (store.overwrite path (.number 993)).1

/-- A port is written below an object that is created for it, next to a list that stays; below the number nothing can be
written. -/
theorem overwrite_ports :
    store.overwrite path (.number 993) = (written, .ok ()) ∧ written.read ⟨0, none⟩ path = some (.number 993) ∧
    written.read ⟨0, none⟩ [.key "ports", .key "web", .index 1] =
      store.read store.beginRead.1 [.key "ports", .key "web", .index 1] ∧
    (∃ fields, written.read ⟨0, none⟩ (StorePath.ofKeys ["ports", "mail"]) = some (.object fields)) ∧
    ∃ s' e, store.overwrite (StorePath.ofKeys ["version", "major"]) .null = (s', .error e) ∧ s' = store := by
  have hok : store.overwrite path (.number 993) = (written, .ok ()) := by cbv
  obtain ⟨-, -, hwritten⟩ := Store.overwrite_local path (.number 993) store
  obtain ⟨-, hread, hapart, habove⟩ := hwritten written store.beginRead.1 ⟨0, none⟩ hok
    (Store.current_beginRead store) (Store.current_unpinned written 0)
  refine ⟨hok, hread, hapart _ (by decide) (by decide), habove _ (by decide) (by decide), ?_⟩
  obtain ⟨hfails, hunchanged, -⟩ := Store.overwrite_local (StorePath.ofKeys ["version", "major"]) .null store
  have hnumber : ∀ fields, Term.number 1 ≠ .object fields := by
    rintro fields ⟨⟩
  obtain ⟨s', e, h⟩ := hfails.2 (.inr ⟨StorePath.ofKeys ["version"], .number 1, by decide, by decide, by cbv, hnumber⟩)
  exact ⟨s', e, h, (hunchanged s' e h).2⟩

end Services

/-! ## The root -/

def Term.isObject : Term → Bool
  | .object _ => true
  | _ => false

namespace Store

/-- What changes a store. -/
inductive Update where
  | write (path : StorePath) (value : Term)
  | merge (data : Term)

variable {s : Store} {root : Term} {us : List Update}

/-- The store after an update, whether it succeeds or not. -/
def Update.apply (s : Store) : Update → Store
  | .write path value => (s.overwrite path value).1
  | .merge data => (s.merge data).1

/-- The document that an update puts in the place of the root. -/
def Update.newRoot? : Update → Option Term
  | .write [] value => some value
  | _ => none

theorem isObject_ofRoot (h : Store.ofRoot root = .ok s) : s.root.isObject = true := by
  cases root with
  | object fields =>
    cases h
    rfl
  | _ => cases h

/-- A merge leaves an object an object, and anything else as it is. -/
theorem isObject_merge (data : Term) (s : Store) : (s.merge data).1.root.isObject = s.root.isObject := by
  cases data with
  | object fields =>
    cases hroot : s.root with
    | object existing => simp only [merge, hroot, mergeInto_object, Term.isObject]
    | _ => simp only [merge, hroot, mergeInto, Term.isObject]
  | _ => rfl

theorem isObject_apply (u : Update) (s : Store) : (u.apply s).root.isObject = (u.newRoot?.getD s.root).isObject := by
  cases u with
  | merge data => exact isObject_merge data s
  | write path value =>
    rw [Update.apply, overwrite_eq]
    cases hwrite : s.write path value with
    | error e =>
      cases path with
      | nil => cases hwrite
      | cons segment rest => rfl
    | ok s' =>
      obtain ⟨keys, root', rfl, hset, rfl⟩ := write_eq_ok hwrite
      cases keys with
      | nil =>
        cases hset
        rfl
      | cons key rest =>
        obtain ⟨fields, inner, hroot, -, rfl⟩ := Term.setPath_cons_eq_ok hset
        show _ = s.root.isObject
        rw [hroot]
        rfl

/-- After any updates the root is an object when the last document that was put in its place is one, or when there was
none and the root was one. -/
theorem isObject_foldl_apply (us : List Update) (s : Store) :
    (us.foldl Update.apply s).root.isObject = ((us.filterMap Update.newRoot?).getLast?.getD s.root).isObject := by
  induction us generalizing s with
  | nil => rfl
  | cons u rest ih =>
    rw [List.foldl_cons, ih, List.filterMap_cons]
    have hstep := isObject_apply u s
    cases hnew : u.newRoot? with
    | none =>
      rw [hnew, Option.getD_none] at hstep
      cases (rest.filterMap Update.newRoot?).getLast? with
      | none => exact hstep
      | some root => rfl
    | some root =>
      rw [hnew, Option.getD_some] at hstep
      rw [List.getLast?_cons]
      cases (rest.filterMap Update.newRoot?).getLast? with
      | none => exact hstep
      | some root' => rfl

/-- The root stays an object as long as nothing else is put in its place. -/
theorem isObject_updates (hroot : s.root.isObject = true)
    (h : ∀ value, Update.write [] value ∈ us → value.isObject = true) :
    (us.foldl Update.apply s).root.isObject = true := by
  rw [isObject_foldl_apply]
  cases hlast : (us.filterMap Update.newRoot?).getLast? with
  | none => exact hroot
  | some root' =>
    obtain ⟨u, hu, hnew⟩ := List.mem_filterMap.1 (List.mem_of_getLast? hlast)
    match u, hnew with
    | .write [] value, rfl => exact h value hu

end Store
end PolicyEngine
