import PolicyEngine.Proofs.Enumeration
import PolicyEngine.Proofs.Merging
import PolicyEngine.Proofs.Signatures
import PolicyEngine.Proofs.Substitution

/-!
Terms that are part of others, and unions of objects. What being part means changes with the kinds of the terms: fields
are found under their keys with values that are part of the values there, members of a set are members, the items of an
array are a run of items, and the members of a set are among the items of an array. Together these make a preorder. A
union of objects has the second of them as a part, and uniting it with that object again changes nothing.
-/
namespace PolicyEngine
namespace Builtin

open Term

variable {a b c u v w key : Term} {fields fields' part : List (Term × Term)} {run items xs ys zs : List Term}

/-! ## Runs -/

theorem startsWithTerms_iff : startsWithTerms xs run = true ↔ ∃ front, front <+: xs ∧ List.Forall₂ Same front run := by
  induction run generalizing xs with
  | nil =>
    rw [startsWithTerms]
    exact iff_of_true rfl ⟨[], List.nil_prefix, .nil⟩
  | cons r run ih =>
    cases xs with
    | nil =>
      refine iff_of_false Bool.false_ne_true ?_
      rintro ⟨front, hfront, hsame⟩
      rw [List.prefix_nil.1 hfront] at hsame
      cases hsame
    | cons x xs =>
      rw [startsWithTerms, Bool.and_eq_true, ih]
      constructor
      · rintro ⟨hx, front, hfront, hsame⟩
        exact ⟨x :: front, (List.prefix_cons_inj x).2 hfront, .cons hx hsame⟩
      · rintro ⟨front, hfront, hsame⟩
        cases hsame with
        | @cons y _ front _ hy hsame =>
          obtain ⟨rfl, hrest⟩ := List.cons_prefix_cons.1 hfront
          exact ⟨hy, front, hrest, hsame⟩

/-- A list has a run if one of its own is equal to it item by item. -/
theorem hasRun_iff : hasRun run xs = true ↔ ∃ inner, inner <:+: xs ∧ List.Forall₂ Same inner run := by
  induction xs with
  | nil =>
    rw [hasRun, List.isEmpty_iff]
    constructor
    · rintro rfl
      exact ⟨[], List.nil_infix, .nil⟩
    · rintro ⟨inner, hinner, hsame⟩
      rw [List.infix_nil.1 hinner] at hsame
      cases hsame
      rfl
  | cons x xs ih =>
    rw [hasRun, Bool.or_eq_true, startsWithTerms_iff, ih, ← exists_or]
    refine exists_congr fun inner => ?_
    rw [List.infix_cons_iff, or_and_right]

theorem hasRun_refl (xs : List Term) : hasRun xs xs = true :=
  hasRun_iff.2 ⟨xs, List.infix_rfl, List.forall₂_same.2 fun x _ => Same.refl x⟩

/-- What lies in a list that is equal to another one item by item has a counterpart there. -/
theorem exists_infix_of_forall₂ (h : List.Forall₂ Same xs ys) {inner : List Term} (hinner : inner <:+: ys) :
    ∃ inner', inner' <:+: xs ∧ List.Forall₂ Same inner' inner := by
  obtain ⟨before, after, rfl⟩ := hinner
  have hfront := List.forall₂_take_append xs (before ++ inner) after h
  have hinner := List.forall₂_drop_append (xs.take (before ++ inner).length) before inner hfront
  exact ⟨_, (List.drop_suffix _ _).isInfix.trans (List.take_prefix _ _).isInfix, hinner⟩

theorem hasRun_trans (h : hasRun ys xs = true) (h' : hasRun zs ys = true) : hasRun zs xs = true := by
  rw [hasRun_iff] at h h' ⊢
  obtain ⟨inner, hinner, hsame⟩ := h
  obtain ⟨inner', hinner', hsame'⟩ := h'
  obtain ⟨inner'', hinner'', hsame''⟩ := exists_infix_of_forall₂ hsame hinner'
  exact ⟨inner'', hinner''.trans hinner, same_array.1 ((same_array.2 hsame'').trans (same_array.2 hsame'))⟩

/-- Every item of a run has an equal item. -/
theorem exists_same_of_hasRun (h : hasRun run xs = true) : ∀ r ∈ run, ∃ x ∈ xs, Same x r := by
  obtain ⟨inner, hinner, hsame⟩ := hasRun_iff.1 h
  intro r hr
  obtain ⟨x, hx, hxr⟩ := within_of_forall₂ (hsame.flip.imp fun _ _ => Same.symm) r hr
  exact ⟨x, hinner.subset hx, hxr.symm⟩

/-! ## Being part -/

theorem same_of_findMember? {t m : Term} {members : List Term} (h : findMember? t members = some m) :
    m ∈ members ∧ Same t m := by
  refine ⟨mem_of_findMember? h, ?_⟩
  induction members with
  | nil => cases h
  | cons first rest ih =>
    rw [findMember?] at h
    split at h
    · cases h
    · next hcmp =>
      cases h
      exact same_iff_cmp.2 hcmp
    · exact ih h

theorem fieldsSubset_iff : fieldsSubset fields part = true ↔
    ∀ f ∈ part, ∃ v, findField? f.1 fields = some v ∧ isSubset v f.2 = true := by
  induction part with
  | nil =>
    rw [fieldsSubset]
    exact iff_of_true rfl (List.forall_mem_nil _)
  | cons f rest ih =>
    rw [fieldsSubset, Bool.and_eq_true, ih, List.forall_mem_cons]
    refine and_congr_left fun _ => ?_
    cases findField? f.1 fields with
    | none => simp
    | some v => simp

/-- An object is part of an object that has its keys, with values that its own are part of. -/
theorem isSubset_object_iff : isSubset w (.object part) = true ↔
    ∃ fields, w = .object fields ∧ ∀ f ∈ part, ∃ v, findField? f.1 fields = some v ∧ isSubset v f.2 = true := by
  rw [isSubset.eq_def]
  cases w with
  | object fields => simp [fieldsSubset_iff]
  | _ => simp

/-- A set is part of a set that has its members, and of an array that has an item equal to each of them. -/
theorem isSubset_set_iff : isSubset w (.set xs) = true ↔
    (∃ members, w = .set members ∧ ∀ t ∈ xs, containsMember t members = true) ∨
      ∃ items, w = .array items ∧ ∀ t ∈ xs, ∃ x ∈ items, Same x t := by
  rw [isSubset.eq_def]
  cases w with
  | set members => simp
  | array items => simp [Same]
  | _ => simp

/-- An array is part of an array that has it as a run. -/
theorem isSubset_array_iff : isSubset w (.array run) = true ↔
    ∃ items, w = .array items ∧ hasRun run items = true := by
  rw [isSubset.eq_def]
  cases w with
  | array items => simp
  | _ => simp

/-- Everything else is part of its equals. -/
theorem isSubset_other_iff (h : u.rank < 4 ∨ 6 < u.rank) : isSubset w u = true ↔ Same w u := by
  cases u with
  | array | object | set => simp [rank] at h
  | _ => exact Iff.rfl

/-- The objects that are compared field by field, and the sets, are in order. -/
inductive Arranged : Term → Prop where
  | object {fields : List (Term × Term)} : SortedBy Prod.fst fields → (∀ f ∈ fields, Arranged f.2) →
      Arranged (.object fields)
  | set {members : List Term} : SortedBy id members → Arranged (.set members)
  | array {items : List Term} : Arranged (.array items)
  | other {t : Term} : t.rank < 4 ∨ 6 < t.rank → Arranged t

theorem isSubset_refl (ha : Arranged a) : isSubset a a = true := by
  induction ha with
  | @object fields hsorted _ ih =>
    exact isSubset_object_iff.2 ⟨fields, rfl, fun f hf => ⟨f.2, hsorted.findField? hf, ih f hf⟩⟩
  | @set members hsorted =>
    refine isSubset_set_iff.2 (.inl ⟨members, rfl, fun t ht => ?_⟩)
    rw [containsMember, (findMember?_eq_some_iff hsorted).2 ⟨ht, beq_refl t⟩, Option.isSome_some]
  | @array items => exact isSubset_array_iff.2 ⟨items, rfl, hasRun_refl items⟩
  | other hrank => exact (isSubset_other_iff hrank).2 (.refl _)

theorem isSubset_set_trans (h : isSubset a b = true) (h' : isSubset b (.set xs) = true) :
    isSubset a (.set xs) = true := by
  rcases isSubset_set_iff.1 h' with ⟨members, rfl, hmembers⟩ | ⟨items, rfl, hitems⟩
  · have hmiddle : ∀ t ∈ xs, ∃ m ∈ members, Same t m := fun t ht =>
      let ⟨m, hm⟩ := Option.isSome_iff_exists.1 (hmembers t ht)
      ⟨m, same_of_findMember? hm⟩
    rcases isSubset_set_iff.1 h with ⟨all, rfl, hall⟩ | ⟨all, rfl, hall⟩
    · refine isSubset_set_iff.2 (.inl ⟨all, rfl, fun t ht => ?_⟩)
      obtain ⟨m, hm, htm⟩ := hmiddle t ht
      rw [containsMember, findMember?_congr htm]
      exact hall m hm
    · refine isSubset_set_iff.2 (.inr ⟨all, rfl, fun t ht => ?_⟩)
      obtain ⟨m, hm, htm⟩ := hmiddle t ht
      obtain ⟨x, hx, hxm⟩ := hall m hm
      exact ⟨x, hx, hxm.trans htm.symm⟩
  · obtain ⟨all, rfl, hrun⟩ := isSubset_array_iff.1 h
    refine isSubset_set_iff.2 (.inr ⟨all, rfl, fun t ht => ?_⟩)
    obtain ⟨m, hm, hmt⟩ := hitems t ht
    obtain ⟨x, hx, hxm⟩ := exists_same_of_hasRun hrun m hm
    exact ⟨x, hx, hxm.trans hmt⟩

theorem isSubset_other_trans (hrank : c.rank < 4 ∨ 6 < c.rank) (h : isSubset a b = true) (h' : isSubset b c = true) :
    isSubset a c = true := by
  rw [isSubset_other_iff hrank] at h' ⊢
  rw [isSubset_other_iff (h'.rank_eq ▸ hrank)] at h
  exact h.trans h'

mutual
/-- A part of a part is a part, whatever their kinds are. -/
theorem isSubset_trans : ∀ (c : Term) {a b : Term}, isSubset a b = true → isSubset b c = true → isSubset a c = true
  | .object part, _, _, h, h' => by
    obtain ⟨fields', rfl, hpart⟩ := isSubset_object_iff.1 h'
    obtain ⟨fields, rfl, hall⟩ := isSubset_object_iff.1 h
    exact isSubset_object_iff.2 ⟨fields, rfl, fieldsSubset_trans part hall hpart⟩
  | .set _, _, _, h, h' => isSubset_set_trans h h'
  | .array _, _, _, h, h' => by
    obtain ⟨items', rfl, hpart⟩ := isSubset_array_iff.1 h'
    obtain ⟨items, rfl, hall⟩ := isSubset_array_iff.1 h
    exact isSubset_array_iff.2 ⟨items, rfl, hasRun_trans hall hpart⟩
  | .null, _, _, h, h' | .bool _, _, _, h, h' | .number _, _, _, h, h' | .string _, _, _, h, h' =>
    isSubset_other_trans (by simp [rank]) h h'
  | .var _, _, _, h, h' | .ref _ _, _, _, h, h' | .call _ _, _, _, h, h' =>
    isSubset_other_trans (by simp [rank]) h h'
  | .arrayCompr _ _, _, _, h, h' | .setCompr _ _, _, _, h, h' | .objectCompr _ _ _, _, _, h, h' =>
    isSubset_other_trans (by simp [rank]) h h'
theorem fieldsSubset_trans : ∀ (part : List (Term × Term)) {fields fields' : List (Term × Term)},
    (∀ f ∈ fields', ∃ v, findField? f.1 fields = some v ∧ isSubset v f.2 = true) →
    (∀ f ∈ part, ∃ v, findField? f.1 fields' = some v ∧ isSubset v f.2 = true) →
    ∀ f ∈ part, ∃ v, findField? f.1 fields = some v ∧ isSubset v f.2 = true
  | [], _, _, _, _ => List.forall_mem_nil _
  | (k, v) :: rest, fields, fields', h, h' => by
    rw [List.forall_mem_cons] at h' ⊢
    refine ⟨?_, fieldsSubset_trans rest h h'.2⟩
    obtain ⟨w, hw, hwv⟩ := h'.1
    obtain ⟨k', hk', hkey⟩ := mem_of_findField?_eq hw
    obtain ⟨u, hu, huw⟩ := h _ hk'
    exact ⟨u, (findField?_congr hkey fields).trans hu, isSubset_trans v huw hwv⟩
end

/-! ## Unions -/

/-- The value of a field in a union, from the one that the first object may have and the one of the second. -/
def united (u : Option Term) (v : Term) : Term := u.elim v (uniteTerms · v)

@[simp] theorem united_none (v : Term) : united none v = v := rfl

@[simp] theorem united_some (u v : Term) : united (some u) v = uniteTerms u v := rfl

theorem uniteTerms_objects : uniteTerms (.object fields) (.object part) = .object (uniteFields fields fields part) := by
  rw [uniteTerms]

theorem uniteTerms_object_of_ne (h : ∀ fields, a ≠ .object fields) : uniteTerms a (.object part) = .object part := by
  rw [uniteTerms.eq_def]
  cases a with
  | object fields => exact absurd rfl (h fields)
  | _ => rfl

theorem uniteTerms_of_ne (h : ∀ fields, b ≠ .object fields) : uniteTerms a b = b := by
  cases b with
  | object fields => exact absurd rfl (h fields)
  | _ => rfl

theorem uniteFields_cons (first result : List (Term × Term)) (f : Term × Term) (rest : List (Term × Term)) :
    uniteFields first result (f :: rest) =
      uniteFields first (insertField f.1 (united (findField? f.1 first) f.2) result) rest := by
  rw [uniteFields, united]
  cases findField? f.1 first <;> rfl

/-- A union leaves the fields whose keys the second object does not have. -/
theorem findField?_uniteFields_of_ne {first result : List (Term × Term)} (h : ∀ f ∈ part, (key == f.1) = false) :
    findField? key (uniteFields first result part) = findField? key result := by
  induction part generalizing result with
  | nil => rw [uniteFields]
  | cons f rest ih =>
    rw [List.forall_mem_cons] at h
    rw [uniteFields_cons, ih h.2, findField?_insertField_of_ne h.1]

/-- A field of the second object is found in the union, united with the one of the first. -/
theorem findField?_uniteFields {first result : List (Term × Term)} (hsorted : SortedBy Prod.fst part) {f : Term × Term}
    (hf : f ∈ part) :
    findField? f.1 (uniteFields first result part) = some (united (findField? f.1 first) f.2) := by
  induction part generalizing result with
  | nil => cases hf
  | cons g rest ih =>
    rw [SortedBy, List.pairwise_cons] at hsorted
    rw [uniteFields_cons]
    rcases List.mem_cons.1 hf with rfl | hf
    · have hne : ∀ g ∈ rest, (f.1 == g.1) = false := fun g hg => by
        rw [← Bool.not_eq_true]
        exact fun hsame => cmp_ne_lt_of_beq hsame (hsorted.1 g hg)
      rw [findField?_uniteFields_of_ne hne, findField?_insertField_self]
    · exact ih hsorted.2 hf

/-- Fields that are there already, and that uniting leaves as they are, change nothing. -/
theorem uniteFields_eq_self {first : List (Term × Term)}
    (h : ∀ f ∈ part, findField? f.1 fields = some (united (findField? f.1 first) f.2)) :
    uniteFields first fields part = fields := by
  induction part with
  | nil => rw [uniteFields]
  | cons f rest ih =>
    rw [List.forall_mem_cons] at h
    rw [uniteFields_cons, insertField_of_findField? h.1, ih h.2]

theorem Arranged.ne_object {t : Term} (h : t.rank < 4 ∨ 6 < t.rank) (fields : List (Term × Term)) :
    t ≠ .object fields := by
  rintro rfl
  simp [rank] at h

/-- A term united with itself stays as it is. -/
theorem uniteTerms_self (ha : Arranged a) : uniteTerms a a = a := by
  induction ha with
  | @object fields hsorted _ ih =>
    rw [uniteTerms_objects, uniteFields_eq_self fun f hf => ?_]
    rw [hsorted.findField? hf, united_some, ih f hf]
  | set => rfl
  | array => rfl
  | other hrank => exact uniteTerms_of_ne (Arranged.ne_object hrank)

/-- Uniting with the same term again changes nothing. -/
theorem uniteTerms_again (hb : Arranged b) (a : Term) : uniteTerms (uniteTerms a b) b = uniteTerms a b := by
  induction hb generalizing a with
  | @object fields hsorted hfields ih =>
    by_cases hobject : ∃ first, a = .object first
    · obtain ⟨first, rfl⟩ := hobject
      rw [uniteTerms_objects, uniteTerms_objects, uniteFields_eq_self fun f hf => ?_]
      have hfound : findField? f.1 (uniteFields first first fields) = some (united (findField? f.1 first) f.2) :=
        findField?_uniteFields hsorted hf
      rw [hfound, united_some, Option.some.injEq]
      cases findField? f.1 first with
      | none => rw [united_none, uniteTerms_self (hfields f hf)]
      | some u => rw [united_some, ih f hf]
    · rw [not_exists] at hobject
      rw [uniteTerms_object_of_ne hobject, uniteTerms_self (.object hsorted hfields)]
  | set => rfl
  | array => rfl
  | other hrank => rw [uniteTerms_of_ne (Arranged.ne_object hrank), uniteTerms_of_ne (Arranged.ne_object hrank)]

/-- The second term is part of the union. -/
theorem isSubset_uniteTerms (hb : Arranged b) (a : Term) : isSubset (uniteTerms a b) b = true := by
  induction hb generalizing a with
  | @object fields hsorted hfields ih =>
    by_cases hobject : ∃ first, a = .object first
    · obtain ⟨first, rfl⟩ := hobject
      rw [uniteTerms_objects]
      refine isSubset_object_iff.2 ⟨_, rfl, fun f hf => ⟨_, findField?_uniteFields hsorted hf, ?_⟩⟩
      cases findField? f.1 first with
      | none => exact isSubset_refl (hfields f hf)
      | some u => exact ih f hf u
    · rw [not_exists] at hobject
      rw [uniteTerms_object_of_ne hobject]
      exact isSubset_refl (.object hsorted hfields)
  | set hsorted => exact isSubset_refl (.set hsorted)
  | array => exact isSubset_refl .array
  | other hrank =>
    rw [uniteTerms_of_ne (Arranged.ne_object hrank)]
    exact isSubset_refl (.other hrank)

/-! ## The functions of the language -/

open Registry

variable {draw : Draw}

theorem answers_subset (a b : Term) : (core draw).Answers "object.subset" [a, b] (.bool (isSubset a b)) :=
  answers_of_run (f := objectSubset) rfl rfl

theorem answers_union (draw : Draw) (first second : List (Term × Term)) :
    (core draw).Answers "object.union" [.object first, .object second] (uniteTerms (.object first) (.object second)) :=
  answers_of_run (f := objectUnion) rfl rfl

theorem subset_iff : (core draw).Answers "object.subset" [a, b] (.bool true) ↔ isSubset a b = true := by
  refine ⟨fun h => ?_, fun h => h ▸ answers_subset a b⟩
  exact (Term.bool.inj (h.unique (answers_subset a b))).symm

/-- To be part is a preorder, across all kinds of terms. The union of two objects has the second one as a part, and uniting
it with that object again, or an object with itself, changes nothing. -/
theorem subset_preorder_with_union (draw : Draw) :
    (∀ a, Arranged a → (core draw).Answers "object.subset" [a, a] (.bool true)) ∧
    (∀ a b c, (core draw).Answers "object.subset" [a, b] (.bool true) →
      (core draw).Answers "object.subset" [b, c] (.bool true) → (core draw).Answers "object.subset" [a, c] (.bool true)) ∧
    (∀ first second, Arranged (.object second) → ∃ fields,
      (core draw).Answers "object.union" [.object first, .object second] (.object fields) ∧
      (core draw).Answers "object.subset" [.object fields, .object second] (.bool true) ∧
      (core draw).Answers "object.union" [.object fields, .object second] (.object fields)) ∧
    ∀ fields, Arranged (.object fields) →
      (core draw).Answers "object.union" [.object fields, .object fields] (.object fields) := by
  refine ⟨fun a ha => subset_iff.2 (isSubset_refl ha), fun a b c h h' => ?_, fun first second hsecond => ?_,
    fun fields hfields => ?_⟩
  · exact subset_iff.2 (isSubset_trans c (subset_iff.1 h) (subset_iff.1 h'))
  · have hunion := answers_union draw first second
    have hpart := isSubset_uniteTerms hsecond (.object first)
    have hagain := uniteTerms_again hsecond (.object first)
    rw [uniteTerms_objects] at hunion hpart hagain
    refine ⟨_, hunion, subset_iff.2 hpart, ?_⟩
    have hunited := answers_union draw (uniteFields first first second) second
    rwa [hagain] at hunited
  · have hunited := answers_union draw fields fields
    rwa [uniteTerms_self hfields] at hunited

/-! ### Runs and members below keys -/

namespace Nested

def limits : Term := .object [(.string "cpu", .number 1), (.string "ports", .array [.number 80, .number 443, .number 22])]

/-- The second number is written in another way. -/
def ports : Term := .object [(.string "ports", .array [.number 443, .number (.float ⟨0x4036000000000000⟩)])]

def port : Term := .object [(.string "ports", .set [.number 22])]

def first : List (Term × Term) :=
  [(.string "a", .object [(.string "x", .number 1), (.string "y", .number 2)]), (.string "b", .number 1)]

def second : List (Term × Term) :=
  [(.string "a", .object [(.string "y", .set [.number 3])]), (.string "b", .object [(.string "z", .number 1)])]

theorem arranged_second : Arranged (.object second) := by
  have hinner : ∀ k v, Arranged v → Arranged (.object [(k, v)]) := fun k v hv =>
    .object (List.pairwise_singleton _ _) (List.forall_mem_singleton.2 hv)
  refine .object (by unfold SortedBy; decide +kernel) ?_
  simp only [second, List.forall_mem_cons]
  exact ⟨hinner _ _ (.set (List.pairwise_singleton _ _)), hinner _ _ (.other (.inl (by decide))), List.forall_mem_nil _⟩

/-- A member of a set is in a run that is in an array, below the same key, and objects are united below one. -/
theorem subset_preorder_below_keys :
    core.Answers "object.subset" [limits, ports] (.bool true) ∧ core.Answers "object.subset" [ports, port] (.bool true) ∧
    core.Answers "object.subset" [limits, port] (.bool true) ∧ Arranged (.object second) ∧
    core.Answers "object.subset" [.object second, .object second] (.bool true) ∧
    core.Answers "object.union" [.object second, .object second] (.object second) ∧
    ∃ fields, core.Answers "object.union" [.object first, .object second] (.object fields) ∧
      core.Answers "object.subset" [.object fields, .object second] (.bool true) ∧
      core.Answers "object.union" [.object fields, .object second] (.object fields) := by
  obtain ⟨hrefl, htrans, hunion, hself⟩ := subset_preorder_with_union .least
  have hrun : core.Answers "object.subset" [limits, ports] (.bool true) := subset_iff.2 (by decide +kernel)
  have hmember : core.Answers "object.subset" [ports, port] (.bool true) := subset_iff.2 (by decide +kernel)
  exact ⟨hrun, hmember, htrans _ _ _ hrun hmember, arranged_second, hrefl _ arranged_second, hself _ arranged_second,
    hunion first second arranged_second⟩

end Nested

end Builtin
end PolicyEngine
