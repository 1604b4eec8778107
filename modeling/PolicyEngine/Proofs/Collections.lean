import Mathlib.Data.List.Forall2
import PolicyEngine.Proofs.Simulation
import PolicyEngine.Proofs.TermOrder

/-!
Sets and objects as collections in the order of their keys. Such a collection is determined by what belongs to it: two
of them within each other are equal. And what is added to a collection stays within another one that has it, where the
fields of an object do not clash.
-/
namespace PolicyEngine

/-! ## Collections within others -/

/-- Everything in a collection belongs to something in another one. -/
def Within {γ : Type} (R : γ → γ → Prop) (xs ys : List γ) : Prop := ∀ x ∈ xs, ∃ y ∈ ys, R x y

theorem Within.refl {γ : Type} {R : γ → γ → Prop} (hR : ∀ x, R x x) (xs : List γ) : Within R xs xs :=
  fun x hx => ⟨x, hx, hR x⟩

namespace Term

/-- A collection in the order of its keys, each of which it has once. -/
def SortedBy {γ : Type} (key : γ → Term) (xs : List γ) : Prop := xs.Pairwise fun x y => (key x).cmp (key y) = .lt

section Sorted

variable {γ : Type} {key : γ → Term} {R : γ → γ → Prop} {xs ys : List γ} {x y : γ}

theorem cmp_ne_lt_of_beq {a b : Term} (h : (a == b) = true) : a.cmp b ≠ .lt := by
  rw [beq_iff_cmp.1 h]
  exact nofun

/-- In a sorted collection a key is found once. -/
theorem SortedBy.eq_of_keys (h : SortedBy key xs) (hx : x ∈ xs) (hy : y ∈ xs) (hkeys : (key x == key y) = true) :
    x = y := by
  induction xs with
  | nil => cases hx
  | cons first rest ih =>
    rw [SortedBy, List.pairwise_cons] at h
    rcases List.mem_cons.1 hx with hxf | hxr <;> rcases List.mem_cons.1 hy with hyf | hyr
    · rw [hxf, hyf]
    · exact absurd (h.1 y hyr) (cmp_ne_lt_of_beq (hxf ▸ hkeys))
    · exact absurd (h.1 x hxr) (cmp_ne_lt_of_beq (beq_symm (hyf ▸ hkeys)))
    · exact ih h.2 hxr hyr

/-- The first of a sorted collection is not before the first of a sorted collection that it is within. -/
theorem Within.not_lt_head (hR : ∀ x y, R x y → (key x == key y) = true) (hy : SortedBy key (y :: ys))
    (h : Within R (x :: xs) (y :: ys)) : (key x).cmp (key y) ≠ .lt := by
  intro hlt
  obtain ⟨z, hz, hxz⟩ := h x List.mem_cons_self
  rw [SortedBy, List.pairwise_cons] at hy
  rcases List.mem_cons.1 hz with rfl | hz
  · exact cmp_ne_lt_of_beq (hR x z hxz) hlt
  · exact cmp_ne_lt_of_beq (hR x z hxz) (cmp_trans _ _ _ hlt (hy.1 z hz))

/-- Below equal first keys, the rest of one collection is within the rest of the other. -/
theorem Within.tail (hR : ∀ x y, R x y → (key x == key y) = true) (hx : SortedBy key (x :: xs))
    (hkeys : (key x == key y) = true) (h : Within R (x :: xs) (y :: ys)) : Within R xs ys := by
  intro z hz
  obtain ⟨u, hu, hzu⟩ := h z (List.mem_cons_of_mem _ hz)
  rcases List.mem_cons.1 hu with rfl | hu
  · have hlt := (List.pairwise_cons.1 hx).1 z hz
    exact absurd hlt (cmp_ne_lt_of_beq (beq_trans hkeys (beq_symm (hR z u hzu))))
  · exact ⟨u, hu, hzu⟩

/-- Sorted collections within each other belong together element by element. -/
theorem forall₂_of_within (key : γ → Term) (hR : ∀ x y, R x y → (key x == key y) = true) (hx : SortedBy key xs)
    (hy : SortedBy key ys) (hxy : Within R xs ys) (hyx : Within R ys xs) : List.Forall₂ R xs ys := by
  induction xs generalizing ys with
  | nil =>
    cases ys with
    | nil => exact .nil
    | cons y ys =>
      obtain ⟨_, hmem, _⟩ := hyx y List.mem_cons_self
      cases hmem
  | cons x xs ih =>
    cases ys with
    | nil =>
      obtain ⟨_, hmem, _⟩ := hxy x List.mem_cons_self
      cases hmem
    | cons y ys =>
      have hkeys : (key x == key y) = true := by
        rw [beq_iff_cmp]
        have hnot := Within.not_lt_head hR hy hxy
        have hnot' := Within.not_lt_head hR hx hyx
        rw [cmp_swap] at hnot'
        cases hcmp : (key x).cmp (key y) with
        | eq => rfl
        | lt => exact absurd hcmp hnot
        | gt => exact absurd (by rw [hcmp]; rfl) hnot'
      obtain ⟨z, hz, hxz⟩ := hxy x List.mem_cons_self
      obtain rfl : z = y := hy.eq_of_keys hz List.mem_cons_self (beq_trans (beq_symm (hR x z hxz)) hkeys)
      exact .cons hxz (ih (List.pairwise_cons.1 hx).2 (List.pairwise_cons.1 hy).2 (Within.tail hR hx hkeys hxy)
        (Within.tail hR hy (beq_symm hkeys) hyx))

end Sorted

/-! ### Members -/

/-- Terms that are equal. -/
def Same (x y : Term) : Prop := (x == y) = true

variable {t : Term} {members all : List Term}

theorem mem_insertMember_of_mem {m : Term} (h : m ∈ members) : m ∈ insertMember t members := by
  induction members with
  | nil => cases h
  | cons first rest ih =>
    rw [insertMember]
    split
    · exact List.mem_cons_of_mem _ h
    · exact h
    · rcases List.mem_cons.1 h with rfl | h
      · exact List.mem_cons_self
      · exact List.mem_cons_of_mem _ (ih h)

theorem exists_mem_insertMember (t : Term) (members : List Term) : ∃ m ∈ insertMember t members, Same t m := by
  induction members with
  | nil => exact ⟨t, List.mem_cons_self, beq_refl t⟩
  | cons first rest ih =>
    rw [insertMember]
    split
    · exact ⟨t, List.mem_cons_self, beq_refl t⟩
    · next hcmp => exact ⟨first, List.mem_cons_self, beq_iff_cmp.2 hcmp⟩
    · obtain ⟨m, hm, htm⟩ := ih
      exact ⟨m, List.mem_cons_of_mem _ hm, htm⟩

theorem SortedBy.insertMember (h : SortedBy id members) : SortedBy id (insertMember t members) := by
  induction members with
  | nil => exact List.pairwise_singleton _ _
  | cons first rest ih =>
    rw [SortedBy, List.pairwise_cons] at h
    rw [Term.insertMember]
    split
    · next hlt =>
      refine List.pairwise_cons.2 ⟨fun m hm => ?_, List.pairwise_cons.2 h⟩
      rcases List.mem_cons.1 hm with rfl | hm
      · exact hlt
      · exact cmp_trans _ _ _ hlt (h.1 m hm)
    · exact List.pairwise_cons.2 h
    · next hgt =>
      refine List.pairwise_cons.2 ⟨fun m hm => ?_, ih h.2⟩
      rcases mem_insertMember hm with rfl | hm
      · simp only [id_eq, cmp_swap m, hgt, Ordering.swap_gt]
      · exact h.1 m hm

theorem Within.insertMember (h : Within Same members all) {other : List Term}
    (ht : Within Same (Term.insertMember t other) all) : Within Same (Term.insertMember t members) all := by
  intro m hm
  rcases mem_insertMember hm with rfl | hm
  · obtain ⟨u, hu, hmu⟩ := exists_mem_insertMember m other
    obtain ⟨v, hv, huv⟩ := ht u hu
    exact ⟨v, hv, beq_trans hmu huv⟩
  · exact h m hm

theorem set_beq_of_within {others : List Term} (h : SortedBy id members) (h' : SortedBy id others)
    (hin : Within Same members others) (hin' : Within Same others members) :
    (Term.set members == Term.set others) = true := by
  have hall := forall₂_of_within id (fun _ _ h => h) h h' hin hin'
  rw [beq_iff_cmp, Term.cmp]
  clear h h' hin hin'
  induction hall with
  | nil => rw [cmpList]
  | cons hxy _ ih =>
    rw [cmpList, Ordering.then_eq_eq]
    exact ⟨beq_iff_cmp.1 hxy, ih⟩

theorem exists_mem_sortMembers {t : Term} {ts : List Term} (h : t ∈ ts) : ∃ m ∈ sortMembers ts, Same t m := by
  induction ts with
  | nil => cases h
  | cons first rest ih =>
    rcases List.mem_cons.1 h with rfl | h
    · exact exists_mem_insertMember t (sortMembers rest)
    · obtain ⟨m, hm, htm⟩ := ih h
      exact ⟨m, mem_insertMember_of_mem hm, htm⟩

theorem sortedBy_sortMembers (ts : List Term) : SortedBy id (sortMembers ts) := by
  induction ts with
  | nil => exact List.Pairwise.nil
  | cons t rest ih => exact SortedBy.insertMember ih

/-- Sorting leaves a set as it is. -/
theorem sortMembers_of_sorted {ts : List Term} (h : SortedBy id ts) : sortMembers ts = ts := by
  induction ts with
  | nil => rfl
  | cons t rest ih =>
    rw [SortedBy, List.pairwise_cons] at h
    rw [sortMembers, List.foldr_cons, ← sortMembers, ih h.2]
    cases rest with
    | nil => rfl
    | cons u rest =>
      have hlt : t.cmp u = .lt := h.1 u List.mem_cons_self
      rw [insertMember, hlt]

/-! ### Fields -/

/-- Fields with equal keys and equal values. -/
def SameField (f g : Term × Term) : Prop := (f.1 == g.1) = true ∧ (f.2 == g.2) = true

theorem SameField.trans {f g h : Term × Term} (hfg : SameField f g) (hgh : SameField g h) : SameField f h :=
  ⟨beq_trans hfg.1 hgh.1, beq_trans hfg.2 hgh.2⟩

theorem SameField.symm {f g : Term × Term} (h : SameField f g) : SameField g f := ⟨beq_symm h.1, beq_symm h.2⟩

variable {key value : Term} {fields allFields : List (Term × Term)}

/-- A field after setting one is the one that was set, or was there before. -/
theorem sameField_of_mem_insertField {f : Term × Term} (h : f ∈ insertField key value fields) :
    SameField (key, value) f ∨ f ∈ fields := by
  induction fields with
  | nil =>
    rw [insertField, List.mem_singleton] at h
    exact .inl (h ▸ ⟨beq_refl _, beq_refl _⟩)
  | cons first rest ih =>
    obtain ⟨k, v⟩ := first
    rw [insertField] at h
    split at h
    · rcases List.mem_cons.1 h with rfl | h
      · exact .inl ⟨beq_refl _, beq_refl _⟩
      · exact .inr h
    · next hcmp =>
      rcases List.mem_cons.1 h with rfl | h
      · exact .inl ⟨beq_iff_cmp.2 hcmp, beq_refl _⟩
      · exact .inr (List.mem_cons_of_mem _ h)
    · rcases List.mem_cons.1 h with rfl | h
      · exact .inr List.mem_cons_self
      · exact (ih h).imp_right (List.mem_cons_of_mem _)

theorem exists_mem_insertField (key value : Term) (fields : List (Term × Term)) :
    ∃ f ∈ insertField key value fields, SameField (key, value) f := by
  induction fields with
  | nil => exact ⟨(key, value), List.mem_cons_self, beq_refl _, beq_refl _⟩
  | cons first rest ih =>
    obtain ⟨k, v⟩ := first
    rw [insertField]
    split
    · exact ⟨(key, value), List.mem_cons_self, beq_refl _, beq_refl _⟩
    · next hcmp => exact ⟨(k, value), List.mem_cons_self, beq_iff_cmp.2 hcmp, beq_refl _⟩
    · obtain ⟨f, hf, hsame⟩ := ih
      exact ⟨f, List.mem_cons_of_mem _ hf, hsame⟩

/-- The field that is found has an equal key. -/
theorem mem_of_findField?_eq {v : Term} (h : findField? key fields = some v) :
    ∃ k, (k, v) ∈ fields ∧ (key == k) = true := by
  induction fields with
  | nil => cases h
  | cons first rest ih =>
    obtain ⟨k, v'⟩ := first
    rw [findField?] at h
    split at h
    · cases h
    · next hcmp =>
      cases h
      exact ⟨k, List.mem_cons_self, beq_iff_cmp.2 hcmp⟩
    · obtain ⟨k', hmem, hkey⟩ := ih h
      exact ⟨k', List.mem_cons_of_mem _ hmem, hkey⟩

open Coupling in
/-- A field that does not clash leaves the others there, up to equality. -/
theorem sameField_mem_insertField (hclash : clash? key value fields = none) {f : Term × Term} (h : f ∈ fields) :
    ∃ g ∈ insertField key value fields, SameField f g := by
  induction fields with
  | nil => cases h
  | cons first rest ih =>
    obtain ⟨k, v⟩ := first
    rw [insertField]
    rw [clash?, findField?] at hclash
    split
    · exact ⟨f, List.mem_cons_of_mem _ h, beq_refl _, beq_refl _⟩
    · next hcmp =>
      rw [hcmp] at hclash
      rcases List.mem_cons.1 h with rfl | h
      · refine ⟨(k, value), List.mem_cons_self, beq_refl _, ?_⟩
        simpa [Option.filter] using hclash
      · exact ⟨f, List.mem_cons_of_mem _ h, beq_refl _, beq_refl _⟩
    · next hcmp =>
      rw [hcmp] at hclash
      rcases List.mem_cons.1 h with rfl | h
      · exact ⟨(k, v), List.mem_cons_self, beq_refl _, beq_refl _⟩
      · obtain ⟨g, hg, hsame⟩ := ih hclash h
        exact ⟨g, List.mem_cons_of_mem _ hg, hsame⟩

theorem SortedBy.insertField (h : SortedBy Prod.fst fields) : SortedBy Prod.fst (insertField key value fields) := by
  induction fields with
  | nil => exact List.pairwise_singleton _ _
  | cons first rest ih =>
    obtain ⟨k, v⟩ := first
    rw [SortedBy, List.pairwise_cons] at h
    rw [Term.insertField]
    split
    · next hlt =>
      refine List.pairwise_cons.2 ⟨fun f hf => ?_, List.pairwise_cons.2 h⟩
      rcases List.mem_cons.1 hf with rfl | hf
      · exact hlt
      · exact cmp_trans _ _ _ hlt (h.1 f hf)
    · exact List.pairwise_cons.2 ⟨h.1, h.2⟩
    · next hgt =>
      refine List.pairwise_cons.2 ⟨fun f hf => ?_, ih h.2⟩
      rcases sameField_of_mem_insertField hf with hsame | hf
      · rw [cmp_swap, ← cmp_congr _ _ k (beq_iff_cmp.1 hsame.1), hgt]
        rfl
      · exact h.1 f hf

/-- Sorting leaves an object as it is. -/
theorem sortFields_of_sorted {fs : List (Term × Term)} (h : SortedBy Prod.fst fs) : sortFields fs = fs := by
  induction fs with
  | nil => rfl
  | cons f rest ih =>
    rw [SortedBy, List.pairwise_cons] at h
    rw [sortFields, List.foldr_cons, ← sortFields, ih h.2]
    cases rest with
    | nil => rfl
    | cons g rest =>
      have hlt : f.1.cmp g.1 = .lt := h.1 g List.mem_cons_self
      simp only [addField, hlt]

theorem Within.insertField (h : Within SameField fields allFields) {other : List (Term × Term)}
    (hadded : Within SameField (Term.insertField key value other) allFields) :
    Within SameField (Term.insertField key value fields) allFields := by
  intro f hf
  rcases sameField_of_mem_insertField hf with hsame | hf
  · obtain ⟨g, hg, hkg⟩ := exists_mem_insertField key value other
    obtain ⟨k, hk, hgk⟩ := hadded g hg
    exact ⟨k, hk, hsame.symm.trans (hkg.trans hgk)⟩
  · exact h f hf

theorem object_beq_of_within {others : List (Term × Term)} (h : SortedBy Prod.fst fields)
    (h' : SortedBy Prod.fst others) (hin : Within SameField fields others) (hin' : Within SameField others fields) :
    (Term.object fields == Term.object others) = true := by
  have hall := forall₂_of_within Prod.fst (fun _ _ h => h.1) h h' hin hin'
  rw [beq_iff_cmp, Term.cmp]
  clear h h' hin hin'
  induction hall with
  | nil => rw [cmpFields]
  | @cons f g _ _ hfg _ ih =>
    rw [cmpFields, Ordering.then_eq_eq, Ordering.then_eq_eq]
    exact ⟨⟨beq_iff_cmp.1 hfg.1, beq_iff_cmp.1 hfg.2⟩, ih⟩

end Term

end PolicyEngine
