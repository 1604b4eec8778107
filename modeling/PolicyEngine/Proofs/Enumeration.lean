import PolicyEngine.Proofs.Containment
import PolicyEngine.Proofs.Indexing
import PolicyEngine.Proofs.Rereading

/-!
Enumerating a collection. An enumeration keeps the collection and the position of the entry it gave last, and finds the
next entry from that position alone. Called again and again it gives the entries of the collection in the order of their
keys and is exhausted after the last one. What is looked up under a key is what the entry with an equal key holds.
-/
namespace PolicyEngine

/-! ## Resumable enumerations -/

/-- A position in an array, or that of a key in an object or a set. -/
inductive Position where
  | index (position : Nat)
  | key (key : Term)

/-- An enumeration of the entries of a collection, to be resumed at a position. -/
inductive Enumeration where
  | notStarted (domain : Term)
  | enumerating (domain : Term) (position : Position)
  | exhausted

namespace Term

/-- The entry after a position, or the first one, together with its own position. -/
def entryAfter? : Term → Option Position → Option (Position × Term × Term)
  | .array items, none => items[0]?.map fun item => (.index 0, ofNat 0, item)
  | .array items, some (.index i) => items[i + 1]?.map fun item => (.index (i + 1), ofNat (i + 1), item)
  | .object fields, none => fields.head?.map fun f => (.key f.1, f)
  | .object fields, some (.key key) => (fields.find? fun f => key.cmp f.1 == .lt).map fun f => (.key f.1, f)
  | .set members, none => members.head?.map fun m => (.key m, m, m)
  | .set members, some (.key key) => (members.find? fun m => key.cmp m == .lt).map fun m => (.key m, m, m)
  | _, _ => none

/-- A collection with its members or keys in order, and with no more elements than there are exact positions. -/
def Enumerable : Term → Prop
  | .array items => items.length ≤ Number.safeInteger.natAbs
  | .object fields => SortedBy Prod.fst fields
  | .set members => SortedBy id members
  | _ => True

/-- The position of an entry, of which it is known how many come before it. -/
def position (domain : Term) (before : Nat) (key : Term) : Position :=
  match domain with
  | .array _ => .index before
  | _ => .key key

end Term

namespace Enumeration

/-- The enumeration after an entry was found or none was. -/
def resume (domain : Term) : Option (Position × Term × Term) → Option (Term × Term) × Enumeration
  | some (position, entry) => (some entry, .enumerating domain position)
  | none => (none, .exhausted)

def next : Enumeration → Option (Term × Term) × Enumeration
  | .notStarted domain => resume domain (domain.entryAfter? none)
  | .enumerating domain position => resume domain (domain.entryAfter? (some position))
  | .exhausted => (none, .exhausted)

/-- The enumeration after a number of calls. -/
def after (e : Enumeration) : Nat → Enumeration
  | 0 => e
  | n + 1 => (e.after n).next.2

/-- What an enumeration still has to give. -/
inductive Stands : Enumeration → List (Term × Term) → Prop where
  | notStarted {domain : Term} (h : domain.Enumerable) : Stands (.notStarted domain) domain.entries
  | enumerating {domain : Term} {before rest : List (Term × Term)} {entry : Term × Term} (h : domain.Enumerable)
      (hentries : domain.entries = before ++ entry :: rest) :
      Stands (.enumerating domain (domain.position before.length entry.1)) rest
  | exhausted : Stands .exhausted []

end Enumeration

/-! ## The order of keys -/

namespace Term

variable {v c u : Term} {items : List Term} {entry : Term × Term} {before rest : List (Term × Term)}

theorem cmp_ofNat {i j : Nat} (h : i < j) : (ofNat i).cmp (ofNat j) = .lt := by
  have hlt : (i : Rat) < j := Nat.cast_lt.2 h
  rw [ofNat, ofNat, Term.cmp, Number.cmp_exact, Number.ofNat, Number.ofNat, Number.exact_ofInt, Number.exact_ofInt,
    Number.Exact.cmp, compareOfLessAndEq, if_pos]
  exact_mod_cast hlt

theorem getElem?_entries_array (items : List Term) (i : Nat) :
    (Term.array items).entries[i]? = items[i]?.map fun item => (ofNat i, item) := by
  rw [entries, List.getElem?_map, List.getElem?_zipIdx, Option.map_map, Nat.zero_add]
  rfl

theorem keys_entries_array (items : List Term) :
    (Term.array items).entries.map Prod.fst = (List.range items.length).map ofNat := by
  rw [List.range_eq_range', ← List.zipIdx_map_snd 0 items, entries, List.map_map, List.map_map]
  rfl

/-- The keys of a collection are in order, each once. -/
theorem Enumerable.sorted (h : v.Enumerable) : SortedBy Prod.fst v.entries := by
  cases v with
  | array items =>
    have hkeys : ((Term.array items).entries.map Prod.fst).Pairwise fun x y => x.cmp y = .lt := by
      rw [keys_entries_array]
      exact List.pairwise_map.2 (List.pairwise_lt_range.imp cmp_ofNat)
    exact List.pairwise_map.1 hkeys
  | object fields => exact h
  | set members => exact List.pairwise_map.2 h
  | _ => exact .nil

/-! ## Going on from a position -/

theorem entryAfter?_none (v : Term) :
    v.entryAfter? none = v.entries.head?.map fun e => (v.position 0 e.1, e) := by
  cases v with
  | array items =>
    rw [entryAfter?, List.head?_eq_getElem?, getElem?_entries_array, Option.map_map]
    rfl
  | object fields => rfl
  | set members =>
    rw [entryAfter?, entries, List.head?_map, Option.map_map]
    rfl
  | _ => rfl

/-- After the key of an entry the next greater key is that of the entry behind it. -/
theorem SortedBy.find?_after {γ : Type} {key : γ → Term} {xs ys : List γ} {x : γ} (h : SortedBy key (xs ++ x :: ys)) :
    ((xs ++ x :: ys).find? fun y => (key x).cmp (key y) == .lt) = ys.head? := by
  rw [SortedBy, List.pairwise_append, List.pairwise_cons] at h
  obtain ⟨-, ⟨hafter, -⟩, hbefore⟩ := h
  have hnot : xs.find? (fun y => (key x).cmp (key y) == .lt) = none := by
    refine List.find?_eq_none.2 fun y hy => ?_
    rw [cmp_swap, hbefore y hy x List.mem_cons_self]
    decide
  rw [List.find?_append, hnot, Option.none_or, List.find?_cons_of_neg (by rw [cmp_self]; decide)]
  cases ys with
  | nil => rfl
  | cons y ys => rw [List.find?_cons_of_pos (by rw [hafter y List.mem_cons_self]; rfl), List.head?_cons]

/-- From the position of an entry the enumeration goes on with the entry behind it. -/
theorem Enumerable.entryAfter?_position (h : v.Enumerable) (hentries : v.entries = before ++ entry :: rest) :
    v.entryAfter? (some (v.position before.length entry.1)) =
      rest.head?.map fun e => (v.position (before.length + 1) e.1, e) := by
  cases v with
  | array items =>
    have hnext : (Term.array items).entries[before.length + 1]? = rest.head? := by
      rw [hentries, List.getElem?_append_right (Nat.le_add_right _ _), Nat.add_sub_cancel_left,
        List.getElem?_cons_succ, List.head?_eq_getElem?]
    rw [position, entryAfter?, ← hnext, getElem?_entries_array, Option.map_map]
    rfl
  | object fields =>
    obtain rfl : fields = before ++ entry :: rest := hentries
    exact congrArg (Option.map _) (SortedBy.find?_after h)
  | set members =>
    have hsorted := h.sorted
    rw [hentries] at hsorted
    rw [← hsorted.find?_after, ← hentries, entries, List.find?_map, Option.map_map]
    rfl
  | _ => cases before <;> cases hentries

end Term

/-! ## Running an enumeration -/

namespace Enumeration

variable {e : Enumeration} {domain : Term} {rest : List (Term × Term)}

/-- A call gives the first of the entries that are left and leaves the others. -/
theorem Stands.next (h : e.Stands rest) : e.next.1 = rest.head? ∧ e.next.2.Stands rest.tail := by
  cases h with
  | @notStarted domain h =>
    rw [Enumeration.next, Term.entryAfter?_none]
    cases hentries : domain.entries with
    | nil => exact ⟨rfl, .exhausted⟩
    | cons first rest =>
      have hfirst : domain.entries = [] ++ first :: rest := hentries
      exact ⟨rfl, .enumerating h hfirst⟩
  | @enumerating domain before rest entry h hentries =>
    rw [Enumeration.next, h.entryAfter?_position hentries]
    cases rest with
    | nil => exact ⟨rfl, .exhausted⟩
    | cons first rest =>
      have hnext : domain.entries = (before ++ [entry]) ++ first :: rest := hentries.trans (List.append_cons _ _ _)
      have hstands := Stands.enumerating h hnext
      rw [List.length_append] at hstands
      exact ⟨rfl, hstands⟩
  | exhausted => exact ⟨rfl, .exhausted⟩

theorem Stands.exhausted_of_nil (h : e.Stands []) : e.next.2 = .exhausted := by
  generalize hrest : ([] : List (Term × Term)) = rest at h
  cases h with
  | notStarted h => rw [Enumeration.next, Term.entryAfter?_none, ← hrest]; rfl
  | enumerating h hentries => rw [Enumeration.next, h.entryAfter?_position hentries, ← hrest]; rfl
  | exhausted => rfl

theorem stands_after (h : domain.Enumerable) (n : Nat) :
    ((notStarted domain).after n).Stands (domain.entries.drop n) := by
  induction n with
  | zero => exact .notStarted h
  | succ n ih =>
    rw [← List.tail_drop]
    exact ih.next.2

/-- The calls give the entries of the collection in turn. -/
theorem next_after (h : domain.Enumerable) (n : Nat) : ((notStarted domain).after n).next.1 = domain.entries[n]? := by
  rw [(stands_after h n).next.1, List.head?_drop]

/-- After a call that gave nothing the enumeration is exhausted for good. -/
theorem after_length (h : domain.Enumerable) {n : Nat} (hn : domain.entries.length < n) :
    (notStarted domain).after n = .exhausted := by
  obtain ⟨n, rfl⟩ := Nat.exists_eq_add_one_of_ne_zero (Nat.ne_zero_of_lt hn)
  have hstands := stands_after h n
  rw [List.drop_eq_nil_of_le (Nat.lt_succ_iff.1 hn)] at hstands
  exact hstands.exhausted_of_nil

end Enumeration

/-! ## Looking up a key -/

namespace Term

variable {v c u : Term}

theorem findMember?_eq_some_iff {members : List Term} (h : SortedBy id members) :
    findMember? c members = some u ↔ u ∈ members ∧ (u == c) = true := by
  induction members with
  | nil => exact iff_of_false (Option.some_ne_none u).symm fun hu => List.not_mem_nil hu.1
  | cons m rest ih =>
    rw [SortedBy, List.pairwise_cons] at h
    rw [findMember?]
    cases hcmp : c.cmp m with
    | lt =>
      refine iff_of_false (Option.some_ne_none u).symm ?_
      rintro ⟨hu, huc⟩
      rcases List.mem_cons.1 hu with rfl | hu
      · exact cmp_ne_lt_of_beq (beq_symm huc) hcmp
      · exact cmp_ne_lt_of_beq (beq_symm huc) (cmp_trans _ _ _ hcmp (h.1 u hu))
    | eq =>
      have hmc : (m == c) = true := beq_symm (beq_iff_cmp.2 hcmp)
      refine ⟨?_, ?_⟩
      · rintro ⟨⟩
        exact ⟨List.mem_cons_self, hmc⟩
      · rintro ⟨hu, huc⟩
        rw [SortedBy.eq_of_keys (List.pairwise_cons.2 h) hu List.mem_cons_self (beq_trans huc (beq_symm hmc))]
    | gt =>
      rw [ih h.2]
      refine and_congr_left fun huc => ⟨List.mem_cons_of_mem m, fun hu => ?_⟩
      rcases List.mem_cons.1 hu with rfl | hu
      · rw [cmp_swap, beq_iff_cmp.1 huc] at hcmp
        cases hcmp
      · exact hu

theorem findField?_eq_some_iff {fields : List (Term × Term)} (h : SortedBy Prod.fst fields) :
    findField? c fields = some u ↔ ∃ k, (k, u) ∈ fields ∧ (k == c) = true := by
  constructor
  · intro hu
    obtain ⟨k, hk, hck⟩ := mem_of_findField?_eq hu
    exact ⟨k, hk, beq_symm hck⟩
  · rintro ⟨k, hk, hkc⟩
    rw [← findField?_congr hkc]
    exact h.findField? hk

theorem toUnsigned?_of_toInt? {n : Number} {i : Int} (h : n.toInt? = some i) (hfits : Number.fitsUnsigned i = true) :
    n.toUnsigned? = some i.toNat := by
  simp only [Number.toUnsigned?, h, if_pos hfits]

theorem toUnsigned?_ofNat {i : Nat} (h : i < Number.safeInteger.natAbs) : (Number.ofNat i).toUnsigned? = some i := by
  have hi : (Number.ofNat i).toInt? = some (i : Int) :=
    Number.toInt?_of_exact (Number.exact_ofInt i) (by rw [Int.natAbs_natCast]; exact h.le)
  have hfits : Number.fitsUnsigned i = true := by
    have hsafe : Number.safeInteger.natAbs = 0x20000000000000 := rfl
    simp only [Number.fitsUnsigned, Bool.and_eq_true, decide_eq_true_iff]
    omega
  exact (toUnsigned?_of_toInt? hi hfits).trans (congrArg some (Int.toNat_natCast i))

/-- A number that stands for a position is worth that position. -/
theorem exact_of_toUnsigned? {n : Number} {i : Nat} (h : n.toUnsigned? = some i) :
    (Number.ofNat i).exact = n.exact := by
  rw [Number.toUnsigned?] at h
  split at h
  · next j hj =>
    split at h
    · next hfits =>
      cases h
      simp only [Number.fitsUnsigned, Bool.and_eq_true, decide_eq_true_iff] at hfits
      rw [Number.exact_of_toInt? hj, Number.ofNat, Number.exact_ofInt, Int.toNat_of_nonneg hfits.1]
    · cases h
  · cases h

theorem lookup_array_ofNat {items : List Term} (h : (Term.array items).Enumerable) {i : Nat} (hi : i < items.length) :
    (Term.array items).lookup (ofNat i) = items[i]? := by
  rw [ofNat, lookup, toUnsigned?_ofNat (hi.trans_le h), Option.bind_some]

/-- What is looked up under a key is what the entry with an equal key holds. -/
theorem lookup_eq_some_iff (h : v.Enumerable) : v.lookup c = some u ↔ ∃ k, (k, u) ∈ v.entries ∧ (k == c) = true := by
  cases v with
  | object fields => exact findField?_eq_some_iff h
  | set members =>
    rw [lookup, findMember?_eq_some_iff h, entries]
    constructor
    · rintro ⟨hu, huc⟩
      exact ⟨u, List.mem_map.2 ⟨u, hu, rfl⟩, huc⟩
    · rintro ⟨k, hk, hkc⟩
      obtain ⟨m, hm, heq⟩ := List.mem_map.1 hk
      cases heq
      exact ⟨hm, hkc⟩
  | array items =>
    constructor
    · intro hu
      cases c with
      | number n =>
        obtain ⟨i, hi, hitem⟩ := Option.bind_eq_some_iff.1 hu
        refine ⟨ofNat i, List.mem_of_getElem? (i := i) ?_, ?_⟩
        · rw [getElem?_entries_array, hitem, Option.map_some]
        · exact number_beq_iff.2 ⟨n, rfl, exact_of_toUnsigned? hi⟩
      | _ => cases hu
    · rintro ⟨k, hk, hkc⟩
      obtain ⟨i, hi⟩ := List.getElem?_of_mem hk
      rw [getElem?_entries_array, Option.map_eq_some_iff] at hi
      obtain ⟨item, hitem, heq⟩ := hi
      cases heq
      have hlt : i < items.length := (List.getElem?_eq_some_iff.1 hitem).1
      exact lookup_array h hkc ((lookup_array_ofNat h hlt).trans hitem)
  | _ => simp [lookup, entries]

/-- All entries with a key equal to a given one have the same key. -/
theorem Enumerable.exists_key (h : v.Enumerable) (c : Term) : ∃ k, ∀ e ∈ v.entries, (e.1 == c) = true → e.1 = k := by
  by_cases hex : ∃ e ∈ v.entries, (e.1 == c) = true
  · obtain ⟨e, he, hec⟩ := hex
    refine ⟨e.1, fun e' he' hec' => ?_⟩
    rw [h.sorted.eq_of_keys he' he (beq_trans hec' (beq_symm hec))]
  · exact ⟨c, fun e he hec => absurd ⟨e, he, hec⟩ hex⟩

/-- What is looked up under a key is what the entries with an equal key hold: there is one of them at most. -/
theorem Enumerable.filter_entries (h : v.Enumerable) (c : Term) :
    (v.entries.filter fun e => e.1 == c).map Prod.snd = (v.lookup c).toList := by
  have hlookup : ∀ u, v.lookup c = some u ↔ ∃ k, (k, u) ∈ v.entries.filter fun e => e.1 == c := fun u => by
    rw [lookup_eq_some_iff h]
    exact exists_congr fun k => by rw [List.mem_filter]
  have hsorted : SortedBy Prod.fst (v.entries.filter fun e => e.1 == c) := h.sorted.sublist List.filter_sublist
  have hkeys : ∀ e ∈ v.entries.filter fun e => e.1 == c, (e.1 == c) = true := fun e he => (List.mem_filter.1 he).2
  generalize v.entries.filter (fun e => e.1 == c) = matching at *
  cases matching with
  | nil =>
    cases hu : v.lookup c with
    | none => rfl
    | some u => exact absurd ((hlookup u).1 hu) fun ⟨k, hk⟩ => List.not_mem_nil hk
  | cons e rest =>
    cases rest with
    | nil => rw [(hlookup e.2).2 ⟨e.1, List.mem_cons_self⟩]; rfl
    | cons e' rest =>
      have he' : e' ∈ e :: e' :: rest := List.mem_cons_of_mem _ List.mem_cons_self
      have hlt := (List.pairwise_cons.1 hsorted).1 e' List.mem_cons_self
      exact absurd hlt (cmp_ne_lt_of_beq (beq_trans (hkeys e List.mem_cons_self) (beq_symm (hkeys e' he'))))

end Term
end PolicyEngine
