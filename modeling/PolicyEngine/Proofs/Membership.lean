import PolicyEngine.Builtin.Comparison
import PolicyEngine.Proofs.Walks

/-!
Membership tests and generators. A generator gives its variables the keys and the values of a collection, entry by entry.
The test of a value holds if and only if the generator gives an equal value. The test of a key and a value holds if and
only if the collection is no set and the generator gives an equal key with an equal value: a generator goes through the
members of a set as their own keys, which the test leaves out.
-/
namespace PolicyEngine

variable {xs x k v : Term} {s : State} {i y : String}

/-! ## What the tests say -/

namespace Builtin

/-- A value is a member if and only if it is equal to the value of an entry. -/
theorem isMember_eq (h : xs.Enumerable) : isMember x xs = xs.entries.any fun e => e.2 == x := by
  cases xs with
  | array items =>
    have hitems : (Term.array items).entries.map Prod.snd = items := by
      rw [Term.entries, List.map_map]
      exact List.zipIdx_map_fst 0 items
    rw [isMember]
    conv_lhs => rw [← hitems]
    exact List.any_map
  | set members =>
    rw [isMember, Term.containsMember, Term.entries, List.any_map, Bool.eq_iff_iff, Option.isSome_iff_exists,
      List.any_eq_true]
    exact exists_congr fun m => Term.findMember?_eq_some_iff h
  | _ => rfl

/-- The test of a key and a value passes over all sets. -/
theorem isEntry_set (k v : Term) (members : List Term) : isEntry k v (.set members) = false := rfl

theorem any_lookup (h : xs.Enumerable) :
    (xs.lookup k).any (· == v) = xs.entries.any fun e => e.1 == k && e.2 == v := by
  rw [Bool.eq_iff_iff]
  simp only [Option.any_eq_true, Term.lookup_eq_some_iff h, List.any_eq_true, Bool.and_eq_true]
  constructor
  · rintro ⟨u, ⟨key, hentry, hkey⟩, hvalue⟩
    exact ⟨(key, u), hentry, hkey, hvalue⟩
  · rintro ⟨⟨key, u⟩, hentry, hkey, hvalue⟩
    exact ⟨u, ⟨key, hentry, hkey⟩, hvalue⟩

theorem isEntry_eq (h : xs.Enumerable) (hset : ∀ members, xs ≠ .set members) :
    isEntry k v xs = xs.entries.any fun e => e.1 == k && e.2 == v := by
  cases xs with
  | array items => exact any_lookup h
  | object fields => exact any_lookup h
  | set members => exact absurd rfl (hset members)
  | _ => rfl

end Builtin

/-! ## What the generators give -/

namespace Search

variable {α β : Type}

/-- Where every element of a list adds to what is found and leaves the state, all of them are added in turn. -/
theorem each_adds {search : β → Search (List α)} {g : β → α} {bs : List β}
    (h : ∀ b ∈ bs, ∀ found, search b found s = ⟨.ok .more, found ++ [g b], s⟩) (found : List α) :
    each bs search found s = ⟨.ok .more, found ++ bs.map g, s⟩ := by
  induction bs generalizing found with
  | nil => rw [each, List.map_nil, List.append_nil]; rfl
  | cons b rest ih =>
    rw [List.forall_mem_cons] at h
    rw [each_of_more (by rw [h.1]), h.1, ih h.2, List.map_cons, List.append_assoc, List.singleton_append]

end Search

namespace Bindings

variable {b : Bindings} {e : Term × Term}

theorem bindEntry_value (hy : y ≠ wildcard) :
    bindEntry none (.var y) e b = some (b.assign y (some e.2)) := by
  rw [bindEntry, bindLocal, shadow, if_neg (by simpa using hy)]

theorem bindEntry_entry (hi : i ≠ wildcard) (hy : y ≠ wildcard) :
    bindEntry (some (.var i)) (.var y) e b = some ((b.assign i (some e.1)).assign y (some e.2)) := by
  rw [bindEntry, bindLocal, Option.bind_some, bindLocal, shadow, if_neg (by simpa using hy), shadow,
    if_neg (by simpa using hi)]

end Bindings

namespace Env

variable (env : Env) (rules : RuleSemantics)

/-- The values that a generator gives to its variable, in the order they are found. -/
def generatedValues (operator : Term) (y : String) (xs : Term) (s : State) : Except EvalError (List Term) :=
  let r := env.evalKind rules (.someDecl [.call operator [.var y, xs]])
    (Search.withBindings fun b => Search.collect fun found => found ++ [b.plug (.var y)]) [] s
  r.outcome.map fun _ => r.found

/-- The keys and values that a generator gives to its variables, in the order they are found. -/
def generatedEntries (operator : Term) (i y : String) (xs : Term) (s : State) :
    Except EvalError (List (Term × Term)) :=
  let r := env.evalKind rules (.someDecl [.call operator [.var i, .var y, xs]])
    (Search.withBindings fun b => Search.collect fun found => found ++ [(b.plug (.var i), b.plug (.var y))]) [] s
  r.outcome.map fun _ => r.found

/-- An entry is noted once, with what its key and its value are bound to, and the bindings are taken back. -/
theorem extending_notes {α : Type} (hs : s.Calm env) {extend : Bindings → Option Bindings} {b : Bindings}
    (hextend : extend s.bindings = some b) (hb : s.bindings.assignments <:+ b.assignments) (g : Bindings → α)
    (found : List α) :
    Search.after env.checkpoint (fun _ => Search.extending extend
      (Search.withBindings fun b => Search.collect fun found => found ++ [g b])) found s =
        ⟨.ok .more, found ++ [g b], s⟩ := by
  rw [Search.after, env.run_checkpoint_calm hs]
  dsimp only
  rw [Search.extending, hextend]
  dsimp only [Search.withBindings, Search.collect]
  rw [Bindings.undo_mark hb]

variable {operator : Term} {α : Type}

theorem evalKind_values (hop : operator.refName? = some "internal.member_2") (value domain : Term) (k : Search α) :
    env.evalKind rules (.someDecl [.call operator [value, domain]]) k =
      env.evalTerm rules domain fun domain => Search.each domain.entries fun entry =>
        Search.after env.checkpoint fun _ => Search.extending (Bindings.bindEntry none value entry) k := by
  rw [Coupling.evalKind_generator, hop]
  rfl

theorem evalKind_entries (hop : operator.refName? = some "internal.member_3") (key value domain : Term)
    (k : Search α) :
    env.evalKind rules (.someDecl [.call operator [key, value, domain]]) k =
      env.evalTerm rules domain fun domain => Search.each domain.entries fun entry =>
        Search.after env.checkpoint fun _ => Search.extending (Bindings.bindEntry (some key) value entry) k := by
  rw [Coupling.evalKind_generator, hop]
  rfl

theorem generatedValues_eq (hop : operator.refName? = some "internal.member_2") (hs : s.Calm env) (hy : y ≠ wildcard)
    (hxs : xs.isGround = true) (hvalue : xs.needsEval = false) :
    env.generatedValues rules operator y xs s = .ok (xs.entries.map Prod.snd) := by
  rw [generatedValues, env.evalKind_values rules hop, env.evalTerm_ground rules hxs hvalue,
    Search.each_adds (g := Prod.snd), List.nil_append]
  · rfl
  · intro e he found
    rw [env.extending_notes hs (Bindings.bindEntry_value hy) (List.suffix_cons _ _), Bindings.plug_of_bound]
    · rw [Bindings.lookup_assign, if_pos rfl]
    · exact (Term.hereditary_isGround.entries hxs he).2

theorem generatedEntries_eq (hop : operator.refName? = some "internal.member_3") (hs : s.Calm env) (hi : i ≠ wildcard)
    (hy : y ≠ wildcard) (hiy : i ≠ y) (hxs : xs.isGround = true) (hvalue : xs.needsEval = false) :
    env.generatedEntries rules operator i y xs s = .ok xs.entries := by
  rw [generatedEntries, env.evalKind_entries rules hop, env.evalTerm_ground rules hxs hvalue,
    Search.each_adds (g := id), List.nil_append, List.map_id]
  · rfl
  · intro e he found
    have hground := Term.hereditary_isGround.entries hxs he
    rw [env.extending_notes hs (Bindings.bindEntry_entry hi hy)
      ((List.suffix_cons _ _).trans (List.suffix_cons _ _)), Bindings.plug_of_bound (t := e.1),
      Bindings.plug_of_bound (t := e.2)]
    · rfl
    · rw [Bindings.lookup_assign, if_pos rfl]
    · exact hground.2
    · rw [Bindings.lookup_assign, if_neg hiy.symm, Bindings.lookup_assign, if_pos rfl]
    · exact hground.1

/-- The test of a value agrees with the generator on all collections, and the test of a key and a value on all but
sets. On sets that test does not hold, while the generator goes through all members. -/
theorem membership_agrees_with_generators {operator operator' : Term}
    (hop : operator.refName? = some "internal.member_2") (hop' : operator'.refName? = some "internal.member_3")
    (hs : s.Calm env) (hi : i ≠ wildcard) (hy : y ≠ wildcard) (hiy : i ≠ y) (hxs : xs.isGround = true)
    (hvalue : xs.needsEval = false) (henum : xs.Enumerable) :
    ∃ values entries, env.generatedValues rules operator y xs s = .ok values ∧
      env.generatedEntries rules operator' i y xs s = .ok entries ∧
      (∀ x, Builtin.member2 [x, xs] = Operand.value (.bool (values.any (· == x)))) ∧
      ((∀ members, xs ≠ .set members) → ∀ k v,
        Builtin.member3 [k, v, xs] = Operand.value (.bool (entries.any fun e => e.1 == k && e.2 == v))) ∧
      ∀ members, xs = .set members → entries = members.map (fun m => (m, m)) ∧
        ∀ k v, Builtin.member3 [k, v, xs] = Operand.value (.bool false) := by
  refine ⟨_, _, env.generatedValues_eq rules hop hs hy hxs hvalue,
    env.generatedEntries_eq rules hop' hs hi hy hiy hxs hvalue, fun x => ?_, fun hset k v => ?_, ?_⟩
  · rw [Builtin.member2, Builtin.isMember_eq henum, List.any_map]
    rfl
  · rw [Builtin.member3, Builtin.isEntry_eq henum hset]
  · rintro members rfl
    exact ⟨rfl, fun k v => by rw [Builtin.member3, Builtin.isEntry_set]⟩

example : Rows.env.generatedEntries Rows.env.rules (.ref (.var "internal") [.string "member_3"]) "i" "y"
      (.set [.string "a"]) Rows.start = .ok [(.string "a", .string "a")] ∧
    Builtin.member3 [.string "a", .string "a", .set [.string "a"]] = Operand.value (.bool false) :=
  ⟨generatedEntries_eq _ _ (by decide) ⟨rfl, rfl⟩ (by decide) (by decide) (by decide) rfl rfl, rfl⟩

end Env
end PolicyEngine
