import PolicyEngine.Proofs.Steps
import PolicyEngine.Proofs.TermOrder

/-!
The answers of built-ins. A nondeterministic built-in keeps to its first answer, also for operands that are only
equal to the first ones; so the list of answers kept is only ever extended.
-/
namespace PolicyEngine
namespace BuiltinAnswer

/-- The answer kept for operands. -/
def lookup (answers : List BuiltinAnswer) (name : String) (operands : List Term) : Option (Option Term) :=
  (answers.find? fun a => a.name == name && a.operands == operands).map BuiltinAnswer.result

theorem lookup_cons (a : BuiltinAnswer) (answers : List BuiltinAnswer) (name : String) (operands : List Term) :
    lookup (a :: answers) name operands =
      if (a.name == name && a.operands == operands) = true then some a.result else lookup answers name operands := by
  rw [lookup, List.find?_cons]
  split <;> simp_all [lookup]

/-- Equal operands have the same answer. -/
theorem lookup_congr (answers : List BuiltinAnswer) (name : String) {operands operands' : List Term}
    (h : (operands == operands') = true) : lookup answers name operands = lookup answers name operands' := by
  have heq : ∀ a : BuiltinAnswer, (a.operands == operands) = (a.operands == operands') := by
    intro a
    rw [Bool.eq_iff_iff]
    exact ⟨fun ha => Term.beqList_trans ha h, fun ha => Term.beqList_trans ha (Term.beqList_symm h)⟩
  simp only [lookup, heq]

/-- Every answer of a list is also one of another. -/
def Extends (answers later : List BuiltinAnswer) : Prop :=
  ∀ name operands r, lookup answers name operands = some r → lookup later name operands = some r

theorem Extends.refl (answers : List BuiltinAnswer) : Extends answers answers := fun _ _ _ h => h

theorem Extends.trans {a b c : List BuiltinAnswer} (h : Extends a b) (h' : Extends b c) : Extends a c :=
  fun name operands r hr => h' name operands r (h name operands r hr)

/-- A new answer leaves the others as they are. -/
theorem extends_cons {answers : List BuiltinAnswer} {name : String} {operands : List Term} (r : Option Term)
    (hnew : lookup answers name operands = none) : Extends answers (⟨name, operands, r⟩ :: answers) := by
  intro n ops v hv
  rw [lookup_cons]
  split
  · next hsame =>
    simp only [Bool.and_eq_true, beq_iff_eq] at hsame
    rw [← hsame.1, ← lookup_congr answers name hsame.2, hnew] at hv
    cases hv
  · exact hv

theorem lookup_new (answers : List BuiltinAnswer) (name : String) (operands : List Term) (r : Option Term) :
    lookup (⟨name, operands, r⟩ :: answers) name operands = some r := by
  rw [lookup_cons, if_pos]
  simp

end BuiltinAnswer

/-! ## Calls -/

/-- A function of a registry that can be called. -/
def Registry.Callable (r : Registry) (b : Builtin) : Prop := r.get? b.name = some b

namespace Env

variable (env : Env)

theorem extends_callBuiltin (b : Builtin) (args : List Term) (s : State) :
    BuiltinAnswer.Extends s.answers ((env.callBuiltin b args).run s).2.answers := by
  rw [run_callBuiltin]
  split
  · exact .refl _
  · rw [run_runBuiltin]
    split
    · exact .refl _
    · split
      · exact .refl _
      · next hnew =>
        dsimp only
        cases env.builtinResult b args (b.invoke _ args s.host).1 with
        | error e => exact .refl _
        | ok answer => exact BuiltinAnswer.extends_cons answer hnew

variable {env} {b : Builtin} {args : List Term} {answer : Option Term} {s s' : State}

/-- What a built-in answers in a state when it is run, and what it leaves with the host. -/
def outcome (env : Env) (b : Builtin) (args : List Term) (s : State) : Except EvalError (Option Term) × Host :=
  let r := b.invoke ⟨b.name, env.time, s.depth, env.options.tracing⟩ args s.host
  (env.builtinResult b args r.1, r.2)

/-- A nondeterministic built-in is run for operands that have no answer yet. -/
theorem run_callBuiltin_new (hdet : b.deterministic = false) (href : refusal? b args = none)
    (hnew : BuiltinAnswer.lookup s.answers b.name args = none) :
    (env.callBuiltin b args).run s =
      match (env.outcome b args s).1 with
      | .error e => (.error e, { s with host := (env.outcome b args s).2 })
      | .ok answer => (.ok answer,
          { s with host := (env.outcome b args s).2, answers := ⟨b.name, args, answer⟩ :: s.answers }) := by
  have hnew : s.answered? b.name args = none := hnew
  rw [run_callBuiltin, href]
  simp only [hdet, Bool.false_eq_true, if_false, hnew, run_runBuiltin, outcome]
  cases env.builtinResult b args (b.invoke _ args s.host).1 <;> rfl

theorem run_callBuiltin_answered (hdet : b.deterministic = false) (href : refusal? b args = none)
    (hold : BuiltinAnswer.lookup s.answers b.name args = some answer) :
    (env.callBuiltin b args).run s = (.ok answer, s) := by
  have hold : s.answered? b.name args = some answer := hold
  rw [run_callBuiltin, href]
  simp only [hdet, Bool.false_eq_true, if_false, hold]

/-- The answer of a nondeterministic built-in is the one kept, or it is new and kept from then on. -/
theorem answer_cases (hdet : b.deterministic = false) (href : refusal? b args = none)
    (hrun : (env.callBuiltin b args).run s = (.ok answer, s')) :
    (BuiltinAnswer.lookup s.answers b.name args = some answer ∧ s' = s) ∨
      BuiltinAnswer.lookup s.answers b.name args = none ∧ (env.outcome b args s).1 = .ok answer ∧
        s' = { s with host := (env.outcome b args s).2, answers := ⟨b.name, args, answer⟩ :: s.answers } := by
  cases hlookup : BuiltinAnswer.lookup s.answers b.name args with
  | some r =>
    rw [run_callBuiltin_answered hdet href hlookup] at hrun
    cases hrun
    exact .inl ⟨rfl, rfl⟩
  | none =>
    rw [run_callBuiltin_new hdet href hlookup] at hrun
    cases hr : (env.outcome b args s).1 with
    | error e =>
      rw [hr] at hrun
      cases hrun
    | ok r =>
      rw [hr] at hrun
      cases hrun
      exact .inr ⟨rfl, rfl, rfl⟩

/-- After a call the answer is kept. -/
theorem lookup_callBuiltin (hdet : b.deterministic = false) (href : refusal? b args = none)
    (hrun : (env.callBuiltin b args).run s = (.ok answer, s')) :
    BuiltinAnswer.lookup s'.answers b.name args = some answer := by
  rcases answer_cases hdet href hrun with ⟨hold, rfl⟩ | ⟨_, _, rfl⟩
  · exact hold
  · exact BuiltinAnswer.lookup_new s.answers b.name args answer

end Env

/-- What the evaluation relies on in a built-in: what it answers depends on its operands and, if it is
nondeterministic, on the counter of the host; and only a nondeterministic one changes the counter. The nesting of
rules and what was printed or traced before make no difference. -/
structure Builtin.Regular (b : Builtin) : Prop where
  deterministic : b.deterministic = true → ∀ context depth args host host',
    (b.invoke context args host).1 = (b.invoke { context with depth := depth } args host').1 ∧
      (b.invoke context args host).2.counter = host.counter
  nondeterministic : b.deterministic = false → ∀ context depth args host host', host'.counter = host.counter →
    (b.invoke context args host).1 = (b.invoke { context with depth := depth } args host').1 ∧
      (b.invoke context args host).2.counter = (b.invoke { context with depth := depth } args host').2.counter

def Registry.Regular (r : Registry) : Prop := ∀ b, r.Callable b → b.Regular

/-! ## The core library -/

theorem Builtin.regular_of_pure {b : Builtin} (h : b.needsContext = false) : b.Regular := by
  rcases b with ⟨name, operands, result, run | run, variadic, deterministic, lenient⟩
  · exact ⟨fun _ _ _ _ _ _ => ⟨rfl, rfl⟩, fun _ _ _ _ _ _ hcounter => ⟨rfl, hcounter.symm⟩⟩
  · cases h

theorem Builtin.regular_print : ({ Builtin.ofContextual "print" [] .boolean print with
    variadic := true, lenient := true } : Builtin).Regular :=
  ⟨fun _ _ _ _ _ _ => ⟨rfl, rfl⟩, nofun⟩

theorem Builtin.regular_trace : (Builtin.ofContextual "trace" [.string] .boolean trace).Regular := by
  refine ⟨fun _ context depth args host host' => ?_, nofun⟩
  simp only [Builtin.invoke, Builtin.ofContextual, trace]
  split
  · refine ⟨rfl, ?_⟩
    dsimp only
    split <;> rfl
  · exact ⟨rfl, rfl⟩
  · exact ⟨rfl, rfl⟩

theorem Builtin.regular_nowNs : ({ Builtin.ofContextual "time.now_ns" [] .number nowNs with
    deterministic := false } : Builtin).Regular :=
  ⟨nofun, fun _ _ _ _ _ _ hcounter => ⟨rfl, hcounter.symm⟩⟩

theorem Registry.mem_insertSorted {b c : Builtin} {bs : List Builtin} (h : c ∈ insertSorted b bs) : c = b ∨ c ∈ bs := by
  induction bs with
  | nil => exact .inl (List.mem_singleton.1 h)
  | cons first rest ih =>
    simp only [insertSorted] at h
    split at h
    · exact List.mem_cons.1 h
    · exact (List.mem_cons.1 h).imp_right (List.mem_cons_of_mem _)
    · rcases List.mem_cons.1 h with rfl | h
      · exact .inr List.mem_cons_self
      · exact (ih h).imp_right (List.mem_cons_of_mem _)

theorem Registry.mem_insertAll {bs : List Builtin} {r : Registry} {c : Builtin} (h : c ∈ (r.insertAll bs).builtins) :
    c ∈ bs ∨ c ∈ r.builtins := by
  induction bs generalizing r with
  | nil => exact .inr h
  | cons b rest ih =>
    rcases ih (r := r.insert b) h with h | h
    · exact .inl (List.mem_cons_of_mem _ h)
    · rcases mem_insertSorted h with rfl | h
      · exact .inl List.mem_cons_self
      · exact .inr h

theorem Registry.find?_insertSorted (b : Builtin) (bs : List Builtin) (name : String) :
    (insertSorted b bs).find? (·.name == name) = if b.name == name then some b else bs.find? (·.name == name) := by
  induction bs with
  | nil =>
    rw [insertSorted, List.find?_cons]
    cases b.name == name <;> rfl
  | cons c rest ih =>
    rw [insertSorted]
    cases hcmp : compare b.name c.name with
    | lt =>
      rw [List.find?_cons]
      cases b.name == name <;> rfl
    | eq =>
      rw [List.find?_cons, List.find?_cons, Std.LawfulEqOrd.compare_eq_iff_eq.1 hcmp]
      cases c.name == name <;> rfl
    | gt =>
      rw [List.find?_cons, List.find?_cons, ih]
      by_cases hc : c.name = name
      · have hb : b.name ≠ name := by
          intro hb
          rw [hb, hc, Std.ReflOrd.compare_self] at hcmp
          cases hcmp
        rw [beq_iff_eq.2 hc, beq_eq_false_iff_ne.2 hb]
        rfl
      · rw [beq_eq_false_iff_ne.2 hc]

/-- Of the functions with one name, the last that is added is found. -/
theorem Registry.get?_insertAll (bs : List Builtin) (r : Registry) (name : String) :
    (r.insertAll bs).get? name = (bs.reverse.find? (·.name == name)).or (r.get? name) := by
  induction bs generalizing r with
  | nil => rfl
  | cons b rest ih =>
    have hinsert : (r.insert b).get? name = if b.name == name then some b else r.get? name :=
      find?_insertSorted b r.builtins name
    rw [insertAll, List.foldl_cons, ← insertAll, ih, hinsert, List.reverse_cons, List.find?_append, Option.or_assoc,
      List.find?_singleton]
    cases b.name == name <;> rfl

/-- The functions of the core library, family by family. -/
def Registry.families (draw : Builtin.Draw) : List Builtin :=
  Builtin.comparisonBuiltins ++ Builtin.numberBuiltins draw ++ Builtin.collectionBuiltins ++ Builtin.stringBuiltins
    ++ Builtin.contextBuiltins

theorem Registry.get?_core (draw : Builtin.Draw) (name : String) :
    (core draw).get? name = (families draw).reverse.find? (·.name == name) := by
  rw [core, get?_insertAll, ← families]
  exact Option.or_none

/-- A function of the core library belongs to one of its families. -/
theorem Registry.mem_of_callable_core {draw : Builtin.Draw} {b : Builtin} (h : (Registry.core draw).Callable b) :
    b ∈ Builtin.comparisonBuiltins ++ Builtin.numberBuiltins draw ++ Builtin.collectionBuiltins ++ Builtin.stringBuiltins
      ++ Builtin.contextBuiltins :=
  (mem_insertAll (List.mem_of_find?_eq_some h)).resolve_right (by simp)

theorem Registry.regular_core (draw : Builtin.Draw) : (Registry.core draw).Regular := by
  have hpure : ∀ {bs : List Builtin}, (bs.all fun b => !b.needsContext) = true → ∀ b ∈ bs, b.Regular := by
    intro bs hall b hb
    exact Builtin.regular_of_pure (by simpa using List.all_eq_true.1 hall b hb)
  intro b hb
  have hmem := mem_of_callable_core hb
  simp only [List.mem_append] at hmem
  rcases hmem with (((h | h) | h) | h) | h
  · exact hpure rfl b h
  · exact hpure rfl b h
  · exact hpure rfl b h
  · exact hpure rfl b h
  · simp only [Builtin.contextBuiltins, List.mem_cons, List.not_mem_nil, or_false] at h
    rcases h with rfl | rfl | rfl | rfl | rfl | rfl
    · exact Builtin.regular_of_pure rfl
    · exact Builtin.regular_of_pure rfl
    · exact Builtin.regular_of_pure rfl
    · exact Builtin.regular_print
    · exact Builtin.regular_trace
    · exact Builtin.regular_nowNs

end PolicyEngine
