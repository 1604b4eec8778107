import PolicyEngine.Proofs.Ideal
import PolicyEngine.Proofs.Integers

/-!
The ideal evaluation beside itself. As long as nondeterministic built-ins answer by a fixed function, ideal rules
answer alike in all states with the same environment and the same overrides, and what they answer does not depend
on how deep they may be nested.
-/
namespace PolicyEngine

/-! ## Fixed answers -/

/-- Nondeterministic built-ins answer by a fixed function of their name and operands, whenever they answer. Equal
operands are the same to it. -/
structure Env.Fixed (env : Env) (f : String → List Term → Option Term) : Prop where
  respects : ∀ name args args', (args == args') = true → f name args = f name args'
  answers : ∀ b, env.registry.Callable b → b.deterministic = false → ∀ args s answer,
    (env.outcome b args s).1 = .ok answer → answer = f b.name args

/-- The answers kept are those of a function. -/
def BuiltinAnswer.By (f : String → List Term → Option Term) (answers : List BuiltinAnswer) : Prop :=
  ∀ a ∈ answers, a.result = f a.name a.operands

section Fixed

variable {env : Env} {f : String → List Term → Option Term}

theorem Env.Fixed.eq_of_lookup (hf : env.Fixed f) {answers : List BuiltinAnswer} (h : BuiltinAnswer.By f answers)
    {name : String} {args : List Term} {answer : Option Term}
    (hlookup : BuiltinAnswer.lookup answers name args = some answer) : answer = f name args := by
  obtain ⟨a, hfind, rfl⟩ := Option.map_eq_some_iff.1 hlookup
  have hkey := List.find?_some hfind
  simp only [Bool.and_eq_true, beq_iff_eq] at hkey
  rw [h a (List.mem_of_find?_eq_some hfind), hkey.1]
  exact hf.respects name _ _ hkey.2

/-- A call that is answered is answered by the function, and so are the calls after it. -/
theorem Env.Fixed.callBuiltin (hf : env.Fixed f) {b : Builtin} {args : List Term} {s s' : State} {answer : Option Term}
    (hb : env.registry.Callable b) (hdet : b.deterministic = false) (href : Env.refusal? b args = none)
    (h : BuiltinAnswer.By f s.answers) (hrun : (env.callBuiltin b args).run s = (.ok answer, s')) :
    answer = f b.name args ∧ BuiltinAnswer.By f s'.answers := by
  rcases Env.answer_cases hdet href hrun with ⟨hold, rfl⟩ | ⟨_, hout, rfl⟩
  · exact ⟨hf.eq_of_lookup h hold, h⟩
  · have hanswer := hf.answers b hb hdet args s answer hout
    refine ⟨hanswer, fun a ha => ?_⟩
    rcases List.mem_cons.1 ha with rfl | ha
    · exact hanswer
    · exact h a ha

theorem Env.Fixed.by_callBuiltin (hf : env.Fixed f) {b : Builtin} (hb : env.registry.Callable b) (args : List Term)
    {s : State} (h : BuiltinAnswer.By f s.answers) : BuiltinAnswer.By f ((env.callBuiltin b args).run s).2.answers := by
  by_cases hquiet : b.deterministic = false ∧ Env.refusal? b args = none
  · rcases hrun : (env.callBuiltin b args).run s with ⟨e | answer, s'⟩
    · cases hlookup : BuiltinAnswer.lookup s.answers b.name args with
      | some r =>
        rw [Env.run_callBuiltin_answered hquiet.1 hquiet.2 hlookup] at hrun
        cases hrun
      | none =>
        rw [Env.run_callBuiltin_new hquiet.1 hquiet.2 hlookup] at hrun
        cases hout : (env.outcome b args s).1 with
        | ok r =>
          rw [hout] at hrun
          cases hrun
        | error e' =>
          rw [hout] at hrun
          cases hrun
          exact h
    · exact (hf.callBuiltin hb hquiet.1 hquiet.2 h hrun).2
  · rw [Env.run_callBuiltin]
    cases href : Env.refusal? b args with
    | some r => exact h
    | none =>
      have hdet : b.deterministic = true := by simpa [href] using hquiet
      simp only [hdet, if_true, Env.run_runBuiltin]
      exact h

end Fixed

/-! ### The core library -/

/-- What `rand.intn` picks, by the value of the bound whatever its representation. -/
def Builtin.pickedBy (draw : Draw) : List Term → Option Term
  | [.string seed, .number bound] =>
    match bound.exact with
    | .finite r => some (Term.ofNat (draw.pick seed r.num))
    | _ => none
  | _ => none

/-- The answers of the nondeterministic functions of the core library in a query started at a time. -/
def Registry.coreAnswer (draw : Builtin.Draw) (time : Int) (name : String) (args : List Term) : Option Term :=
  if name = "time.now_ns" then some (Term.ofInt time) else Builtin.pickedBy draw args

theorem Builtin.pickedBy_congr {draw : Draw} {args args' : List Term} (h : (args == args') = true) :
    pickedBy draw args = pickedBy draw args' := by
  have hpicked : ∀ {args args' : List Term}, (args == args') = true → ∀ r,
      pickedBy draw args = some r → pickedBy draw args' = some r := by
    intro args args' h r hr
    rw [pickedBy.eq_def] at hr
    split at hr
    · rcases args' with _ | ⟨a, _ | ⟨b, _ | ⟨c, rest⟩⟩⟩
      case cons.cons.nil =>
        rw [List.cons_beq_cons, List.cons_beq_cons, Bool.and_eq_true, Bool.and_eq_true] at h
        obtain rfl := Term.string_beq_iff.1 h.1
        obtain ⟨n, rfl, hn⟩ := Term.number_beq_iff.1 h.2.1
        rw [pickedBy, ← hn]
        exact hr
      all_goals simp at h
    · cases hr
  cases hargs : pickedBy draw args with
  | some r => exact (hpicked h r hargs).symm
  | none =>
    cases hargs' : pickedBy draw args' with
    | some r => exact hargs.symm.trans (hpicked (Term.beqList_symm h) r hargs')
    | none => rfl

theorem Operand.exact_of_integer {t : Term} {i : Int} (h : Operand.integer t = .ok i) :
    ∃ n, t = .number n ∧ n.exact = .finite i := by
  rw [Operand.integer.eq_def] at h
  split at h
  · next n =>
    split at h
    · split at h
      · next j hj =>
        cases h
        refine ⟨n, rfl, Number.exact_of_toInt? ?_⟩
        rw [Number.toSigned?] at hj
        split at hj
        · next k hk =>
          split at hj
          · cases hj
            exact hk
          · cases hj
        · cases hj
      · cases h
    · cases h
  · cases h

theorem Builtin.randomInt_ok {draw : Draw} {args : List Term} {answer : Option Term}
    (h : randomInt draw args = .ok answer) : answer = pickedBy draw args := by
  rw [randomInt.eq_def] at h
  split at h
  · next a b =>
    cases ha : Operand.string a with
    | error e =>
      rw [ha] at h
      cases h
    | ok seed =>
      cases hb : Operand.integer b with
      | error e =>
        rw [ha, hb] at h
        cases h
      | ok bound =>
        rw [ha, hb] at h
        cases h
        obtain ⟨n, rfl, hn⟩ := Operand.exact_of_integer hb
        cases a <;> cases ha
        simp only [pickedBy, hn, Rat.num_intCast]
  · cases h

/-- A built-in that is not lenient and is run in strict mode answers only what it gives itself. -/
theorem Env.answer_of_strict {env : Env} {b : Builtin} {args : List Term} {s : State} {answer : Option Term}
    (hstrict : env.options.strict = true) (hlenient : b.lenient = false)
    (hout : (env.outcome b args s).1 = .ok answer) :
    (b.invoke ⟨b.name, env.time, s.depth, env.options.tracing⟩ args s.host).1 = .ok answer := by
  simp only [Env.outcome, Env.builtinResult] at hout
  split at hout
  · next value hvalue =>
    cases hout
    exact hvalue
  · simp only [Env.failedCall, hlenient, hstrict, Bool.false_eq_true, if_true, if_false] at hout
    cases hout

/-- In strict mode the nondeterministic functions of the core library answer by a fixed function. -/
theorem Env.fixed_core {env : Env} {draw : Builtin.Draw} (hregistry : env.registry = Registry.core draw)
    (hstrict : env.options.strict = true) : env.Fixed (Registry.coreAnswer draw env.time) := by
  refine ⟨fun name args args' h => ?_, fun b hb hdet args s answer hout => ?_⟩
  · simp only [Registry.coreAnswer, Builtin.pickedBy_congr h]
  · rw [hregistry] at hb
    have hdeterministic : ∀ {bs : List Builtin}, (bs.all fun b => b.deterministic) = true → b ∉ bs := by
      intro bs hall hmem
      rw [List.all_eq_true] at hall
      exact absurd ((hall b hmem).symm.trans hdet) nofun
    have hmem := Registry.mem_of_callable_core hb
    simp only [List.mem_append] at hmem
    rcases hmem with (((h | h) | h) | h) | h
    · exact (hdeterministic rfl h).elim
    · have hrand : b = { Builtin.ofPure "rand.intn" [.string, .number] .number (Builtin.randomInt draw) with
          deterministic := false } := by
        simp only [Builtin.numberBuiltins, List.mem_cons, List.not_mem_nil, or_false] at h
        rcases h with rfl | rfl | rfl | rfl | rfl | rfl | rfl | rfl | rfl | rfl | rfl | rfl <;>
          first | rfl | cases hdet
      subst hrand
      exact Builtin.randomInt_ok (Env.answer_of_strict hstrict rfl hout)
    · exact (hdeterministic rfl h).elim
    · exact (hdeterministic rfl h).elim
    · simp only [Builtin.contextBuiltins, List.mem_cons, List.not_mem_nil, or_false] at h
      rcases h with rfl | rfl | rfl | rfl | rfl | rfl <;> try cases hdet
      have hnow := Env.answer_of_strict hstrict rfl hout
      cases hnow
      rfl

/-! ## The ideal evaluation beside itself -/

/-- Built-ins answer by a fixed function, and evaluation keeps to a vocabulary. -/
structure Env.Steady (env : Env) (f : String → List Term → Option Term) (voc : Vocabulary) : Prop where
  regular : env.registry.Regular
  fixed : env.Fixed f
  speaks : env.Speaks voc
  values : ∀ name args, IfSome (Term.VarsIn voc.names) (f name args)

theorem Env.steady_any {env : Env} {f : String → List Term → Option Term} (hreg : env.registry.Regular)
    (hf : env.Fixed f) : env.Steady f .any :=
  ⟨hreg, hf, env.speaks_any, fun _ _ => Vocabulary.varsIn_any _⟩

namespace Pairing

/-- States with the same environment and overrides, whose answers are those of a function. -/
structure Alike (env : Env) (f : String → List Term → Option Term) (voc : Vocabulary) (σ : Scope)
    (s t : State) : Prop where
  bindings : t.bindings = s.bindings
  names : s.bindings.VarsIn voc.names
  overrides : σ.VarsIn voc.free voc.mocks
  scope : σ.Agrees s.scope
  scope' : σ.Agrees t.scope
  calm : s.Calm env
  calm' : t.Calm env
  answered : BuiltinAnswer.By f s.answers
  answered' : BuiltinAnswer.By f t.answers

/-- The second of two states that are alike, beside itself. -/
theorem Alike.right {env : Env} {f : String → List Term → Option Term} {voc : Vocabulary} {σ : Scope} {s t : State}
    (h : Alike env f voc σ s t) : Alike env f voc σ t t :=
  ⟨rfl, h.bindings ▸ h.names, h.overrides, h.scope', h.scope', h.calm', h.calm', h.answered', h.answered'⟩

/-- Two states that each could be alike to another one, with the same environment. -/
theorem Alike.join {env : Env} {f : String → List Term → Option Term} {voc : Vocabulary} {σ : Scope} {s t : State}
    (hs : Alike env f voc σ s s) (ht : Alike env f voc σ t t) (hb : t.bindings = s.bindings) : Alike env f voc σ s t :=
  ⟨hb, hs.names, hs.overrides, hs.scope, ht.scope, hs.calm, ht.calm, hs.answered, ht.answered⟩

/-- The ideal evaluation beside itself. A built-in may fail in one state only, and then that run ends. -/
def alike (env : Env) (f : String → List Term → Option Term) (voc : Vocabulary) : Pairing Unit where
  toVocabulary := voc
  env := env
  env' := env
  World := Scope
  later := Eq
  rel := Alike env f voc
  grows _ _ := True
  within _ := True
  escapes _ := True
  limit := ⊤
  depths _ _ := True

namespace alike

variable {env : Env} {f : String → List Term → Option Term} {voc : Vocabulary} {σ : Scope} {s t : State}

theorem lawful (h : env.Steady f voc) : (alike env f voc).Lawful where
  same := rfl
  speaks := h.speaks
  later_refl _ := rfl
  later_trans := Eq.trans
  grows_refl _ := trivial
  grows_trans _ _ := trivial
  grows_call _ _ _ := trivial
  within_between _ _ _ _ := trivial
  bindings_eq := Alike.bindings
  bindings_vars := Alike.names
  scope_agrees h := h.scope.symm.trans h.scope'
  scope_vars h := h.overrides.agrees h.scope
  depth _ := trivial
  calm := Alike.calm'
  setBindings _ h hb := { h with
    bindings := rfl, names := hb, calm := ⟨h.calm.1, h.calm.2⟩, calm' := ⟨h.calm'.1, h.calm'.2⟩ }
  scope := by
    intro w s t σ τ h hagrees hσ
    refine ⟨σ, ?_, ?_, fun s₁ t₁ h₁ => ?_⟩
    · exact { h with
        overrides := hσ, scope := ⟨rfl, rfl, rfl⟩, scope' := ⟨hagrees.input, hagrees.data, hagrees.functions⟩
        calm := ⟨h.calm.1, h.calm.2⟩, calm' := ⟨h.calm'.1, h.calm'.2⟩ }
    · rintro _ rfl
      refine ⟨w, rfl, fun s₁ t₁ h₁ => ⟨?_, fun s₂ t₂ h₂ => ?_⟩⟩
      · exact { h₁ with
          overrides := h.overrides, scope := h.scope, scope' := h.scope'
          calm := ⟨h₁.calm.1, h₁.calm.2⟩, calm' := ⟨h₁.calm'.1, h₁.calm'.2⟩ }
      · exact { h₂ with
          overrides := hσ, scope := h₁.scope, scope' := h₁.scope'
          calm := ⟨h₂.calm.1, h₂.calm.2⟩, calm' := ⟨h₂.calm'.1, h₂.calm'.2⟩ }
    · exact { h₁ with
        overrides := h.overrides, scope := h.scope, scope' := h.scope'
        calm := ⟨h₁.calm.1, h₁.calm.2⟩, calm' := ⟨h₁.calm'.1, h₁.calm'.2⟩ }
  quiet := by
    intro w s t s' t' h hs ht
    refine ⟨?_, ?_, h.overrides, ?_, ?_, h.calm.quiet hs, h.calm'.quiet ht, hs.answers.symm ▸ h.answered,
      ht.answers.symm ▸ h.answered'⟩
    · rw [hs.eq, ht.eq]
      exact h.bindings
    · rw [hs.eq]
      exact h.names
    · rw [hs.eq]
      exact h.scope
    · rw [ht.eq]
      exact h.scope'
  regular := h.regular
  calls := by
    intro w s t b args answer s' hb hdet href hst hrun _
    have hst : Alike env f voc w s t := hst
    obtain ⟨hanswer, hby⟩ := h.fixed.callBuiltin hb hdet href hst.answered hrun
    rcases hrun' : (env.callBuiltin b args).run t with ⟨e | answer', t'⟩
    · exact .inr ⟨e, congrArg Prod.fst hrun', trivial⟩
    · obtain ⟨hanswer', hby'⟩ := h.fixed.callBuiltin hb hdet href hst.answered' hrun'
      refine .inl ⟨t', hanswer.trans hanswer'.symm ▸ hrun', ?_, hanswer ▸ h.values b.name args⟩
      obtain ⟨host, as, hs⟩ := env.state_callBuiltin b args s
      obtain ⟨host', as', ht⟩ := env.state_callBuiltin b args t
      rw [show (env.callBuiltin b args).run s = _ from hrun] at hs
      rw [hrun'] at ht
      simp only at hs ht
      subst hs ht
      exact { hst with
        calm := ⟨hst.calm.1, hst.calm.2⟩, calm' := ⟨hst.calm'.1, hst.calm'.2⟩, answered := hby, answered' := hby' }

theorem computes_isolated {P : Prop} {B : β → β → Prop} {m : Eval β} {m' : Unit → Eval β} (h : env.Steady f voc)
    (hm : ∀ σ, (alike env f voc).coupling.Computes σ P B m m') :
    (alike env f voc).coupling.Computes σ P B m.isolated fun i => (m' i).isolated := by
  refine Coupling.Computes.nested (fun _ => rfl) (fun _ => rfl) ?_ (lawful h).coupling hm
  intro v s t hst
  refine ⟨v, (lawful h).setBindings {} hst Bindings.varsIn_empty, fun s₁ t₁ _ h₁ => ?_⟩
  exact { h₁ with
    bindings := hst.bindings, names := hst.names
    calm := ⟨h₁.calm.1, h₁.calm.2⟩, calm' := ⟨h₁.calm'.1, h₁.calm'.2⟩ }

/-- Ideal rules answer alike in states that are alike, and deeper rules answer what less deep ones do. -/
theorem rulesAnswer (h : env.Steady f voc) {n m : Nat} (hle : n ≤ m) :
    Coupling.RulesAnswer (alike env f voc).coupling (env.idealTo n) fun _ => env.idealTo m := by
  have hlaw : (alike env f voc).coupling.Lawful := (lawful h).coupling
  induction n generalizing m with
  | zero =>
    refine ⟨fun w rs => ⟨fun s => trivial, ?_⟩, fun w rs args => ⟨fun s => trivial, ?_⟩⟩
    · exact fun _ _ _ _ _ _ hfol => (hfol.1 _ rfl).elim
    · exact fun _ _ _ _ _ _ hfol => (hfol.1 _ rfl).elim
  | succ n ih =>
    obtain ⟨m, rfl⟩ : ∃ k, m = k + 1 := ⟨m - 1, by omega⟩
    have ih := ih (Nat.le_of_succ_le_succ hle)
    refine ⟨fun w rs => ?_, fun w rs args => ?_⟩
    · by_cases hkind : rs.kind = .function
      · simp only [Env.idealTo, RuleSet.forgetting, if_pos hkind]
        exact Coupling.computes_pure hlaw fun _ => ⟨rfl, ifSome_none⟩
      · simp only [Env.idealTo, RuleSet.forgetting, if_neg hkind]
        exact computes_isolated h fun w => Coupling.computes_evalDocument hlaw ih rs ((lawful h).policyProper rs)
          (Coupling.computes_candidates hlaw ih rfl rs)
    · exact computes_isolated h fun w =>
        Coupling.computes_evalFunction hlaw ih rs args (fun hP => (lawful h).policyProper rs hP.1) And.right

theorem simulates_evalBody (h : env.Steady f voc) {n : Nat} {body : Body}
    (hbody : Expr.ProperBody voc.names (env.TargetIn voc.mocks) body) {α α' : Type} {A : Gathering α α'} {k : Search α}
    {k' : Search α'} (hk : (alike env f voc).coupling.Simulates σ True A k fun _ => k') :
    (alike env f voc).coupling.Simulates σ True A (env.evalBody (env.idealTo n) body k)
      fun _ => env.evalBody (env.idealTo n) body k' :=
  Coupling.bodyAnswers (lawful h).coupling (rulesAnswer h (Nat.le_refl n)) body (fun _ => hbody) hk

end alike
end Pairing
end PolicyEngine
