import PolicyEngine.Proofs.Grounded

/-!
What went before does not affect an evaluation. Events and printed lines, requests to the store and time that has
passed are left behind and not looked at, so two evaluations that start alike but for these answer alike, errors
included, and are alike but for these at the end. On the way only ground documents are remembered.
-/
namespace PolicyEngine

/-- What a built-in answers, and how it counts its calls, does not depend on what was traced and printed before. -/
def Builtin.Unaffected (b : Builtin) : Prop := ∀ context args host host', host'.counter = host.counter →
  (b.invoke context args host').1 = (b.invoke context args host).1 ∧
    (b.invoke context args host').2.counter = (b.invoke context args host).2.counter

def Registry.Unaffected (r : Registry) : Prop := ∀ b, r.Callable b → b.Unaffected

theorem Builtin.Regular.unaffected {b : Builtin} (h : b.Regular) : b.Unaffected := by
  intro context args host host' hcounter
  cases hdet : b.deterministic with
  | true =>
    obtain ⟨hresult, hsame⟩ := h.deterministic hdet context context.depth args host host'
    obtain ⟨-, hsame'⟩ := h.deterministic hdet context context.depth args host' host'
    exact ⟨hresult.symm, hsame'.trans (hcounter.trans hsame.symm)⟩
  | false =>
    obtain ⟨hresult, hsame⟩ := h.nondeterministic hdet context context.depth args host host' hcounter
    exact ⟨hresult.symm, hsame.symm⟩

theorem Registry.Regular.unaffected {r : Registry} (h : r.Regular) : r.Unaffected := fun b hb => (h b hb).unaffected

/-! ## States -/

/-- A state with what was left behind in another one. -/
def State.leaving (s t : State) : State :=
  { s with host := t.host, requests := t.requests, timer := t.timer, clock := t.clock }

namespace State.Quiet

variable {s t : State}

/-- What was left behind, and nothing else, may be different. -/
theorem cases (h : s.Quiet t) : ∃ host requests timer clock,
    t = { s with host := host, requests := requests, timer := timer, clock := clock } ∧
      host.counter = s.host.counter ∧ timer.config = s.timer.config :=
  ⟨_, _, _, _, h.eq, h.counter, h.limit⟩

theorem symm (h : s.Quiet t) : t.Quiet s := by
  obtain ⟨host, requests, timer, clock, rfl, hcounter, hlimit⟩ := h.cases
  exact ⟨rfl, hcounter.symm, hlimit.symm⟩

/-- Two states are changed alike by something that does not look at what was left behind. -/
theorem map (h : s.Quiet t) {f : State → State} (hf : ∀ s t, f (s.leaving t) = (f s).leaving t) :
    (f s).Quiet (f t) := by
  have hs : f s = (f s).leaving s := hf s s
  have ht : f t = (f s).leaving t := by
    have heq : t = s.leaving t := h.eq
    rw [← hf, ← heq]
  have hcounter : (f s).host = s.host := by
    rw [hs]
    rfl
  have hlimit : (f s).timer = s.timer := by
    rw [hs]
    rfl
  rw [ht]
  refine ⟨rfl, ?_, ?_⟩
  · rw [hcounter]
    exact h.counter
  · rw [hlimit]
    exact h.limit

theorem returning (h : s.Quiet t) {s₁ t₁ : State} (h₁ : s₁.Quiet t₁) : (s.returning s₁).Quiet (t.returning t₁) := by
  obtain ⟨host, requests, timer, clock, rfl, -, -⟩ := h.cases
  exact h₁.map (f := s.returning) fun _ _ => rfl

end State.Quiet

/-- What is remembered is ground. -/
def State.Grounded (s : State) : Prop := ∀ e ∈ s.memo, GroundIfSome e.value

theorem State.Grounded.remembered? {s : State} (h : s.Grounded) {path : DataPath} {value : Option Term}
    (hr : s.remembered? path = some value) : GroundIfSome value := by
  obtain ⟨e, he, rfl⟩ := Option.map_eq_some_iff.1 hr
  exact h e (List.mem_of_find?_eq_some he)

/-- Two states that are alike but for what was left behind. Nothing ends the evaluations from outside. -/
structure State.Beside (env : Env) (s t : State) : Prop where
  quiet : s.Quiet t
  calm : s.Calm env
  grounded : s.Grounded

namespace State.Beside

variable {env : Env} {s t s' t' : State}

theorem move (h : s.Beside env t) (hs : s.Quiet s') (ht : t.Quiet t') : s'.Beside env t' := by
  refine ⟨hs.symm.trans (h.quiet.trans ht), h.calm.quiet hs, ?_⟩
  have hmemo : s'.memo = s.memo := by rw [hs.eq]
  rw [State.Grounded, hmemo]
  exact h.grounded

/-- A step that changes nothing but what it leaves behind and the answers of built-ins, and these on both sides. -/
theorem answering (h : s.Beside env t) {host : Host} {answers : List BuiltinAnswer}
    (hs : s' = { s with host := host, answers := answers }) (hq : s'.Quiet t') : s'.Beside env t' := by
  subst hs
  exact ⟨hq, ⟨h.calm.untimed, h.calm.uncancelled⟩, h.grounded⟩

end State.Beside

/-- A call answers alike on both sides. -/
theorem Env.callBuiltin_quiet (env : Env) {b : Builtin} (hb : b.Unaffected) (args : List Term) {s t : State}
    (h : s.Quiet t) : ((env.callBuiltin b args).run t).1 = ((env.callBuiltin b args).run s).1 ∧
      ((env.callBuiltin b args).run s).2.Quiet ((env.callBuiltin b args).run t).2 := by
  obtain ⟨host, requests, timer, clock, rfl, hcounter, hlimit⟩ := h.cases
  obtain ⟨hresult, hcounter⟩ := hb ⟨b.name, env.time, s.depth, env.options.tracing⟩ args s.host host hcounter
  rw [env.run_callBuiltin, env.run_callBuiltin, env.run_runBuiltin, env.run_runBuiltin]
  dsimp only [State.answered?]
  rw [hresult]
  cases Env.refusal? b args with
  | some refused => exact ⟨rfl, h⟩
  | none =>
    cases b.deterministic with
    | true => exact ⟨rfl, rfl, hcounter, hlimit⟩
    | false =>
      cases (s.answers.find? fun a => a.name == b.name && a.operands == args).map BuiltinAnswer.result with
      | some answer => exact ⟨rfl, h⟩
      | none =>
        cases env.builtinResult b args (b.invoke _ args s.host).1 with
        | error e => exact ⟨rfl, rfl, hcounter, hlimit⟩
        | ok answer => exact ⟨rfl, rfl, hcounter, hlimit⟩

/-! ## Evaluations -/

namespace Coupling

/-- An evaluation beside itself, where something else was left behind before. Errors are the same too. -/
def beside (env : Env) : Coupling Unit where
  toVocabulary := .any
  env := env
  env' := env
  World := Unit
  later _ _ := True
  rel _ := State.Beside env
  grows _ _ := True
  within _ := True
  follows _ := True
  escapes _ := False
  limit := ⊤
  depths := Eq

namespace beside

variable {env : Env} {w : Unit} {P : Prop} {β : Type} {B : β → β → Prop}

theorem lawful (hreg : env.registry.Unaffected) : (beside env).Lawful where
  later_refl _ := trivial
  later_trans _ _ := trivial
  grows_refl _ := trivial
  grows_trans _ _ := trivial
  within_between _ _ _ _ := trivial
  free_names _ _ := trivial
  bindings_eq h := by rw [h.quiet.eq]
  bindings_vars _ := Vocabulary.bindings_any _
  scope_agrees h := by
    rw [h.quiet.eq]
    exact ⟨rfl, rfl, rfl⟩
  scope_vars _ := Vocabulary.scope_any _
  depth h := by
    rw [h.quiet.eq]
    rfl
  setBindings {_ _ _ b} h _ := ⟨h.quiet.map (f := fun s => { s with bindings := b }) fun _ _ => rfl,
    ⟨h.calm.untimed, h.calm.uncancelled⟩, h.grounded⟩
  scope := by
    intro w s t σ τ h hagrees _
    have hopened : t.openScope τ = t.openScope σ := by
      simp only [State.openScope, hagrees.input, hagrees.data, hagrees.functions]
    have hlast : t.lastScope = s.lastScope := by rw [h.quiet.eq]
    have hscope : ∀ {s t : State}, s.Beside env t → t.scope = s.scope := fun h => by rw [h.quiet.eq]
    rw [hopened, hlast, hscope h]
    refine ⟨(), ?_, fun _ _ => ⟨(), trivial, fun s₁ t₁ h₁ => ⟨?_, fun s₂ t₂ h₂ => ?_⟩⟩, fun s₁ t₁ h₁ => ?_⟩
    · exact ⟨h.quiet.map (f := (·.openScope σ)) fun _ _ => rfl, ⟨h.calm.untimed, h.calm.uncancelled⟩, h.grounded⟩
    · exact ⟨h₁.quiet.map (f := fun s₁ => { s₁ with scope := s.scope }) fun _ _ => rfl,
        ⟨h₁.calm.untimed, h₁.calm.uncancelled⟩, h₁.grounded⟩
    · rw [hscope h₁]
      exact ⟨h₂.quiet.map (f := fun s₂ => { s₂ with scope := s₁.scope }) fun _ _ => rfl,
        ⟨h₂.calm.untimed, h₂.calm.uncancelled⟩, h₂.grounded⟩
    · exact ⟨h₁.quiet.map (f := (·.closeScope (s.lastScope + 1) s.scope)) fun _ _ => rfl,
        ⟨h₁.calm.untimed, h₁.calm.uncancelled⟩, fun e he => h₁.grounded e (List.mem_filter.1 he).1⟩
  policy := rfl
  registry := rfl
  checkpoint w := by
    refine computes_quiet (fun _ => trivial) State.Beside.move env.quiet_checkpoint env.quiet_checkpoint ?_
    intro _ v s t h _
    change Results Eq (env.checkpoint.run s).1 (env.checkpoint.run t).1
    rw [env.run_checkpoint_calm h.calm, env.run_checkpoint_calm (h.calm.quiet h.quiet)]
    rfl
  emit w op d d' text := by
    refine computes_quiet (fun _ => trivial) State.Beside.move (env.quiet_emit op d text) (env.quiet_emit op d' text) ?_
    intro _ v s t _ _
    change Results Eq ((env.emit op d text).run s).1 ((env.emit op d' text).run t).1
    rw [env.run_emit, env.run_emit]
    rfl
  read w path := by
    refine computes_quiet (fun _ => trivial) State.Beside.move (env.quiet_read path) (env.quiet_read path) ?_
    intro _ v s t _ _
    change Results _ ((env.read path).run s).1 ((env.read path).run t).1
    rw [env.run_read, env.run_read]
    exact Pairing.results_both fun r _ => Vocabulary.varsIn_any r
  listKeys w path := by
    refine computes_quiet (fun _ => trivial) State.Beside.move (env.quiet_listKeys path) (env.quiet_listKeys path) ?_
    intro _ v s t _ _
    change Results _ ((env.listKeys path).run s).1 ((env.listKeys path).run t).1
    rw [env.run_listKeys, env.run_listKeys]
    exact Pairing.results_both fun _ _ _ _ t _ => t.varsIn_of_forall fun _ => trivial
  callBuiltin w b args := by
    refine ⟨fun _ => trivial, fun hb v _ s t h _ => ?_⟩
    obtain ⟨hresult, hquiet⟩ := env.callBuiltin_quiet (hreg b hb) args h.quiet
    obtain ⟨host, answers, hstate⟩ := env.state_callBuiltin b args s
    refine ⟨_, .of_forall fun _ => rfl, .inl ⟨?_, h.answering hstate hquiet, (congrArg State.frame hstate).trans rfl⟩⟩
    rw [show ((beside env).env'.callBuiltin b args).run t = (env.callBuiltin b args).run t from rfl, hresult]
    exact Pairing.results_both fun r _ => Vocabulary.varsIn_any r

theorem policyProper : PolicyProper (beside env) := fun _ _ =>
  ⟨fun _ _ c _ => c.proper_of_forall (fun _ => trivial) fun _ _ _ => trivial,
    fun _ _ c _ => c.proper_of_forall (fun _ => trivial) fun _ _ _ => trivial⟩

/-! ### Rules -/

/-- A rule set is entered on both sides, or on neither. -/
theorem computes_entering (hreg : env.registry.Unaffected) (rs : RuleSet) {m : Eval β}
    (hm : ∀ w, (beside env).Computes w P B m fun _ => m) :
    (beside env).Computes w P B (env.entering rs m) fun _ => env.entering rs m := by
  refine ⟨fun _ => trivial, fun hP v hv s t h hfol => ?_⟩
  have hprogress : t.inProgress = s.inProgress := by rw [h.quiet.eq]
  have hdepth : t.depth = s.depth := by rw [h.quiet.eq]
  simp only [env.run_entering, hprogress, hdepth] at hfol ⊢
  split
  · exact ⟨_, .of_forall fun _ => rfl, .inl ⟨rfl, h, rfl⟩⟩
  · split
    · exact ⟨_, .of_forall fun _ => rfl, .inl ⟨rfl, h, rfl⟩⟩
    · have hinside : (beside env).Computes v P B (Eval.inside rs.name m) fun _ => Eval.inside rs.name m := by
        refine .inside (fun v s t h => ?_) (lawful hreg) hm
        have hentered : (s.entered rs.name).Quiet (t.entered rs.name) := h.quiet.map fun _ _ => rfl
        refine ⟨v, ⟨hentered, ⟨h.calm.untimed, h.calm.uncancelled⟩, h.grounded⟩, fun s₁ t₁ hs₁ h₁ => ?_⟩
        rw [State.exiting_of_frame (h₁.quiet.frame.trans (hs₁.trans hentered.frame.symm))]
        exact ⟨h.quiet.returning h₁.quiet, ⟨h₁.calm.untimed, h₁.calm.uncancelled⟩, h₁.grounded⟩
      exact hinside.2 hP v hv s t h ⟨fun _ _ => trivial, trivial⟩

/-- A document is remembered on both sides, or on neither. -/
theorem computes_recalling (rs : RuleSet) {m : Eval (Option Term)} (hground : m.Gives GroundIfSome)
    (hm : (beside env).Computes w P (Both (IfSome (Term.VarsIn (beside env).names))) m fun _ => m) :
    (beside env).Computes w P (Both (IfSome (Term.VarsIn (beside env).names))) (rs.recalling m)
      fun _ => rs.recalling m := by
  refine ⟨fun _ => trivial, fun hP v hv s t h _ => ?_⟩
  have hremembered : t.remembered? rs.path = s.remembered? rs.path := by rw [h.quiet.eq]; rfl
  simp only [rs.run_recalling, hremembered]
  by_cases hkind : rs.kind = .function
  · rw [if_pos hkind, if_pos hkind]
    exact ⟨_, .of_forall fun _ => rfl, .inl ⟨⟨rfl, Vocabulary.varsIn_any none⟩, h, rfl⟩⟩
  · rw [if_neg hkind, if_neg hkind]
    cases s.remembered? rs.path with
    | some value => exact ⟨_, .of_forall fun _ => rfl, .inl ⟨⟨rfl, Vocabulary.varsIn_any value⟩, h, rfl⟩⟩
    | none =>
      obtain ⟨r', hr', hagree⟩ := hm.2 hP v hv s t h ⟨fun _ _ => trivial, trivial⟩
      obtain ⟨hres, hrel, hframe⟩ := hagree.resolve_right fun ⟨_, _, he⟩ => he
      obtain rfl : m.run t = r' := Filter.eventually_top.1 hr' ()
      have hvalue := (hground s trivial).2
      refine ⟨_, .of_forall fun _ => rfl, .inl ?_⟩
      rcases hs : m.run s with ⟨e | value, s₁⟩ <;> rcases ht : m.run t with ⟨e' | value', t₁⟩ <;>
        rw [hs, ht] at hres <;> rw [hs] at hframe hvalue <;> rw [hs, ht] at hrel
      · exact ⟨hres, hrel, hframe⟩
      · exact hres.elim
      · exact hres.elim
      · obtain ⟨rfl, -⟩ := hres
        refine ⟨⟨rfl, Vocabulary.varsIn_any _⟩, ⟨hrel.quiet.map (f := (·.remember rs.path _)) fun _ _ => rfl,
          ⟨hrel.calm.untimed, hrel.calm.uncancelled⟩, ?_⟩, hframe⟩
        exact List.forall_mem_cons.2 ⟨hvalue _ rfl, hrel.grounded⟩

/-- Rules answer alike at every depth of nesting. -/
theorem rulesAnswer (hreg : env.registry.Unaffected) (n : Nat) :
    RulesAnswer (beside env) (env.rulesTo n) fun _ => env.rulesTo n := by
  have hlaw := lawful hreg
  induction n with
  | zero => exact ⟨fun _ _ => computes_throw hlaw _, fun _ _ _ => computes_throw hlaw _⟩
  | succ n ih =>
    refine ⟨fun w rs => ?_, fun w rs args => ?_⟩
    · have hdoc : ∀ w, (beside env).Computes w (rs ∈ env.policy.ruleSets)
          (Both (IfSome (Term.VarsIn (beside env).names))) (env.evalDocument (env.rulesTo n) rs)
          fun _ => env.evalDocument (env.rulesTo n) rs :=
        fun w => computes_evalDocument hlaw ih rs (policyProper rs) (computes_candidates hlaw ih rfl rs)
      exact computes_recalling rs (env.gives_entering rs (env.gives_evalDocument _ rs)) (computes_entering hreg rs hdoc)
    · exact computes_entering hreg rs fun w =>
        computes_evalFunction hlaw ih rs args (fun hP => policyProper rs hP.1) And.right

end beside
end Coupling

/-! ## Documents -/

namespace State.Beside

variable {env : Env} {s t : State}

/-- What a computation does on both sides, if the coupling is respected. -/
theorem run {β : Type} {P : Prop} {p : β → Prop} {m : Eval β}
    (hm : (Coupling.beside env).Computes () P (Both p) m fun _ => m) (hP : P) (h : s.Beside env t) :
    (m.run t).1 = (m.run s).1 ∧ (m.run s).2.Beside env (m.run t).2 ∧ (m.run s).2.frame = s.frame := by
  obtain ⟨r', hr', hagree⟩ := hm.2 hP () trivial s t h ⟨fun _ _ => trivial, trivial⟩
  obtain ⟨hres, hrel⟩ := hagree.resolve_right fun ⟨_, _, he⟩ => he
  obtain rfl : m.run t = r' := Filter.eventually_top.1 hr' ()
  refine ⟨?_, hrel⟩
  cases hs : (m.run s).1 <;> cases ht : (m.run t).1 <;> rw [hs, ht] at hres
  · exact congrArg Except.error hres
  · exact hres.elim
  · exact hres.elim
  · exact congrArg Except.ok hres.1

/-- The document at a path is the same whatever was left behind before, and the frame is given back. -/
theorem run_document (h : s.Beside env t) (hreg : env.registry.Unaffected) (path : DataPath) :
    ((env.document env.rules path).run t).1 = ((env.document env.rules path).run s).1 ∧
      ((env.document env.rules path).run s).2.frame = s.frame :=
  have hdoc := run (P := True) (Coupling.computes_document (Coupling.beside.lawful hreg)
    (Coupling.beside.rulesAnswer hreg _) path) trivial h
  ⟨hdoc.1, hdoc.2.2⟩

end State.Beside

namespace Env

variable {env : Env} {s : State}

/-- A rule set has a ground document, wherever it is asked for. -/
theorem ground_rulesTo (n : Nat) (hs : s.Grounded) (rs : RuleSet) {v : Option Term}
    (hv : (((env.rulesTo n).document rs).run s).1 = .ok v) : GroundIfSome v := by
  cases n with
  | zero => cases hv
  | succ n =>
    simp only [rulesTo, rs.run_recalling] at hv
    split at hv
    · cases hv
      exact ifSome_none
    · split at hv
      · next value hvalue =>
        cases hv
        exact hs.remembered? hvalue
      · have hground := (env.gives_entering rs (env.gives_evalDocument (env.rulesTo n) rs) s trivial).2
        rcases hrun : (env.entering rs (env.evalDocument (env.rulesTo n) rs)).run s with ⟨e | value, s₁⟩ <;>
          rw [hrun] at hv hground
        · cases hv
        · cases hv
          exact hground v rfl

/-- Rule sets laid over a ground document leave it ground. -/
theorem ground_layRules (hreg : env.registry.Unaffected) (hs : s.Beside env s) (path : DataPath) {sets : List RuleSet}
    (hsets : ∀ rs ∈ sets, rs ∈ env.policy.ruleSets) {doc u : Term} (hdoc : doc.isGround = true)
    (hu : ((layRules env.rules path sets doc).run s).1 = .ok u) : u.isGround = true := by
  induction sets generalizing s doc with
  | nil =>
    cases hu
    exact hdoc
  | cons rs rest ih =>
    rw [List.forall_mem_cons] at hsets
    simp only [layRules] at hu
    split at hu
    · exact ih hs hsets.2 hdoc hu
    · rw [Eval.run_bind] at hu
      have hground : ∀ v, ((env.rules.document rs).run s).1 = .ok v → GroundIfSome v :=
        fun _ => ground_rulesTo _ hs.grounded rs
      have hnext : ((env.rules.document rs).run s).2.Beside env ((env.rules.document rs).run s).2 :=
        (hs.run ((Coupling.beside.rulesAnswer hreg _).document () rs) hsets.1).2.1
      rcases hrun : (env.rules.document rs).run s with ⟨e | value, s₁⟩ <;> rw [hrun] at hground hnext hu
      · cases hu
      · cases value with
        | none => exact ih hnext hsets.2 hdoc hu
        | some value =>
          have hvalue := hground _ rfl value rfl
          dsimp only at hu
          rw [Eval.run_bind, setIn, Eval.run_ofExcept] at hu
          cases hset : Term.setPath value doc (rs.path.drop path.length) with
          | error e =>
            rw [hset] at hu
            cases hu
          | ok u' =>
            rw [hset] at hu
            exact ih hnext hsets.2 (Term.hereditary_isGround.setPath hvalue hdoc hset) hu

end Env
end PolicyEngine
