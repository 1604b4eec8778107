import PolicyEngine.Proofs.Answers
import PolicyEngine.Proofs.Simulation

/-!
Pairings: couplings of two evaluations against the same policy, store and registry that look at the successful
runs of the first one only. For these the primitive steps are the same on both sides but for the answers of
nondeterministic built-ins, so a pairing is lawful once it says how states and answers belong together.
-/
namespace PolicyEngine

/-! ## Quiet steps -/

/-- A state differs from another only in what an evaluation leaves behind: events, lines, requests and time. -/
structure State.Quiet (s s' : State) : Prop where
  eq : s' = { s with host := s'.host, requests := s'.requests, timer := s'.timer, clock := s'.clock }
  counter : s'.host.counter = s.host.counter
  limit : s'.timer.config = s.timer.config

theorem State.Quiet.frame {s s' : State} (h : s.Quiet s') : s'.frame = s.frame := by
  rw [h.eq]
  rfl

theorem State.Quiet.answers {s s' : State} (h : s.Quiet s') : s'.answers = s.answers := by rw [h.eq]

/-- Nothing ends the evaluation from outside. -/
structure State.Calm (env : Env) (s : State) : Prop where
  untimed : s.timer.config = none
  uncancelled : (env.options.cancellable && s.cancelled) = false

theorem State.Calm.quiet {env : Env} {s s' : State} (h : s.Calm env) (hq : s.Quiet s') : s'.Calm env := by
  refine ⟨hq.limit.trans h.untimed, ?_⟩
  rw [hq.eq]
  exact h.uncancelled

theorem State.Quiet.refl (s : State) : s.Quiet s := ⟨rfl, rfl, rfl⟩

theorem State.Quiet.trans {s s₁ s₂ : State} (h : s.Quiet s₁) (h' : s₁.Quiet s₂) : s.Quiet s₂ := by
  refine ⟨?_, h'.counter.trans h.counter, h'.limit.trans h.limit⟩
  rw [h'.eq, h.eq]

theorem Timer.config_tick {σ : Type} (read : σ → Option Nat × σ) (t : Timer) (clock : σ) :
    (t.tick read clock).2.1.config = t.config := by
  have hcount : t.count.1.config = t.config := by
    rw [Timer.count]
    split
    · rfl
    · split <;> rfl
  rw [Timer.tick]
  rcases hc : t.count with ⟨t', _ | _⟩ <;> rw [hc] at hcount <;> simp only
  · exact hcount
  · rcases read clock with ⟨_ | _, _⟩ <;> exact hcount

namespace Env

variable (env : Env)

theorem quiet_checkpoint (s : State) : s.Quiet (env.checkpoint.run s).2 := by
  rw [run_checkpoint]
  split
  · exact .refl s
  · exact ⟨rfl, rfl, Timer.config_tick Clock.read s.timer s.clock⟩

theorem run_checkpoint_calm {s : State} (h : s.Calm env) : env.checkpoint.run s = (.ok (), s) := by
  rw [run_checkpoint]
  simp [h.uncancelled, Timer.tick, Timer.count, h.untimed, Except.mapError]

theorem quiet_emit (op : TraceOp) (depth : Nat) (text : Unit → String) (s : State) :
    s.Quiet ((env.emit op depth text).run s).2 := by
  obtain ⟨host, h, hcounter⟩ := env.state_emit op depth text s
  rw [h]
  exact ⟨rfl, hcounter, rfl⟩

theorem quiet_read (path : StorePath) (s : State) : s.Quiet ((env.read path).run s).2 := by
  rw [run_read]
  exact ⟨rfl, rfl, rfl⟩

theorem quiet_listKeys (path : StorePath) (s : State) : s.Quiet ((env.listKeys path).run s).2 := by
  rw [run_listKeys]
  exact ⟨rfl, rfl, rfl⟩

end Env

/-- A step with the same result on both sides, after which nothing has changed that matters. -/
theorem Coupling.computes_quiet {ι : Type} {C : Coupling ι} {β : Type} {P : Prop} {B : β → β → Prop} {m m' : Eval β}
    {w : C.World} (hgrows : ∀ a, C.grows a a)
    (hquiet : ∀ {v s t s' t'}, C.rel v s t → s.Quiet s' → t.Quiet t' → C.rel v s' t')
    (hm : ∀ s : State, s.Quiet (m.run s).2) (hm' : ∀ s : State, s.Quiet (m'.run s).2)
    (hres : P → ∀ v s t, C.rel v s t → C.Followed (m.run s).1 s.answers → Results B (m.run s).1 (m'.run t).1) :
    C.Computes w P B m fun _ => m' := by
  refine ⟨fun s => (hm s).answers ▸ hgrows _, fun hP v _ s t hst hfol => ?_⟩
  rw [(hm s).answers] at hfol
  exact ⟨m'.run t, .of_forall fun _ => rfl, .inl ⟨hres hP v s t hst hfol, hquiet hst (hm s) (hm' t), (hm s).frame⟩⟩

/-! ## Vocabularies -/

/-- The store, the built-ins and the rules bring no variables into values and replace no functions but those of a
vocabulary. -/
structure Env.Speaks (env : Env) (voc : Vocabulary) : Prop where
  free : ∀ x, voc.free x → voc.names x
  root : env.root.VarsIn voc.names
  builtins : ∀ b, env.registry.Callable b → ∀ context args host v, args.all Term.isGround = true →
    (b.invoke context args host).1 = .ok (some v) → v.VarsIn voc.names
  policy : ∀ rs ∈ env.policy.ruleSets, rs.Proper voc.names (env.TargetIn voc.mocks)

theorem Env.speaks_any (env : Env) : env.Speaks .any where
  free _ _ := trivial
  root := env.root.varsIn_of_forall fun _ => trivial
  builtins _ _ _ _ _ v _ _ := v.varsIn_of_forall fun _ => trivial
  policy _ _ := ⟨fun _ _ c _ => c.proper_of_forall (fun _ => trivial) fun _ _ _ => trivial,
    fun _ _ c _ => c.proper_of_forall (fun _ => trivial) fun _ _ _ => trivial⟩

theorem Vocabulary.varsIn_any (r : Option Term) : IfSome (Term.VarsIn Vocabulary.any.names) r :=
  fun t _ => t.varsIn_of_forall fun _ => trivial

theorem Vocabulary.bindings_any (b : Bindings) : b.VarsIn Vocabulary.any.names :=
  fun _ _ => ⟨trivial, fun t _ => t.varsIn_of_forall fun _ => trivial⟩

theorem Vocabulary.scope_any (σ : Scope) : σ.VarsIn Vocabulary.any.free Vocabulary.any.mocks :=
  Scope.varsIn_of_forall (fun _ => trivial) (fun _ => trivial) σ

theorem Vocabulary.body_any (env : Env) (body : Body) :
    Expr.ProperBody Vocabulary.any.names (env.TargetIn Vocabulary.any.mocks) body :=
  Expr.properBody_of_forall (fun _ => trivial) (fun _ _ _ => trivial) body

namespace Env.Speaks

variable {env : Env} {voc : Vocabulary}

theorem builtinResult (h : env.Speaks voc) {b : Builtin} (hb : env.registry.Callable b) {args : List Term}
    (hargs : args.all Term.isGround = true) {context : BuiltinContext} {host : Host} {r : Option Term}
    (hr : env.builtinResult b args (b.invoke context args host).1 = .ok r) : IfSome (Term.VarsIn voc.names) r := by
  intro v hv
  subst hv
  cases hresult : (b.invoke context args host).1 with
  | ok value =>
    rw [hresult] at hr
    cases hr
    exact h.builtins b hb context args host v hargs hresult
  | error e =>
    rw [hresult] at hr
    simp only [Env.builtinResult, Env.failedCall] at hr
    split at hr
    · cases hr
      exact .of_isGround rfl
    · split at hr <;> cases hr

theorem read (h : env.Speaks voc) (path : StorePath) : IfSome (Term.VarsIn voc.names) (env.root.at? path) :=
  fun _ ht => h.root.at? ht

theorem listKeys (h : env.Speaks voc) (path : StorePath) :
    IfSome (fun ts => ∀ t ∈ ts, t.VarsIn voc.names) ((env.root.at? path).bind Term.childKeys?) := by
  intro ts hts
  obtain ⟨doc, hdoc, hkeys⟩ := Option.bind_eq_some_iff.1 hts
  exact (h.root.at? hdoc).childKeys? hkeys

end Env.Speaks

theorem Env.ground_of_refusal {b : Builtin} {args : List Term} (h : Env.refusal? b args = none) :
    args.all Term.isGround = true := by
  rw [Env.refusal?] at h
  split at h
  · cases h
  · next hground => simpa using hground

/-- Where a built-in is not called for its operands nothing is answered. -/
theorem Env.eq_none_of_refusal {b : Builtin} {args : List Term} {answer : Option Term}
    (h : Env.refusal? b args = some (.ok answer)) : answer = none := by
  rw [Env.refusal?] at h
  split at h
  · cases h
    rfl
  · split at h
    · cases h
    · split at h <;> cases h

/-- The environment with the index of rules on or off. -/
def Env.indexing (env : Env) (indexed : Bool) : Env :=
  { env with options := { env.options with indexed := indexed } }

/-! ## Pairings -/

/-- What is compared of two evaluations against the same policy, store and registry. -/
structure Pairing (ι : Type) extends Vocabulary where
  env : Env
  env' : Env
  World : Type
  later : World → World → Prop
  rel : World → State → State → Prop
  grows : List BuiltinAnswer → List BuiltinAnswer → Prop
  within : List BuiltinAnswer → Prop
  /-- The errors that the second run may end in on its own. -/
  escapes : EvalError → Prop
  limit : Filter ι
  depths : Nat → Nat → Prop

namespace Pairing

variable {ι : Type}

/-- The pairing as a coupling that follows no error. -/
def coupling (p : Pairing ι) : Coupling ι where
  toVocabulary := p.toVocabulary
  env := p.env
  env' := p.env'
  World := p.World
  later := p.later
  rel := p.rel
  grows := p.grows
  within := p.within
  follows _ := False
  escapes := p.escapes
  limit := p.limit
  depths := p.depths

/-- The obligations that are left for a pairing. -/
structure Lawful (p : Pairing ι) : Prop where
  same : p.env' = p.env.indexing p.env'.options.indexed
  speaks : p.env.Speaks p.toVocabulary
  later_refl : ∀ w, p.later w w
  later_trans : ∀ {u v w}, p.later u v → p.later v w → p.later u w
  grows_refl : ∀ a, p.grows a a
  grows_trans : ∀ {a b c}, p.grows a b → p.grows b c → p.grows a c
  grows_call : ∀ b args s, p.grows s.answers ((p.env.callBuiltin b args).run s).2.answers
  within_between : ∀ {w s t a a'}, p.rel w s t → p.grows s.answers a → p.grows a a' → p.within a' → p.within a
  bindings_eq : ∀ {w s t}, p.rel w s t → t.bindings = s.bindings
  bindings_vars : ∀ {w s t}, p.rel w s t → s.bindings.VarsIn p.names
  scope_agrees : ∀ {w s t}, p.rel w s t → s.scope.Agrees t.scope
  scope_vars : ∀ {w s t}, p.rel w s t → s.scope.VarsIn p.free p.mocks
  depth : ∀ {w s t}, p.rel w s t → p.depths s.depth t.depth
  calm : ∀ {w s t}, p.rel w s t → t.Calm p.env
  setBindings : ∀ {w s t} b, p.rel w s t → b.VarsIn p.names →
    p.rel w { s with bindings := b } { t with bindings := b }
  scope : ∀ {w s t σ τ}, p.rel w s t → σ.Agrees τ → σ.VarsIn p.free p.mocks →
    ∃ w', p.rel w' (s.openScope σ) (t.openScope τ) ∧
      (∀ v', p.later w' v' → ∃ v, p.later w v ∧ ∀ s₁ t₁, p.rel v' s₁ t₁ →
        p.rel v { s₁ with scope := s.scope } { t₁ with scope := t.scope } ∧
          ∀ s₂ t₂, p.rel v s₂ t₂ → p.rel v' { s₂ with scope := s₁.scope } { t₂ with scope := t₁.scope }) ∧
      ∀ s₁ t₁, p.rel w' s₁ t₁ →
        p.rel w (s₁.closeScope (s.lastScope + 1) s.scope) (t₁.closeScope (t.lastScope + 1) t.scope)
  quiet : ∀ {w s t s' t'}, p.rel w s t → s.Quiet s' → t.Quiet t' → p.rel w s' t'
  regular : p.env.registry.Regular
  /-- A call of a nondeterministic built-in that keeps to its first answer. -/
  calls : ∀ {w s t} b args answer s', p.env.registry.Callable b → b.deterministic = false →
    Env.refusal? b args = none → p.rel w s t → (p.env.callBuiltin b args).run s = (.ok answer, s') →
      p.within s'.answers →
        (∃ t', (p.env.callBuiltin b args).run t = (.ok answer, t') ∧ p.rel w s' t' ∧
          IfSome (Term.VarsIn p.names) answer) ∨ ∃ e, ((p.env.callBuiltin b args).run t).1 = .error e ∧ p.escapes e

variable {p : Pairing ι} {β : Type} {P : Prop} {w : p.World}

/-- The same result with what is asked of it. -/
theorem results_both {q : β → Prop} {r : Except EvalError β} (hq : ∀ b, r = .ok b → q b) :
    Coupling.Results (Both q) r r := by
  cases r with
  | error e => rfl
  | ok b => exact ⟨rfl, hq b rfl⟩

/-- A call of a deterministic built-in leaves nothing behind but events and lines. -/
theorem quiet_callBuiltin (h : p.Lawful) {b : Builtin} {args : List Term} (hb : p.env.registry.Callable b)
    (hdet : b.deterministic = true ∨ (Env.refusal? b args).isSome = true) (s : State) :
    s.Quiet ((p.env.callBuiltin b args).run s).2 := by
  rw [Env.run_callBuiltin]
  cases href : Env.refusal? b args with
  | some r => exact .refl s
  | none =>
    rw [href] at hdet
    have hdet : b.deterministic = true := hdet.resolve_right nofun
    simp only [hdet, if_true, Env.run_runBuiltin]
    exact ⟨rfl, ((h.regular b hb).deterministic hdet _ 0 args s.host s.host).2, rfl⟩

theorem results_callBuiltin (h : p.Lawful) {b : Builtin} {args : List Term} (hb : p.env.registry.Callable b)
    (hdet : b.deterministic = true ∨ (Env.refusal? b args).isSome = true) (s t : State) :
    ((p.env.callBuiltin b args).run s).1 = ((p.env.callBuiltin b args).run t).1 := by
  rw [Env.run_callBuiltin, Env.run_callBuiltin]
  cases href : Env.refusal? b args with
  | some r => rfl
  | none =>
    rw [href] at hdet
    have hdet : b.deterministic = true := hdet.resolve_right nofun
    simp only [hdet, if_true, Env.run_runBuiltin]
    rw [((h.regular b hb).deterministic hdet _ t.depth args s.host t.host).1]

theorem varsIn_callBuiltin (h : p.Lawful) {b : Builtin} {args : List Term} (hb : p.env.registry.Callable b)
    (hdet : b.deterministic = true ∨ (Env.refusal? b args).isSome = true) {s : State} {r : Option Term}
    (hr : ((p.env.callBuiltin b args).run s).1 = .ok r) : IfSome (Term.VarsIn p.names) r := by
  rw [Env.run_callBuiltin] at hr
  cases href : Env.refusal? b args with
  | some result =>
    rw [href] at hr
    rw [Env.eq_none_of_refusal (href.trans (congrArg some hr))]
    exact ifSome_none
  | none =>
    rw [href] at hdet hr
    have hdet : b.deterministic = true := hdet.resolve_right (by simp)
    simp only [hdet, if_true, Env.run_runBuiltin] at hr
    exact h.speaks.builtinResult hb (Env.ground_of_refusal href) hr

theorem Lawful.callBuiltin_eq (h : p.Lawful) : p.env'.callBuiltin = p.env.callBuiltin := by
  rw [h.same]
  rfl

theorem computes_callBuiltin (h : p.Lawful) (b : Builtin) (args : List Term) :
    p.coupling.Computes w (p.env.registry.Callable b) (Both (IfSome (Term.VarsIn p.coupling.names)))
      (p.env.callBuiltin b args) fun _ => p.env'.callBuiltin b args := by
  rw [h.callBuiltin_eq]
  refine ⟨h.grows_call b args, fun hb v hv s t hst hfol => ?_⟩
  by_cases hdet : b.deterministic = true ∨ (Env.refusal? b args).isSome = true
  · refine ⟨_, .of_forall fun _ => rfl, .inl ⟨?_, ?_, (quiet_callBuiltin h hb hdet s).frame⟩⟩
    · rw [← results_callBuiltin h hb hdet s t]
      exact results_both fun r hr => varsIn_callBuiltin h hb hdet hr
    · exact h.quiet hst (quiet_callBuiltin h hb hdet s) (quiet_callBuiltin h hb hdet t)
  · simp only [not_or, Bool.not_eq_true, Option.isSome_eq_false_iff, Option.isNone_iff_eq_none] at hdet
    have hframe : ((p.env.callBuiltin b args).run s).2.frame = s.frame := by
      obtain ⟨host, answers, hs⟩ := p.env.state_callBuiltin b args s
      exact (congrArg State.frame hs).trans rfl
    rcases hrun : (p.env.callBuiltin b args).run s with ⟨e | answer, s'⟩ <;> rw [hrun] at hfol hframe
    · exact (hfol.1 e rfl).elim
    · refine ⟨_, .of_forall fun _ => rfl, ?_⟩
      rcases h.calls b args answer s' hb hdet.1 hdet.2 hst hrun hfol.2 with ⟨t', ht, hrel, hvars⟩ | hesc
      · rw [ht]
        exact .inl ⟨⟨rfl, hvars⟩, hrel, hframe⟩
      · exact .inr hesc

/-- A lawful pairing is a lawful coupling. -/
theorem Lawful.coupling (h : p.Lawful) : p.coupling.Lawful where
  later_refl := h.later_refl
  later_trans := h.later_trans
  grows_refl := h.grows_refl
  grows_trans := h.grows_trans
  within_between := h.within_between
  free_names := h.speaks.free
  bindings_eq := h.bindings_eq
  bindings_vars := h.bindings_vars
  scope_agrees := h.scope_agrees
  scope_vars := h.scope_vars
  depth := h.depth
  setBindings hst hb := h.setBindings _ hst hb
  scope := h.scope
  policy := (congrArg Env.policy h.same :)
  registry := (congrArg Env.registry h.same :)
  checkpoint w := by
    have heq : p.env'.checkpoint = p.env.checkpoint := by rw [h.same]; rfl
    change p.coupling.Computes w True Eq p.env.checkpoint fun _ => p.env'.checkpoint
    rw [heq]
    refine Coupling.computes_quiet h.grows_refl h.quiet (Env.quiet_checkpoint _) (Env.quiet_checkpoint _) ?_
    intro _ v s t hst hfol
    rw [p.env.run_checkpoint_calm (h.calm hst)]
    rcases hs : (p.env.checkpoint.run s).1 with e | u
    · exact (hfol.1 e hs).elim
    · rfl
  emit w op d d' text := by
    refine Coupling.computes_quiet h.grows_refl h.quiet (Env.quiet_emit _ op d text) (Env.quiet_emit _ op d' text) ?_
    intro _ v s t hst hfol
    rw [Env.run_emit, Env.run_emit]
    rfl
  read w path := by
    have heq : p.env'.read = p.env.read := by rw [h.same]; rfl
    change p.coupling.Computes w True _ (p.env.read path) fun _ => p.env'.read path
    rw [heq]
    refine Coupling.computes_quiet h.grows_refl h.quiet (Env.quiet_read _ path) (Env.quiet_read _ path) ?_
    intro _ v s t hst hfol
    rw [Env.run_read, Env.run_read]
    refine results_both fun r hr => ?_
    split at hr <;> cases hr
    exact h.speaks.read path
  listKeys w path := by
    have heq : p.env'.listKeys = p.env.listKeys := by rw [h.same]; rfl
    change p.coupling.Computes w True _ (p.env.listKeys path) fun _ => p.env'.listKeys path
    rw [heq]
    refine Coupling.computes_quiet h.grows_refl h.quiet (Env.quiet_listKeys _ path) (Env.quiet_listKeys _ path) ?_
    intro _ v s t hst hfol
    rw [Env.run_listKeys, Env.run_listKeys]
    refine results_both fun r hr => ?_
    split at hr <;> cases hr
    exact h.speaks.listKeys path
  callBuiltin w b args := computes_callBuiltin h b args

theorem Lawful.policyProper (h : p.Lawful) : Coupling.PolicyProper p.coupling := h.speaks.policy

/-! ## Rule sets -/

variable {B : β → β → Prop} {m : Eval β} {m' : ι → Eval β}

/-- A rule set that cannot be entered ends the first run, which then is not followed. -/
theorem computes_entering (h : p.Lawful) (rs : RuleSet)
    (hm : p.coupling.Computes w P B (Eval.inside rs.name m) m') :
    p.coupling.Computes w P B (p.env.entering rs m) m' := by
  refine ⟨fun s => ?_, fun hP v hv s t hst hfol => ?_⟩
  · rw [Env.run_entering]
    split
    · exact h.grows_refl _
    · split
      · exact h.grows_refl _
      · exact hm.1 s
  · have hstate := p.env.run_entering rs m s
    rw [hstate] at hfol ⊢
    split at hfol
    · exact (hfol.1 _ rfl).elim
    · split at hfol
      · exact (hfol.1 _ rfl).elim
      · next hfree hshallow =>
        rw [if_neg hfree, if_neg hshallow]
        exact hm.2 hP v hv s t hst hfol

/-- A rule set that cannot be entered ends the second run, which then needs no counterpart. -/
theorem computes_into_entering (rs : RuleSet) (hrec : ∀ names, p.escapes (.recursion names))
    (hdepth : p.escapes (.internal (.depthExceeded rs.name)))
    (hm : p.coupling.Computes w P B m fun i => Eval.inside rs.name (m' i)) :
    p.coupling.Computes w P B m fun i => p.env'.entering rs (m' i) := by
  refine ⟨hm.1, fun hP v hv s t hst hfol => ?_⟩
  simp only [Env.run_entering]
  split
  · exact ⟨_, .of_forall fun _ => rfl, .inr ⟨_, rfl, hrec _⟩⟩
  · split
    · exact ⟨_, .of_forall fun _ => rfl, .inr ⟨_, rfl, hdepth⟩⟩
    · exact hm.2 hP v hv s t hst hfol

end Pairing
end PolicyEngine
