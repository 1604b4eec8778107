import PolicyEngine.Proofs.Compiled
import PolicyEngine.Proofs.Queries

/-!
Remembering documents does not change successful answers. An evaluation that computes every document afresh and
one that remembers documents by scope and path go side by side: where the second one finds a document remembered,
that document is what its rule set means, and the first one comes to the same, asks nothing new of built-ins and
is back in the state it started from.
-/
namespace PolicyEngine
namespace Pairing

/-! ## The ideal evaluation beside one that computes every document afresh -/

/-- Errors of nesting: a rule set within itself, or too many within each other. -/
inductive Nesting : EvalError → Prop
  | recursion (names : List String) : Nesting (.recursion names)
  | depth (name : String) : Nesting (.internal (.depthExceeded name))

/-- The states of the ideal evaluation and of an actual one that both ask nothing new of built-ins. -/
structure Realizes (env : Env) (answers : List BuiltinAnswer) (counter : Nat) (s t : State) : Prop where
  bindings : t.bindings = s.bindings
  agrees : s.scope.Agrees t.scope
  calm : t.Calm env
  given : s.answers = answers
  answered : t.answers = answers
  counter : t.host.counter = counter

def fromIdeal (env : Env) (answers : List BuiltinAnswer) (counter : Nat) : Pairing Unit where
  toVocabulary := .any
  env := env
  env' := env
  World := Unit
  later _ _ := True
  rel _ := Realizes env answers counter
  grows a a' := a <:+ a'
  within a := a = answers
  escapes := Nesting
  limit := ⊤
  depths _ _ := True

namespace fromIdeal

variable {env : Env} {answers : List BuiltinAnswer} {counter : Nat}

theorem suffix_callBuiltin (b : Builtin) (args : List Term) (s : State) :
    s.answers <:+ ((env.callBuiltin b args).run s).2.answers := by
  rw [Env.run_callBuiltin]
  split
  · exact List.suffix_rfl
  · rw [Env.run_runBuiltin]
    split
    · exact List.suffix_rfl
    · split
      · exact List.suffix_rfl
      · dsimp only
        cases env.builtinResult b args (b.invoke _ args s.host).1 with
        | error e => exact List.suffix_rfl
        | ok answer => exact List.suffix_cons _ _

theorem lawful (hreg : env.registry.Regular) : (fromIdeal env answers counter).Lawful where
  same := rfl
  speaks := env.speaks_any
  later_refl _ := trivial
  later_trans _ _ := trivial
  grows_refl _ := List.suffix_rfl
  grows_trans := List.IsSuffix.trans
  grows_call := suffix_callBuiltin
  within_between := by
    intro w s t a a' hst hgrow hgrow' hwithin
    have hle : a.length ≤ s.answers.length := by
      rw [hst.given, ← show a' = answers from hwithin]
      exact List.IsSuffix.length_le hgrow'
    exact (List.IsSuffix.eq_of_length_le hgrow hle).symm.trans hst.given
  bindings_eq := Realizes.bindings
  bindings_vars _ := Vocabulary.bindings_any _
  scope_agrees := Realizes.agrees
  scope_vars _ := Vocabulary.scope_any _
  depth _ := trivial
  calm := Realizes.calm
  setBindings _ h _ := ⟨rfl, h.agrees, ⟨h.calm.1, h.calm.2⟩, h.given, h.answered, h.counter⟩
  scope := by
    intro w s t σ τ h hagrees _
    refine ⟨(), ?_, fun _ _ => ⟨(), trivial, fun s₁ t₁ h₁ => ⟨?_, fun s₂ t₂ h₂ => ?_⟩⟩, fun s₁ t₁ h₁ => ?_⟩
    · exact ⟨h.bindings, hagrees.openScope s t, ⟨h.calm.1, h.calm.2⟩, h.given, h.answered, h.counter⟩
    · exact ⟨h₁.bindings, h.agrees, ⟨h₁.calm.1, h₁.calm.2⟩, h₁.given, h₁.answered, h₁.counter⟩
    · exact ⟨h₂.bindings, h₁.agrees, ⟨h₂.calm.1, h₂.calm.2⟩, h₂.given, h₂.answered, h₂.counter⟩
    · exact ⟨h₁.bindings, h.agrees, ⟨h₁.calm.1, h₁.calm.2⟩, h₁.given, h₁.answered, h₁.counter⟩
  quiet := by
    intro w s t s' t' h hs ht
    refine ⟨?_, ?_, h.calm.quiet ht, hs.answers.trans h.given, ht.answers.trans h.answered, ht.counter.trans h.counter⟩
    · rw [hs.eq, ht.eq]
      exact h.bindings
    · rw [hs.eq, ht.eq]
      exact h.agrees
  regular := hreg
  calls := by
    intro w s t b args answer s' hb hdet href hst hrun hwithin
    rcases Env.answer_cases hdet href hrun with ⟨hold, rfl⟩ | ⟨_, _, rfl⟩
    · rw [hst.given, ← hst.answered] at hold
      exact .inl ⟨t, Env.run_callBuiltin_answered hdet href hold, hst, Vocabulary.varsIn_any answer⟩
    · -- a new answer would not be among the given ones
      have hlong := congrArg List.length (show _ = answers from hwithin)
      simp [← hst.given] at hlong

/-- A rule set evaluated for itself beside one that is entered, if it can be. -/
theorem computes_entering {P : Prop} {B : β → β → Prop} {m : Eval β} {m' : Unit → Eval β} {w : Unit}
    (hreg : env.registry.Regular) (rs : RuleSet)
    (hm : ∀ w, (fromIdeal env answers counter).coupling.Computes w P B m m') :
    (fromIdeal env answers counter).coupling.Computes w P B m.isolated fun i => env.entering rs (m' i) := by
  refine computes_into_entering rs .recursion (.depth rs.name)
    (Coupling.Computes.nested (fun _ => rfl) (fun _ => rfl) ?_ (lawful hreg).coupling hm)
  intro v s t h
  refine ⟨v, ⟨rfl, h.agrees, ⟨h.calm.1, h.calm.2⟩, h.given, h.answered, h.counter⟩, fun s₁ t₁ _ h₁ => ?_⟩
  exact ⟨h.bindings, h₁.agrees, ⟨h₁.calm.1, h₁.calm.2⟩, h₁.given, h₁.answered, h₁.counter⟩

/-- What the ideal rules answer, rules evaluated afresh answer too, unless they are nested too deep. -/
theorem rulesAnswer (hreg : env.registry.Regular) (k n : Nat) :
    Coupling.RulesAnswer (fromIdeal env answers counter).coupling (env.idealTo k)
      fun _ => env.rulesBy RuleSet.forgetting n := by
  have hlaw : (fromIdeal env answers counter).coupling.Lawful := (lawful hreg).coupling
  have hescape : ∀ {w : Unit} {P : Prop} {B : Option Term → Option Term → Prop} {m : Eval (Option Term)} {names},
      (∀ s, s.answers <:+ (m.run s).2.answers) → (fromIdeal env answers counter).coupling.Computes w P B m
        fun _ => throw (.recursion names) :=
    fun hgrow => ⟨hgrow, fun _ _ _ _ _ _ _ => ⟨_, .of_forall fun _ => rfl, .inr ⟨_, rfl, .recursion _⟩⟩⟩
  induction k generalizing n with
  | zero =>
    refine ⟨fun w rs => ⟨fun s => List.suffix_rfl, ?_⟩, fun w rs args => ⟨fun s => List.suffix_rfl, ?_⟩⟩
    · exact fun _ _ _ _ _ _ hfol => (hfol.1 _ rfl).elim
    · exact fun _ _ _ _ _ _ hfol => (hfol.1 _ rfl).elim
  | succ k ih =>
    refine ⟨fun w rs => ?_, fun w rs args => ?_⟩
    · have hdoc : ∀ n, (fromIdeal env answers counter).coupling.Computes w (rs ∈ env.policy.ruleSets)
          (Both (IfSome (Term.VarsIn (fromIdeal env answers counter).coupling.names)))
          (rs.forgetting (env.evalDocument (env.idealTo k) rs).isolated)
          fun _ => rs.forgetting (env.entering rs (env.evalDocument (env.rulesBy RuleSet.forgetting n) rs)) := by
        intro n
        by_cases hkind : rs.kind = .function
        · simp only [RuleSet.forgetting, if_pos hkind]
          exact Coupling.computes_pure hlaw fun _ => ⟨rfl, Vocabulary.varsIn_any none⟩
        · simp only [RuleSet.forgetting, if_neg hkind]
          exact computes_entering hreg rs fun w => Coupling.computes_evalDocument hlaw (ih n) rs ((lawful hreg).policyProper rs)
            (Coupling.computes_candidates hlaw (ih n) rfl rs)
      cases n with
      | zero => exact hescape (hdoc 0).1
      | succ n => exact hdoc n
    · have hfun := fun n => computes_entering (w := w) hreg rs fun w => Coupling.computes_evalFunction (w := w)
        hlaw (ih n) rs args (fun hP => (lawful hreg).policyProper rs hP.1) And.right
      cases n with
      | zero => exact hescape (hfun 0).1
      | succ n => exact hfun n

end fromIdeal
end Pairing

/-! ## An evaluation that remembers beside one that does not -/

/-- A rule set means a document whatever else built-ins will be asked. -/
def Env.Lasting (env : Env) (answers : List BuiltinAnswer) (σ : Scope) (rs : RuleSet) (v : Option Term) : Prop :=
  ∀ later, BuiltinAnswer.Extends answers later → env.Denotes later σ rs v

theorem Env.Lasting.mono {env : Env} {answers later : List BuiltinAnswer} {σ : Scope} {rs : RuleSet}
    {v : Option Term} (h : env.Lasting answers σ rs v) (hext : BuiltinAnswer.Extends answers later) :
    env.Lasting later σ rs v :=
  fun final hfinal => h final (hext.trans hfinal)

theorem Env.Denotes.congr {env : Env} {answers : List BuiltinAnswer} {σ τ : Scope} {rs : RuleSet}
    {v : Option Term} (h : env.Denotes answers σ rs v) (hagrees : σ.Agrees τ) : env.Denotes answers τ rs v := by
  intro t hcalm hanswers ht
  obtain ⟨t', hev, hbindings, hscope, hrest⟩ := h t hcalm hanswers (hagrees.trans ht)
  exact ⟨t', hev, hbindings, hagrees.symm.trans hscope, hrest⟩

namespace Pairing

/-- States that differ in the documents remembered and in the numbers of scopes. -/
structure Remembering (env : Env) (w : Scopes × Scopes) (s t : State) : Prop where
  bindings : t.bindings = s.bindings
  agrees : s.scope.Agrees t.scope
  inProgress : t.inProgress = s.inProgress
  depth : t.depth = s.depth
  answers : t.answers = s.answers
  counter : t.host.counter = s.host.counter
  calm : s.Calm env
  calm' : t.Calm env
  remembers : s.Remembers env.policy (env.Lasting s.answers) w.1
  remembers' : t.Remembers env.policy (env.Lasting t.answers) w.2

def remembering (env : Env) : Pairing Unit where
  toVocabulary := .any
  env := env
  env' := env
  World := Scopes × Scopes
  later w v := w.1.Later v.1 ∧ w.2.Later v.2
  rel := Remembering env
  grows _ _ := True
  within _ := True
  escapes _ := False
  limit := ⊤
  depths := Eq

namespace remembering

variable {env : Env} {w : Scopes × Scopes} {s t s' t' : State}

theorem quiet (h : Remembering env w s t) (hs : s.Quiet s') (ht : t.Quiet t') : Remembering env w s' t' := by
  have hleft : s'.Remembers env.policy (env.Lasting s'.answers) w.1 := by
    rw [hs.answers]
    exact h.remembers.quiet hs
  have hright : t'.Remembers env.policy (env.Lasting t'.answers) w.2 := by
    rw [ht.answers]
    exact h.remembers'.quiet ht
  refine ⟨?_, ?_, ?_, ?_, ?_, ?_, h.calm.quiet hs, h.calm'.quiet ht, hleft, hright⟩
  · rw [hs.eq, ht.eq]
    exact h.bindings
  · rw [hs.eq, ht.eq]
    exact h.agrees
  · rw [hs.eq, ht.eq]
    exact h.inProgress
  · rw [hs.eq, ht.eq]
    exact h.depth
  · rw [hs.answers, ht.answers, h.answers]
  · rw [hs.counter, ht.counter, h.counter]

/-- A built-in with no answer yet gives the same one in both states, for the counters of the host agree. -/
theorem outcome_eq (hreg : env.registry.Regular) (h : Remembering env w s t) {b : Builtin} (args : List Term)
    (hb : env.registry.Callable b) (hdet : b.deterministic = false) :
    (env.outcome b args t).1 = (env.outcome b args s).1 ∧
      (env.outcome b args t).2.counter = (env.outcome b args s).2.counter := by
  obtain ⟨hresult, hcounter⟩ := (hreg b hb).nondeterministic hdet ⟨b.name, env.time, t.depth, env.options.tracing⟩
    s.depth args t.host s.host h.counter.symm
  exact ⟨congrArg (env.builtinResult b args) hresult, hcounter⟩

/-- Both evaluations keep a new answer. -/
theorem answering (h : Remembering env w s t) {name : String} {args : List Term} (answer : Option Term)
    {host host' : Host} (hcounter : host'.counter = host.counter)
    (hnew : BuiltinAnswer.lookup s.answers name args = none) :
    Remembering env w { s with host := host, answers := ⟨name, args, answer⟩ :: s.answers }
      { t with host := host', answers := ⟨name, args, answer⟩ :: t.answers } := by
  have hext := BuiltinAnswer.extends_cons answer hnew
  have hext' : BuiltinAnswer.Extends t.answers (⟨name, args, answer⟩ :: t.answers) := by
    rw [h.answers]
    exact hext
  refine ⟨h.bindings, h.agrees, h.inProgress, h.depth, ?_, hcounter, ⟨h.calm.1, h.calm.2⟩, ⟨h.calm'.1, h.calm'.2⟩,
    ?_, ?_⟩
  · simp only [h.answers]
  · exact (h.remembers.mono fun _ _ _ hl => hl.mono hext).congr rfl rfl rfl
  · exact (h.remembers'.mono fun _ _ _ hl => hl.mono hext').congr rfl rfl rfl

theorem lawful (hreg : env.registry.Regular) : (remembering env).Lawful where
  same := rfl
  speaks := env.speaks_any
  later_refl _ := ⟨.refl _, .refl _⟩
  later_trans h h' := ⟨h.1.trans h'.1, h.2.trans h'.2⟩
  grows_refl _ := trivial
  grows_trans _ _ := trivial
  grows_call _ _ _ := trivial
  within_between _ _ _ _ := trivial
  bindings_eq := Remembering.bindings
  bindings_vars _ := Vocabulary.bindings_any _
  scope_agrees := Remembering.agrees
  scope_vars _ := Vocabulary.scope_any _
  depth h := h.depth.symm
  calm := Remembering.calm'
  setBindings b h _ := ⟨rfl, h.agrees, h.inProgress, h.depth, h.answers, h.counter, ⟨h.calm.1, h.calm.2⟩,
    ⟨h.calm'.1, h.calm'.2⟩, h.remembers.congr rfl rfl rfl, h.remembers'.congr rfl rfl rfl⟩
  scope := by
    intro w s t σ τ h hagrees _
    refine ⟨(State.Remembers.opening w.1 s σ, State.Remembers.opening w.2 t τ), ?_,
      fun v' hv' => ⟨v', ?_, fun s₁ t₁ h₁ => ⟨?_, fun s₂ t₂ h₂ => ?_⟩⟩, ?_⟩
    · exact ⟨h.bindings, hagrees.openScope s t, h.inProgress, h.depth, h.answers, h.counter, ⟨h.calm.1, h.calm.2⟩,
        ⟨h.calm'.1, h.calm'.2⟩, h.remembers.opened σ, h.remembers'.opened τ⟩
    · exact ⟨(h.remembers.later_opening σ).trans hv'.1, (h.remembers'.later_opening τ).trans hv'.2⟩
    · have hs := hv'.1 _ _ (h.remembers.later_opening σ _ _ h.remembers.current)
      have ht := hv'.2 _ _ (h.remembers'.later_opening τ _ _ h.remembers'.current)
      exact ⟨h₁.bindings, h.agrees, h₁.inProgress, h₁.depth, h₁.answers, h₁.counter, ⟨h₁.calm.1, h₁.calm.2⟩,
        ⟨h₁.calm'.1, h₁.calm'.2⟩, h₁.remembers.switched hs, h₁.remembers'.switched ht⟩
    · exact ⟨h₂.bindings, h₁.agrees, h₂.inProgress, h₂.depth, h₂.answers, h₂.counter, ⟨h₂.calm.1, h₂.calm.2⟩,
        ⟨h₂.calm'.1, h₂.calm'.2⟩, h₂.remembers.switched h₁.remembers.current,
        h₂.remembers'.switched h₁.remembers'.current⟩
    · intro s₁ t₁ h₁
      exact ⟨h₁.bindings, h.agrees, h₁.inProgress, h₁.depth, h₁.answers, h₁.counter, ⟨h₁.calm.1, h₁.calm.2⟩,
        ⟨h₁.calm'.1, h₁.calm'.2⟩, h.remembers.closed h₁.remembers, h.remembers'.closed h₁.remembers'⟩
  quiet := quiet
  regular := hreg
  calls := by
    intro w s t b args answer s' hb hdet href hst hrun _
    have hst : Remembering env w s t := hst
    rcases Env.answer_cases hdet href hrun with ⟨hold, rfl⟩ | ⟨hnew, hout, rfl⟩
    · rw [← hst.answers] at hold
      exact .inl ⟨t, Env.run_callBuiltin_answered hdet href hold, hst, Vocabulary.varsIn_any answer⟩
    · obtain ⟨hsame, hcounter⟩ := outcome_eq hreg hst args hb hdet
      have hnew' : BuiltinAnswer.lookup t.answers b.name args = none := by rw [hst.answers]; exact hnew
      refine .inl ⟨_, ?_, answering hst answer hcounter hnew, Vocabulary.varsIn_any answer⟩
      change (env.callBuiltin b args).run t = _
      rw [Env.run_callBuiltin_new hdet href hnew', hsame, show (env.outcome b args s).1 = _ from hout]

/-! ### Rules -/

/-- A rule set that the first evaluation can enter, the second one can enter too. -/
theorem computes_entering {P : Prop} {B : β → β → Prop} {m : Eval β} {m' : Unit → Eval β} (hreg : env.registry.Regular)
    (rs : RuleSet) (hm : ∀ w, (remembering env).coupling.Computes w P B m m') :
    (remembering env).coupling.Computes w P B (env.entering rs m) fun i => env.entering rs (m' i) := by
  have hinside : (remembering env).coupling.Computes w P B (Eval.inside rs.name m)
      fun i => Eval.inside rs.name (m' i) := by
    refine Coupling.Computes.inside (fun v s t h => ⟨v, ?_, fun s₁ t₁ hs₁ h₁ => ?_⟩) (lawful hreg).coupling hm
    · exact ⟨rfl, h.agrees, congrArg (· ++ [rs.name]) h.inProgress, congrArg (· + 1) h.depth, h.answers, h.counter,
        ⟨h.calm.1, h.calm.2⟩, ⟨h.calm'.1, h.calm'.2⟩, h.remembers.congr rfl rfl rfl, h.remembers'.congr rfl rfl rfl⟩
    · have hprogress : t₁.inProgress = t.inProgress ++ [rs.name] := by
        rw [h₁.inProgress, h.inProgress]
        exact congrArg Frame.inProgress hs₁
      have hdepth : t₁.depth = t.depth + 1 := by
        rw [h₁.depth, h.depth]
        exact congrArg Frame.depth hs₁
      rw [State.exiting_eq hprogress hdepth]
      exact ⟨h.bindings, h₁.agrees, h.inProgress, h.depth, h₁.answers, h₁.counter, ⟨h₁.calm.1, h₁.calm.2⟩,
        ⟨h₁.calm'.1, h₁.calm'.2⟩, h₁.remembers.congr rfl rfl rfl, h₁.remembers'.congr rfl rfl rfl⟩
  refine ⟨fun _ => trivial, fun hP v hv s t hst hfol => ?_⟩
  have hst : Remembering env v s t := hst
  simp only [Env.run_entering, hst.inProgress, hst.depth] at hfol ⊢
  split at hfol
  · exact (hfol.1 _ rfl).elim
  · split at hfol
    · exact (hfol.1 _ rfl).elim
    · next hfree hshallow =>
      simp only [if_neg hfree, if_neg hshallow]
      exact hinside.2 hP v hv s t hst hfol

variable {rs : RuleSet} {n : Nat} {v : Option Term} {s₁ : State}

/-- A document computed afresh is what its rule set means from then on. -/
theorem lasting_of_entering (hreg : env.registry.Regular) (hdistinct : env.policy.Distinct)
    (hrs : rs ∈ env.policy.ruleSets) (hkind : rs.kind ≠ .function) (h : Remembering env w s t)
    (hrun : (env.entering rs (env.evalDocument (env.rulesBy RuleSet.forgetting n) rs)).run s = (.ok v, s₁)) :
    s₁.frame = s.frame ∧ s₁.Remembers env.policy (env.Lasting s₁.answers) w.1 ∧
      env.Lasting s₁.answers s.scope rs v := by
  have hideal : ∀ later, BuiltinAnswer.Extends s₁.answers later →
      env.Denotes later s.scope rs v ∧ s₁.Remembers env.policy (env.Denotes later) w.1 ∧ s₁.frame = s.frame := by
    intro later hlater
    have hdoc : toIdeal.DocumentIdeal env later (env.rulesBy RuleSet.forgetting n) rs :=
      toIdeal.documentIdeal hreg (toIdeal.rulesAnswer RuleSet.recalls_forgetting hdistinct hreg n)
    have hext := hdoc.extends_entering s
    rw [hrun] at hext
    have hst : Idealizes env later w.1 s { s with answers := later } :=
      ⟨rfl, .refl _, ⟨h.calm.1, h.calm.2⟩, rfl, h.remembers.mono fun _ _ _ hl => hl later (hext.trans hlater)⟩
    exact toIdeal.denotes_of_entering hdoc hrs hkind hst hrun hlater
  refine ⟨(hideal _ (.refl _)).2.2, ?_, fun later hlater => (hideal later hlater).1⟩
  have : Nonempty { later // BuiltinAnswer.Extends s₁.answers later } := ⟨⟨_, .refl _⟩⟩
  refine (State.Remembers.forall_means fun x : { later // BuiltinAnswer.Extends s₁.answers later } =>
    (hideal x.1 x.2).2.1).mono fun _ _ _ hall later hlater => hall ⟨later, hlater⟩

/-- A document computed afresh is the one remembered, and computing it asks nothing new of built-ins. -/
theorem eq_of_lasting (hreg : env.registry.Regular) (hrs : rs ∈ env.policy.ruleSets) (h : Remembering env w s t)
    {v' : Option Term} (hmeans : env.Lasting t.answers t.scope rs v')
    (hrun : ((env.rulesBy RuleSet.forgetting n).document rs).run s = (.ok v, s₁)) :
    v = v' ∧ s₁.answers = s.answers ∧ s₁.host.counter = s.host.counter ∧ s₁.Calm env := by
  obtain ⟨s₂, hev, _, _, _, hanswers⟩ := hmeans s.answers (h.answers ▸ .refl _) s h.calm rfl h.agrees.symm
  obtain ⟨k, hk⟩ := hev.exists
  have hst : Realizes env s.answers s.host.counter s s := ⟨rfl, .refl _, h.calm, rfl, rfl, rfl⟩
  have hfol : (fromIdeal env s.answers s.host.counter).coupling.Followed (((env.idealTo k).document rs).run s).1
      (((env.idealTo k).document rs).run s).2.answers := by
    rw [hk]
    exact ⟨fun e he => by simp at he, hanswers⟩
  obtain ⟨r', hr', hagree⟩ := ((fromIdeal.rulesAnswer hreg k n).document () rs).2 hrs () trivial s s hst hfol
  have hr' := (Filter.eventually_top.1 hr' ()).symm.trans hrun
  subst hr'
  rw [hk] at hagree
  rcases hagree with ⟨⟨rfl, _⟩, hrel, _⟩ | ⟨e, he, _⟩
  · exact ⟨rfl, hrel.answered, hrel.counter, hrel.calm⟩
  · cases he

/-- The document of a rule set is the same whether it is remembered or computed, and then it may be remembered. -/
theorem computes_recalling (hreg : env.registry.Regular) (hdistinct : env.policy.Distinct)
    (hm : ∀ w, (remembering env).coupling.Computes w (rs ∈ env.policy.ruleSets)
      (Both (IfSome (Term.VarsIn (remembering env).coupling.names)))
      (env.evalDocument (env.rulesBy RuleSet.forgetting n) rs)
      fun _ => env.evalDocument (env.rulesBy RuleSet.recalling n) rs) :
    (remembering env).coupling.Computes w (rs ∈ env.policy.ruleSets)
      (Both (IfSome (Term.VarsIn (remembering env).coupling.names)))
      ((env.rulesBy RuleSet.forgetting (n + 1)).document rs)
      fun _ => (env.rulesBy RuleSet.recalling (n + 1)).document rs := by
  refine ⟨fun _ => trivial, fun hrs u hu s t hst hfol => ?_⟩
  have hst : Remembering env u s t := hst
  have hkinds : rs.kind = .function ∨ rs.kind ≠ .function := Classical.em _
  rcases hkinds with hkind | hkind
  · refine ⟨(.ok none, t), .of_forall fun _ => ?_, ?_⟩
    · simp only [Env.rulesBy, RuleSet.run_recalling, if_pos hkind]
    · simp only [Env.rulesBy, RuleSet.forgetting, if_pos hkind]
      exact .inl ⟨⟨rfl, Vocabulary.varsIn_any none⟩, hst, rfl⟩
  · have hfresh : (env.rulesBy RuleSet.forgetting (n + 1)).document rs =
        env.entering rs (env.evalDocument (env.rulesBy RuleSet.forgetting n) rs) := by
      simp only [Env.rulesBy, RuleSet.forgetting, if_neg hkind]
    rcases hrun : ((env.rulesBy RuleSet.forgetting (n + 1)).document rs).run s with ⟨e | v, s₁⟩ <;> rw [hrun] at hfol
    · exact (hfol.1 e rfl).elim
    have hrun' := hrun
    rw [hfresh] at hrun'
    obtain ⟨hframe, hremembers, hlasting⟩ := lasting_of_entering hreg hdistinct hrs hkind hst hrun'
    cases hmemo : t.remembered? rs.path with
    | some v' =>
      obtain ⟨rfl, hanswers, hcounter, hcalm⟩ := eq_of_lasting hreg hrs hst (hst.remembers'.recalled hrs hmemo) hrun
      refine ⟨(.ok v, t), .of_forall fun _ => ?_, .inl ⟨⟨rfl, Vocabulary.varsIn_any v⟩, ?_, hframe⟩⟩
      · simp only [Env.rulesBy, RuleSet.run_recalling, if_neg hkind, hmemo]
      · simp only [State.frame, Frame.mk.injEq] at hframe
        obtain ⟨hbindings, hscope, hprogress, hdepth⟩ := hframe
        refine ⟨hst.bindings.trans hbindings.symm, ?_, hst.inProgress.trans hprogress.symm,
          hst.depth.trans hdepth.symm, hst.answers.trans hanswers.symm, hst.counter.trans hcounter.symm, hcalm,
          hst.calm', hremembers, hst.remembers'⟩
        rw [hscope]
        exact hst.agrees
    | none =>
      obtain ⟨⟨out, t₁⟩, hr', hagree⟩ := (computes_entering (w := u) hreg rs hm).2 hrs u ⟨.refl _, .refl _⟩ s t hst
        (hrun'.symm ▸ hfol)
      rw [hrun'] at hagree
      obtain ⟨hres, hrel, _⟩ := hagree.resolve_right (by rintro ⟨_, _, he⟩; exact he)
      have hrel : Remembering env u s₁ t₁ := hrel
      cases out with
      | error e => exact hres.elim
      | ok v' =>
        obtain ⟨rfl, _⟩ := hres
        refine ⟨(.ok v', t₁.remember rs.path v'), hr'.mono fun _ hi => ?_, .inl ⟨⟨rfl, Vocabulary.varsIn_any v'⟩, ?_, hframe⟩⟩
        · simp only [Env.rulesBy, RuleSet.run_recalling, if_neg hkind, hmemo]
          rw [hi]
        · have hmeans : env.Lasting t₁.answers t₁.scope rs v' := by
            have hscope : s₁.scope = s.scope := congrArg Frame.scope hframe
            rw [hrel.answers]
            exact fun later hlater => (hlasting later hlater).congr (hscope ▸ hrel.agrees)
          exact ⟨hrel.bindings, hrel.agrees, hrel.inProgress, hrel.depth, hrel.answers, hrel.counter, hrel.calm,
            ⟨hrel.calm'.1, hrel.calm'.2⟩, hrel.remembers, hrel.remembers'.remember (hdistinct rs hrs) hmeans⟩

/-- Rules evaluated afresh are answered by rules that remember their documents. -/
theorem rulesAnswer (hreg : env.registry.Regular) (hdistinct : env.policy.Distinct) (n : Nat) :
    Coupling.RulesAnswer (remembering env).coupling (env.rulesBy RuleSet.forgetting n)
      fun _ => env.rulesBy RuleSet.recalling n := by
  have hlaw : (remembering env).coupling.Lawful := (lawful hreg).coupling
  induction n with
  | zero =>
    refine ⟨fun w rs => ⟨fun s => trivial, ?_⟩, fun w rs args => ⟨fun s => trivial, ?_⟩⟩
    · exact fun _ _ _ _ _ _ hfol => (hfol.1 _ rfl).elim
    · exact fun _ _ _ _ _ _ hfol => (hfol.1 _ rfl).elim
  | succ n ih =>
    refine ⟨fun w rs => computes_recalling hreg hdistinct fun w => ?_, fun w rs args => ?_⟩
    · exact Coupling.computes_evalDocument hlaw ih rs ((lawful hreg).policyProper rs) (Coupling.computes_candidates hlaw ih rfl rs)
    · exact computes_entering hreg rs fun w =>
        Coupling.computes_evalFunction hlaw ih rs args (fun hP => (lawful hreg).policyProper rs hP.1) And.right

/-! ### Queries -/

theorem properBody (body : Body) :
    Expr.ProperBody (remembering env).coupling.names (Coupling.TargetIn (remembering env).coupling) body :=
  Expr.properBody_of_forall (fun _ => trivial) (fun _ _ _ => trivial) body

/-- At the start nothing is remembered on either side. -/
theorem start (hcalm : s.Calm env) (hmemo : s.memo = []) (hscope : s.scope.id ≤ s.lastScope) :
    ∃ w, Remembering env w s s :=
  ⟨(_, _), rfl, .refl _, rfl, rfl, rfl, rfl, hcalm, hcalm, .of_empty _ _ hmemo hscope, .of_empty _ _ hmemo hscope⟩

/-- A query that succeeds when every document is computed afresh has the same outcome when documents are
remembered. -/
theorem evalQuery_of_afresh (hreg : env.registry.Regular) (hdistinct : env.policy.Distinct) (hcalm : s.Calm env)
    (hmemo : s.memo = []) (hscope : s.scope.id ≤ s.lastScope) (body : Body) {deliver : Solution → α → Reply × α}
    (hdeliver : ∀ solution found, (deliver solution found).1.cancel = false) {found : α} {flow : Flow}
    (hok : (env.evalQueryBy env.rulesAfresh body deliver found s).outcome = .ok flow) :
    (env.evalQuery body deliver found s).outcome = .ok flow ∧
      (env.evalQuery body deliver found s).found = (env.evalQueryBy env.rulesAfresh body deliver found s).found := by
  obtain ⟨w, hst⟩ := start hcalm hmemo hscope
  have hsim := Coupling.simulates_evalQueryBy (w := w) (P := True) (lawful hreg).coupling
    (rulesAnswer hreg hdistinct (env.policy.ruleSets.length + 1)) body (fun _ => properBody body) hdeliver
  obtain ⟨r', hr', hmatch⟩ := hsim.2 trivial w ⟨.refl _, .refl _⟩ found found s s rfl hst
    ⟨fun _ he => Except.absurd_error hok he, trivial⟩ trivial
  obtain ⟨hout, ⟨hfound, _⟩, _⟩ := hmatch.resolve_right (by rintro ⟨_, _, he⟩; exact he)
  have hr' : env.evalQuery body deliver found s = r' := by
    rw [env.evalQuery_eq, Env.rules, env.rulesTo_eq_rulesBy]
    exact Filter.eventually_top.1 hr' ()
  rw [hr']
  exact ⟨hout.trans hok, hfound.symm⟩

end remembering
end Pairing

/-! ## Engines -/

/-- Remembering documents never changes a successful answer: a query that has solutions when every document is
computed afresh has the same solutions in the same order when documents are remembered. -/
theorem Engine.evalQuery_eq_of_afresh {e : Engine} (hcompiled : e.Compiled) (hreg : e.registry.Regular)
    (hunlimited : e.Unlimited) (query : Body) {solutions : List Solution}
    (h : (e.evalQueryBy Env.rulesAfresh query).1.result = .ok solutions) :
    (e.evalQuery query).1.result = .ok solutions := by
  rw [Engine.evalQuery_eq]
  simp only [Engine.evalQueryBy] at h ⊢
  rcases e.run_cases hcompiled with ⟨err, hrun⟩ | ⟨policy, txn, store, hpolicy, hrun⟩
  · rw [hrun _ e.options] at h
    cases h
  · rw [hrun _ e.options] at h ⊢
    have hcalm := hunlimited.calm_start policy txn store
    have hdistinct : ({ e with store := store }.env policy txn).policy.Distinct := Policy.distinct_of_compile hpolicy
    have hreg : ({ e with store := store }.env policy txn).registry.Regular := hreg
    have hmemo : { e with store := store }.start.memo = [] := rfl
    have hscope : { e with store := store }.start.scope.id ≤ { e with store := store }.start.lastScope := Nat.le_refl 0
    generalize { e with store := store }.env policy txn = env at h hcalm hdistinct hreg ⊢
    generalize { e with store := store }.start = s at h hcalm hmemo hscope ⊢
    obtain ⟨_, hout, hfound⟩ := Except.map_eq_ok h
    obtain ⟨flow, hout, _⟩ := Except.map_eq_ok hout
    obtain ⟨hout', hfound'⟩ := Pairing.remembering.evalQuery_of_afresh hreg hdistinct hcalm hmemo hscope query
      (fun _ _ => rfl) hout
    rw [Env.evalQuery_eq] at hout' hfound'
    dsimp only at hfound ⊢
    rw [hout', hfound']
    exact congrArg Except.ok hfound

/-! ### A document asked for in three places -/

namespace Thrice

/-- A rule whose value is a field of the input. -/
def rule : Rule where
  first := { head := { name := .var "p", keys := [], value := some (.ref (.var "input") [.string "a"]) } }

def engine : Engine where
  modules := [⟨["t"], [rule]⟩]
  input := some (.object [(.string "a", .number 1)])
  clock := { step := 1 }

/-- A variable equals the document of the rule, under overrides. -/
def asks (x : String) (overrides : List (Term × Term)) : Expr :=
  .mk (.term (.call (.ref (.var "eq") []) [.var x, .ref (.var "data") [.string "t", .string "p"]])) false overrides 0

/-- The document is asked for, then under another input, and then once more as at first. -/
def query : Body := [asks "x" [], asks "y" [(.ref (.var "input") [.string "a"], .number 2)], asks "z" []]

theorem evalQuery_thrice : ∃ solutions : List Solution,
    (engine.evalQueryBy Env.rulesAfresh query).1.result = .ok solutions ∧
      (solutions.map fun s => s.bindings.map Prod.snd) == [[.number 1, .number 2, .number 1]] ∧
      (engine.evalQuery query).1.result = .ok solutions := by
  have hok : (engine.evalQueryBy Env.rulesAfresh query).1.result =
      .ok ((engine.evalQueryBy Env.rulesAfresh query).1.result.toOption.getD []) :=
    Except.eq_ok_of_isOk (by decide +kernel) []
  have hcompiled : engine.Compiled := fun _ (h : none = some _) => nomatch h
  refine ⟨_, hok, by decide +kernel, ?_⟩
  exact Engine.evalQuery_eq_of_afresh hcompiled (Registry.regular_core _) ⟨⟨rfl, rfl⟩, rfl⟩ query hok

end Thrice
end PolicyEngine
