import PolicyEngine.Eval.Query
import PolicyEngine.Proofs.Simulation
import PolicyEngine.Proofs.Steps

/-!
Backtracking leaves no trace. Every search of the evaluator, and every evaluation of a rule set or a function,
gives back the environment, the scope, the rule sets in progress and the depth as it found them, whatever its
outcome is; and a search goes on with its continuation only in the scope, among the rule sets and at the depth
it was entered with.
-/
namespace PolicyEngine

/-- What the continuation of a search shares with its entry. -/
structure Context where
  scope : Scope
  inProgress : List String
  depth : Nat

def State.context (s : State) : Context := ⟨s.scope, s.inProgress, s.depth⟩

/-- Gives the frame back as it was, whatever the outcome. -/
def Search.Restores (k : Search α) : Prop := ∀ found s, (k found s).state.frame = s.frame

def Eval.Restores (m : Eval β) : Prop := ∀ s, (m.run s).2.frame = s.frame

/-- A search that backtracks: if its continuations restore the frame so does the search, and it calls them
only in the context of its entry, so that what they do in another context makes no difference. -/
structure Search.Backtracks {κ : Type} (search : (κ → Search α) → Search α) : Prop where
  restores : ∀ k, (∀ x, (k x).Restores) → (search k).Restores
  within : ∀ k k' : κ → Search α, (∀ x, (k x).Restores) → ∀ found s,
    (∀ x found t, t.context = s.context → k' x found t = k x found t) → search k' found s = search k found s

theorem State.context_eq_of_frame {r s : State} (h : r.frame = s.frame) : r.context = s.context := by
  simp only [State.frame, Frame.mk.injEq] at h
  simp only [State.context, h.2]

/-! ## An evaluation beside itself -/

/-- An evaluation beside itself, in states that are equal and have a known context, with a property of the answers
of built-ins that evaluation keeps. -/
def Coupling.framing (env : Env) (keeps : List BuiltinAnswer → Prop) : Coupling Unit where
  env := env
  env' := env
  World := Context
  later := Eq
  rel c s t := t = s ∧ s.context = c ∧ keeps s.answers
  grows _ _ := True
  within _ := True
  follows _ := True
  escapes _ := False
  limit := ⊤
  depths := Eq
  toVocabulary := .any

namespace Coupling.framing

variable {env : Env} {keeps : List BuiltinAnswer → Prop}

/-- Restores the frame and keeps the property of the answers. -/
def Keeps (keeps : List BuiltinAnswer → Prop) (m : Eval β) : Prop :=
  ∀ s, keeps s.answers → (m.run s).2.frame = s.frame ∧ keeps (m.run s).2.answers

theorem Keeps.computes {P : Prop} {p : β → Prop} {m : Eval β} (hm : P → Keeps keeps m) (hp : ∀ b, p b)
    (c : Context) : (framing env keeps).Computes c P (Both p) m fun _ => m := by
  refine ⟨fun _ => trivial, fun hP _ hv s t hst _ => ?_⟩
  obtain ⟨rfl, hcontext, hkeeps⟩ := hst
  obtain ⟨hframe, hk⟩ := hm hP t hkeeps
  refine ⟨m.run t, .of_forall fun _ => rfl, .inl ⟨?_, ⟨rfl, ?_, hk⟩, hframe⟩⟩
  · cases (m.run t).1 with
    | error e => rfl
    | ok b => exact ⟨rfl, hp b⟩
  · exact (State.context_eq_of_frame hframe).trans hcontext

theorem Keeps.of_computes {P : Prop} {p : β → Prop} {m : Eval β}
    (hm : ∀ c, (framing env keeps).Computes c P (Both p) m fun _ => m) (hP : P) : Keeps keeps m := by
  intro s hs
  obtain ⟨_, _, hagree⟩ := (hm s.context).2 hP s.context rfl s s ⟨rfl, rfl, hs⟩ ⟨fun _ _ => trivial, trivial⟩
  obtain ⟨_, ⟨_, _, hk⟩, hframe⟩ := hagree.resolve_right fun ⟨_, _, he⟩ => he
  exact ⟨hframe, hk⟩

/-- A step that changes neither the frame nor the answers. -/
theorem Keeps.of_quiet {m : Eval β} (hm : ∀ s, (m.run s).2.frame = s.frame ∧ (m.run s).2.answers = s.answers) :
    Keeps keeps m :=
  fun s hs => ⟨(hm s).1, (hm s).2.symm ▸ hs⟩

theorem lawful (hcalls : ∀ b, env.registry.get? b.name = some b → ∀ args s, keeps s.answers →
    keeps ((env.callBuiltin b args).run s).2.answers) : (framing env keeps).Lawful where
  later_refl _ := rfl
  later_trans := Eq.trans
  grows_refl _ := trivial
  grows_trans _ _ := trivial
  within_between _ _ _ _ := trivial
  free_names _ _ := trivial
  bindings_eq h := by rw [h.1]
  bindings_vars _ _ _ := ⟨trivial, fun t _ => t.varsIn_of_forall fun _ => trivial⟩
  scope_agrees h := by rw [h.1]; exact ⟨rfl, rfl, rfl⟩
  scope_vars _ := Scope.varsIn_of_forall (fun _ => trivial) (fun _ => trivial) _
  depth h := by rw [h.1]; rfl
  setBindings h _ := by
    obtain ⟨rfl, h⟩ := h
    exact ⟨rfl, h⟩
  scope := by
    rintro w s t σ τ ⟨rfl, rfl, hkeeps⟩ hagrees _
    refine ⟨(t.openScope σ).context, ⟨?_, rfl, hkeeps⟩, ?_, ?_⟩
    · simp only [State.openScope, hagrees.input, hagrees.data, hagrees.functions]
    · rintro v' rfl
      refine ⟨t.context, rfl, ?_⟩
      rintro s₁ _ ⟨rfl, hc, hk⟩
      simp only [State.context, Context.mk.injEq] at hc
      refine ⟨⟨rfl, by simp only [State.context, hc.2.1, hc.2.2]; rfl, hk⟩, ?_⟩
      rintro s₂ _ ⟨rfl, hc₂, hk₂⟩
      simp only [State.context, Context.mk.injEq] at hc₂
      exact ⟨rfl, by simp only [State.context, hc.1, hc₂.2.1, hc₂.2.2]; rfl, hk₂⟩
    · rintro s₁ _ ⟨rfl, hc, hk⟩
      simp only [State.context, Context.mk.injEq] at hc
      exact ⟨rfl, by simp only [State.context, State.closeScope, hc.2.1, hc.2.2]; rfl, hk⟩
  policy := rfl
  registry := rfl
  checkpoint w := by
    have hstep : ∀ s, (env.checkpoint.run s).2.frame = s.frame ∧ (env.checkpoint.run s).2.answers = s.answers := by
      intro s
      obtain ⟨timer, clock, h⟩ := env.state_checkpoint s
      rw [h]
      exact ⟨rfl, rfl⟩
    exact Computes.mono (Keeps.computes (p := fun _ => True) (fun _ => .of_quiet hstep) (fun _ => trivial) w)
      fun _ _ _ h => h.1.symm
  emit w op d d' text := by
    have hstep : ∀ s, ((env.emit op d text).run s).2.frame = s.frame ∧
        ((env.emit op d text).run s).2.answers = s.answers := by
      intro s
      obtain ⟨host, h, _⟩ := env.state_emit op d text s
      rw [h]
      exact ⟨rfl, rfl⟩
    refine ⟨fun _ => trivial, fun hd => ?_⟩
    cases hd
    exact (Computes.mono (Keeps.computes (P := True) (p := fun _ => True) (fun _ => .of_quiet hstep)
      (fun _ => trivial) w) fun _ _ _ h => h.1.symm).2 trivial
  read w path := by
    have hstep : ∀ s, ((env.read path).run s).2.frame = s.frame ∧ ((env.read path).run s).2.answers = s.answers :=
      fun s => by rw [env.run_read]; exact ⟨rfl, rfl⟩
    exact Keeps.computes (fun _ => .of_quiet hstep) (fun _ t _ => t.varsIn_of_forall fun _ => trivial) w
  listKeys w path := by
    have hstep : ∀ s, ((env.listKeys path).run s).2.frame = s.frame ∧
        ((env.listKeys path).run s).2.answers = s.answers := fun s => by rw [env.run_listKeys]; exact ⟨rfl, rfl⟩
    exact Keeps.computes (fun _ => .of_quiet hstep) (fun _ _ _ t _ => t.varsIn_of_forall fun _ => trivial) w
  callBuiltin w b args := by
    refine Keeps.computes (fun hb s hs => ⟨?_, hcalls b hb args s hs⟩)
      (fun _ t _ => t.varsIn_of_forall fun _ => trivial) w
    obtain ⟨host, answers, h⟩ := env.state_callBuiltin b args s
    exact (congrArg State.frame h).trans rfl

/-! ## Rules -/

theorem Keeps.entering {m : Eval β} (hm : Keeps keeps m) (rs : RuleSet) : Keeps keeps (env.entering rs m) := by
  intro s hs
  rw [Env.run_entering]
  split
  · exact ⟨rfl, hs⟩
  · split
    · exact ⟨rfl, hs⟩
    · obtain ⟨hframe, hk⟩ := hm (s.entered rs.name) hs
      exact ⟨State.frame_exiting hframe, hk⟩

theorem Keeps.recalling {m : Eval (Option Term)} (hm : Keeps keeps m) (rs : RuleSet) :
    Keeps keeps (rs.recalling m) := by
  intro s hs
  rw [RuleSet.run_recalling]
  split
  · exact ⟨rfl, hs⟩
  · split
    · exact ⟨rfl, hs⟩
    · have h := hm s hs
      rcases hrun : m.run s with ⟨_ | _, s₁⟩ <;> rw [hrun] at h <;> exact h

theorem Keeps.throw (e : EvalError) : Keeps keeps (MonadExcept.throw e : Eval β) := fun _ hs => ⟨rfl, hs⟩

theorem proper (rs : RuleSet) : rs.Proper (framing env keeps).names (TargetIn (framing env keeps)) :=
  ⟨fun _ _ c _ => c.proper_of_forall (fun _ => trivial) fun _ _ _ => trivial,
    fun _ _ c _ => c.proper_of_forall (fun _ => trivial) fun _ _ _ => trivial⟩

section Rules

variable {rules : RuleSemantics}

theorem rulesAnswer_of_keeps (hdoc : ∀ rs ∈ env.policy.ruleSets, Keeps keeps (rules.document rs))
    (hfun : ∀ rs ∈ env.policy.ruleSets, ∀ args, Keeps keeps (rules.function rs args)) :
    RulesAnswer (framing env keeps) rules fun _ => rules := by
  have hany : ∀ r : Option Term, IfSome (Term.VarsIn (framing env keeps).names) r :=
    fun _ t _ => t.varsIn_of_forall fun _ => trivial
  exact ⟨fun c rs => Keeps.computes (hdoc rs) hany c,
    fun c rs args => Keeps.computes (fun hrs => hfun rs hrs.1 args) hany c⟩

variable (hlaw : (framing env keeps).Lawful) (hr : RulesAnswer (framing env keeps) rules fun _ => rules)

include hlaw hr

/-- The document of a rule set, whether it belongs to the policy or not, is found within the frame. -/
theorem keeps_evalDocument (rs : RuleSet) : Keeps keeps (env.evalDocument rules rs) :=
  Keeps.of_computes (fun c => computes_evalDocument (w := c) hlaw hr rs (fun _ : True => proper rs)
    (computes_candidates hlaw hr rfl rs)) trivial

theorem keeps_evalFunction (rs : RuleSet) (args : List Term) : Keeps keeps (env.evalFunction rules rs args) :=
  Keeps.of_computes (fun c => computes_evalFunction (w := c) hlaw hr rs args (fun _ : True => proper rs)
    fun _ t _ => t.varsIn_of_forall fun _ => trivial) trivial

end Rules

/-- Rules restore the frame at every depth of nesting. -/
theorem rulesAnswer (hlaw : (framing env keeps).Lawful) (n : Nat) :
    RulesAnswer (framing env keeps) (env.rulesTo n) fun _ => env.rulesTo n := by
  induction n with
  | zero => exact rulesAnswer_of_keeps (fun _ _ => .throw _) fun _ _ _ => .throw _
  | succ n ih =>
    exact rulesAnswer_of_keeps (fun rs _ => ((keeps_evalDocument hlaw ih rs).entering rs).recalling rs)
      fun rs _ args => (keeps_evalFunction hlaw ih rs args).entering rs

end Coupling.framing

/-! ## Searches -/

section Backtracks

open Coupling

variable {env : Env}

theorem framing_lawful : (framing env fun _ => True).Lawful := framing.lawful fun _ _ _ _ _ => trivial

theorem cursorIn_of_forall {p : String → Prop} (hp : ∀ x, p x) (c : Cursor) : CursorIn p c := by
  cases c with
  | value v => exact v.varsIn_of_forall hp
  | child _ _ key => exact key.varsIn_of_forall hp
  | data _ => trivial

/-- A search that respects the coupling of an evaluation with itself backtracks. -/
theorem Search.Backtracks.of_simulates {κ : Type} {search : (κ → Search α) → Search α}
    (hs : ∀ c (k k' : κ → Search α),
      (∀ x, (framing env fun _ => True).Simulates c True { rel := Eq } (k x) fun _ => k' x) →
        (framing env fun _ => True).Simulates c True { rel := Eq } (search k) fun _ => search k') :
    Search.Backtracks search := by
  have hagree : ∀ (k k' : κ → Search α), (∀ x, (k x).Restores) → ∀ found s,
      (∀ x found t, t.context = s.context → k' x found t = k x found t) →
        search k' found s = search k found s ∧ (search k found s).state.frame = s.frame := by
    intro k k' hk found s hkk'
    have hsim : ∀ x, (framing env fun _ => True).Simulates s.context True { rel := Eq } (k x) fun _ => k' x := by
      refine fun x => ⟨fun _ _ => ⟨trivial, fun _ => trivial⟩, ?_⟩
      rintro _ _ rfl found _ _ t rfl ⟨rfl, hc, _⟩ _ _
      refine ⟨k x found t, .of_forall fun _ => hkk' x found t hc,
        .inl ⟨rfl, ⟨rfl, fun _ => trivial⟩, ⟨rfl, ?_, trivial⟩, hk x found t⟩⟩
      exact (State.context_eq_of_frame (hk x found t)).trans hc
    obtain ⟨r', hr', hmatch⟩ := (hs s.context k k' hsim).2 trivial s.context rfl found found s s rfl
      ⟨rfl, rfl, trivial⟩ ⟨fun _ _ => trivial, trivial⟩ trivial
    obtain ⟨hout, ⟨hfound, _⟩, ⟨hstate, _⟩, hframe⟩ := hmatch.resolve_right fun ⟨_, _, he⟩ => he
    refine ⟨?_, hframe⟩
    have hr : search k' found s = r' := Filter.eventually_top.1 hr' ()
    rw [hr]
    cases r'
    simp only at hout hfound hstate
    rw [hout, ← hfound, hstate]
  exact ⟨fun k hk found s => (hagree k k hk found s fun _ _ _ _ => rfl).2,
    fun k k' hk found s h => (hagree k k' hk found s h).1⟩

/-- A search whose simulations are known for all continuations that get terms. -/
theorem Search.Backtracks.of_terms {search : (Term → Search α) → Search α}
    (hs : ∀ c (k k' : Term → Search α),
      (∀ v, (framing env fun _ => True).Simulates c (True ∧ v.VarsIn fun _ => True) { rel := Eq } (k v) fun _ => k' v) →
        (framing env fun _ => True).Simulates c True { rel := Eq } (search k) fun _ => search k') :
    Search.Backtracks search :=
  .of_simulates fun c k k' hk => hs c k k' fun v => (hk v).guard fun _ => trivial

theorem Search.Restores.after {m : Eval β} {k : β → Search α} (hm : m.Restores) (hk : ∀ b, (k b).Restores) :
    (Search.after m k).Restores := by
  intro found s
  have hs := hm s
  rw [Search.after]
  rcases hrun : m.run s with ⟨_ | b, s₁⟩ <;> simp only [hrun] at hs ⊢
  · exact hs
  · exact (hk b found s₁).trans hs

theorem restores_emit (env : Env) (op : TraceOp) (depth : Nat) (text : Unit → String) :
    (env.emit op depth text).Restores := by
  intro s
  obtain ⟨host, h, _⟩ := env.state_emit op depth text s
  rw [h]
  rfl

theorem restores_evalQuery (body : Body) (deliver : Solution → α → Reply × α)
    (hbody : Search.Backtracks fun k : Unit → Search α => env.evalBody env.rules body (k ())) :
    (env.evalQuery body deliver).Restores := by
  refine Search.Restores.after (fun s => ?_) fun depth => ?_
  · simp only [Eval.run_bind, Eval.run_get]
    have h := restores_emit env .enter s.depth (fun _ => "query") s
    rcases hrun : (env.emit .enter s.depth fun _ => "query").run s with ⟨_ | _, s₁⟩ <;> rw [hrun] at h <;> exact h
  · refine hbody.restores (fun _ => _) fun _ => ?_
    exact Search.Restores.after (restores_emit _ _ _ _) fun _ _ _ => rfl

/-- Backtracking leaves no trace. However deep rules are nested, the searches for the environments of bodies and
expressions, negated or not and under overrides or not, for the values of terms, of operands and at the end of
references, backtrack; and the evaluation of a rule set or of a function gives the frame back as it was, as do
queries and the documents at paths. -/
theorem evaluation_backtracks (env : Env) (n : Nat) :
    (∀ (α : Type) body, Search.Backtracks fun k : Unit → Search α => env.evalBody (env.rulesTo n) body (k ())) ∧
    (∀ (α : Type) e, Search.Backtracks fun k : Unit → Search α => env.evalExpr (env.rulesTo n) e (k ())) ∧
    (∀ (α : Type) kind, Search.Backtracks fun k : Unit → Search α => env.evalKind (env.rulesTo n) kind (k ())) ∧
    (∀ (α : Type) negated kind,
      Search.Backtracks fun k : Unit → Search α => evalSigned env (env.rulesTo n) negated kind (k ())) ∧
    (∀ (α : Type) negated kind overrides, Search.Backtracks fun k : Unit → Search α =>
      evalOverriding env (env.rulesTo n) negated kind overrides (k ())) ∧
    (∀ (α : Type) t, Search.Backtracks fun k : Term → Search α => env.evalTerm (env.rulesTo n) t k) ∧
    (∀ (α : Type) ts, Search.Backtracks fun k : List Term → Search α => env.evalTerms (env.rulesTo n) ts k) ∧
    (∀ (α : Type) fs, Search.Backtracks fun k : List (Term × Term) → Search α =>
      env.evalFields (env.rulesTo n) fs k) ∧
    (∀ (α : Type) c operands, Search.Backtracks fun k : Term → Search α => env.walk (env.rulesTo n) c operands k) ∧
    (∀ (α : Type) name arguments, Search.Backtracks fun k : Option Term → Search α =>
      Search.after (env.resolveFunction name) fun (callee, arity) =>
        env.evalCall (env.rulesTo n) callee (Env.outputPosition arity arguments.length) arguments []
          (fun v => k (some v)) (k none)) ∧
    (∀ rs ∈ env.policy.ruleSets, ((env.rulesTo n).document rs).Restores ∧
      ∀ args, ((env.rulesTo n).function rs args).Restores) ∧
    (∀ (α : Type) body deliver, (env.evalQuery body deliver : Search α).Restores) ∧
    ∀ path, (env.evalPath path).Restores := by
  have hlaw : (framing env fun _ => True).Lawful := framing_lawful
  have hr := framing.rulesAnswer hlaw n
  have hp : ∀ t : Term, t.Proper (framing env fun _ => True).names (TargetIn (framing env fun _ => True)) :=
    fun t => t.proper_of_forall (fun _ => trivial) fun _ _ _ => trivial
  have hps : ∀ ts : List Term, Term.ProperAll (framing env fun _ => True).names
      (TargetIn (framing env fun _ => True)) ts :=
    fun ts => Term.properAll_of_forall (fun _ => trivial) (fun _ _ _ => trivial) ts
  have hbody : ∀ (m : Nat) (α : Type) body,
      Search.Backtracks fun k : Unit → Search α => env.evalBody (env.rulesTo m) body (k ()) :=
    fun m α body => .of_simulates fun c k k' hk => bodyAnswers hlaw (framing.rulesAnswer hlaw m) body
      (fun _ => Expr.properBody_of_forall (fun _ => trivial) (fun _ _ _ => trivial) body) (hk ())
  refine ⟨hbody n, ?_, ?_, ?_, ?_, ?_, ?_, ?_, ?_, ?_, ?_, ?_, ?_⟩
  · exact fun α e => .of_simulates fun c k k' hk => exprAnswers hlaw hr e
      (fun _ => e.proper_of_forall (fun _ => trivial) fun _ _ _ => trivial) (hk ())
  · exact fun α kind => .of_simulates fun c k k' hk => kindAnswers hlaw hr kind
      (fun _ => kind.proper_of_forall (fun _ => trivial) fun _ _ _ => trivial) (hk ())
  · exact fun α negated kind => .of_simulates fun c k k' hk => simulates_evalSigned hlaw (kindAnswers hlaw hr kind)
      negated (fun _ => kind.proper_of_forall (fun _ => trivial) fun _ _ _ => trivial) (hk ())
  · exact fun α negated kind overrides => .of_simulates fun c k k' hk =>
      simulates_evalOverriding hlaw (kindAnswers hlaw hr kind)
        (fun o ho => (termsAnswer_fields hlaw hr overrides o ho).2) negated
        (fun _ => kind.proper_of_forall (fun _ => trivial) fun _ _ _ => trivial)
        (fun _ => Expr.properOverrides_of_forall (fun _ => trivial) (fun _ _ _ => trivial) overrides) (hk ())
  · exact fun α t => .of_terms fun c k k' hk => (termsAnswer hlaw hr t).1 (fun _ => hp t) hk
  · exact fun α ts => .of_simulates fun c k k' hk => simulates_evalTerms ts (termsAnswer_all hlaw hr ts)
      (fun _ => hps ts) fun vs => (hk vs).guard fun _ => trivial
  · exact fun α fs => .of_simulates fun c k k' hk => simulates_evalFields fs (termsAnswer_fields hlaw hr fs)
      (fun _ => Term.properFields_of_forall (fun _ => trivial) (fun _ _ _ => trivial) fs)
      fun vs => (hk vs).guard fun _ => trivial
  · exact fun α cursor operands => .of_terms fun c k k' hk => simulates_walk hlaw hr operands
      (termsAnswer_all hlaw hr operands) (fun _ => hps operands) (fun _ => cursorIn_of_forall (fun _ => trivial) cursor) hk
  · exact fun α name arguments => .of_simulates fun c k k' hk =>
      (computes_resolveFunction hlaw name).afterBoth hlaw fun r => simulates_evalCall hlaw hr arguments
        (termsAnswer_all hlaw hr arguments) And.right (fun _ => hps arguments) (fun _ => nofun)
        (fun v => (hk (some v)).guard fun _ => trivial) ((hk none).guard fun _ => trivial)
  · intro rs hrs
    refine ⟨fun s => (framing.Keeps.of_computes (fun c => hr.document c rs) hrs s trivial).1, fun args s => ?_⟩
    exact (framing.Keeps.of_computes (fun c => hr.function c rs args)
      ⟨hrs, fun t _ => t.varsIn_of_forall fun _ => trivial⟩ s trivial).1
  · exact fun α body deliver => restores_evalQuery body deliver (hbody _ α body)
  · exact fun path s => (framing.Keeps.of_computes (P := True)
      (fun c => computes_document hlaw (framing.rulesAnswer hlaw _) path) trivial s trivial).1

end Backtracks

/-! ### A rule that looks for its value -/

namespace Lookup

/-- The rule set of a document whose value is looked for among the fields of the input. -/
def ruleSet : RuleSet where
  path := ["t", "p"]
  kind := .complete
  rules := [{ first := { head := { name := .var "p", keys := [], value := some (.ref (.var "input") [.var "k"]) } } }]

def env : Env := { policy := ⟨[ruleSet]⟩ }

theorem document_restores : ((env.rulesTo 2).document ruleSet).Restores := by
  obtain ⟨_, _, _, _, _, _, _, _, _, _, hrules, _⟩ := evaluation_backtracks env 2
  exact (hrules ruleSet List.mem_cons_self).1

end Lookup
end PolicyEngine
