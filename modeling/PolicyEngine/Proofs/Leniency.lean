import PolicyEngine.Proofs.Compiled
import PolicyEngine.Proofs.Queries

/-!
Lenient evaluation beside strict evaluation. The two run in step, state by state, until a built-in fails. There a strict
evaluation ends with the failure, which nothing on the way out turns into anything else; so whatever else a strict
evaluation comes to, the lenient one comes to as well.
-/
namespace PolicyEngine

/-- A built-in failed. -/
def EvalError.IsBuiltin : EvalError → Prop
  | .builtin _ _ _ => True
  | _ => False

def Options.withStrict (strict : Bool) (o : Options) : Options := { o with strict := strict }

def Env.withStrict (strict : Bool) (env : Env) : Env := { env with options := env.options.withStrict strict }

/-! ## Calls -/

namespace Env

variable (env : Env)

/-- The result of a built-in is taken alike, unless it is a failure with which strict evaluation ends. -/
theorem builtinResult_lenient (b : Builtin) (args : List Term) (r : BuiltinResult)
    (h : ∀ e, (env.withStrict true).builtinResult b args r = .error e → ¬e.IsBuiltin) :
    (env.withStrict false).builtinResult b args r = (env.withStrict true).builtinResult b args r := by
  cases r with
  | ok value => rfl
  | error e =>
    simp only [builtinResult, failedCall] at h ⊢
    cases hlenient : b.lenient with
    | true => rfl
    | false =>
      simp only [hlenient] at h
      exact (h _ rfl trivial).elim

/-- A call comes to the same, unless strict evaluation ends with it. -/
theorem run_callBuiltin_lenient (b : Builtin) (args : List Term) (s : State)
    (h : ∀ e, (((env.withStrict true).callBuiltin b args).run s).1 = .error e → ¬e.IsBuiltin) :
    ((env.withStrict false).callBuiltin b args).run s = ((env.withStrict true).callBuiltin b args).run s := by
  simp only [run_callBuiltin, run_runBuiltin] at h ⊢
  have hcontext : (env.withStrict false).time = (env.withStrict true).time ∧
      (env.withStrict false).options.tracing = (env.withStrict true).options.tracing := ⟨rfl, rfl⟩
  rw [hcontext.1, hcontext.2]
  generalize
    b.invoke ⟨b.name, (env.withStrict true).time, s.depth, (env.withStrict true).options.tracing⟩ args s.host = r
    at h ⊢
  cases hrefusal : refusal? b args with
  | some refused => rfl
  | none =>
    simp only [hrefusal] at h
    cases hdet : b.deterministic with
    | true =>
      simp only [hdet, if_true] at h ⊢
      rw [env.builtinResult_lenient b args r.1 h]
    | false =>
      simp only [hdet] at h ⊢
      cases hanswered : s.answered? b.name args with
      | some answer => rfl
      | none =>
        simp only [hanswered] at h
        rw [env.builtinResult_lenient b args r.1 fun e he => h e (by simp [he])]

end Env

/-! ## Evaluations -/

namespace Coupling

/-- A strict evaluation and the lenient one beside it, which is in the same state. -/
def leniency (env : Env) : Coupling Unit where
  toVocabulary := .any
  env := env.withStrict true
  env' := env.withStrict false
  World := Unit
  later _ _ := True
  rel _ s t := t = s
  grows _ _ := True
  within _ := True
  follows e := ¬e.IsBuiltin
  escapes _ := False
  limit := ⊤
  depths := Eq

namespace leniency

variable {env : Env} {w : Unit} {P : Prop} {β : Type} {B : β → β → Prop} {m m' : Eval β}

/-- A step that comes to the same on both sides, and gives the frame back. -/
theorem computes_same (hB : ∀ b, B b b) (hframe : P → ∀ s, (m.run s).2.frame = s.frame)
    (hsame : P → ∀ s, (∀ e, (m.run s).1 = .error e → ¬e.IsBuiltin) → m'.run s = m.run s) :
    (leniency env).Computes w P B m fun _ => m' := by
  refine ⟨fun _ => trivial, ?_⟩
  rintro hP _ _ _ s rfl ⟨hfollowed, -⟩
  refine ⟨_, .of_forall fun _ => rfl, .inl ?_⟩
  rw [hsame hP s hfollowed]
  refine ⟨?_, rfl, hframe hP s⟩
  cases (m.run s).1 with
  | error e => rfl
  | ok b => exact hB b

theorem both_any {p : β → Prop} (hp : ∀ b, p b) (b : β) : Both p b b := ⟨rfl, hp b⟩

theorem lawful : (leniency env).Lawful where
  later_refl _ := trivial
  later_trans _ _ := trivial
  grows_refl _ := trivial
  grows_trans _ _ := trivial
  within_between _ _ _ _ := trivial
  free_names _ _ := trivial
  bindings_eq h := by rw [h]
  bindings_vars _ := Vocabulary.bindings_any _
  scope_agrees h := by
    rw [h]
    exact ⟨rfl, rfl, rfl⟩
  scope_vars _ := Vocabulary.scope_any _
  depth h := by rw [h]; rfl
  setBindings h _ := by rw [h]; rfl
  scope := by
    rintro _ s _ σ τ rfl hagrees -
    refine ⟨(), ?_, fun _ _ => ⟨(), trivial, ?_⟩, ?_⟩
    · simp only [leniency, State.openScope, hagrees.input, hagrees.data, hagrees.functions]
    · rintro s₁ _ rfl
      exact ⟨rfl, by rintro s₂ _ rfl; rfl⟩
    · rintro s₁ _ rfl
      rfl
  policy := rfl
  registry := rfl
  checkpoint _ := computes_same (fun _ => rfl) (fun _ s => (env.quiet_checkpoint s).frame) fun _ _ _ => rfl
  emit _ op d d' text := by
    refine ⟨fun _ => trivial, fun hd => ?_⟩
    cases hd
    exact (computes_same (fun _ => rfl) (fun _ s => (env.quiet_emit op d text s).frame) fun _ _ _ => rfl).2 trivial
  read _ path := computes_same (both_any Vocabulary.varsIn_any) (fun _ s => (env.quiet_read path s).frame)
    fun _ _ _ => rfl
  listKeys _ path := computes_same (both_any fun _ _ _ t _ => t.varsIn_of_forall fun _ => trivial)
    (fun _ s => (env.quiet_listKeys path s).frame) fun _ _ _ => rfl
  callBuiltin _ b args := by
    refine computes_same (both_any Vocabulary.varsIn_any) (fun _ s => ?_) fun _ => env.run_callBuiltin_lenient b args
    obtain ⟨host, answers, hstate⟩ := (env.withStrict true).state_callBuiltin b args s
    exact (congrArg State.frame hstate).trans rfl

theorem policyProper : PolicyProper (leniency env) := env.speaks_any.policy

/-! ### Rules -/

/-- A rule set is entered on both sides, or on neither. -/
theorem computes_entering (rs : RuleSet) (hm : ∀ w, (leniency env).Computes w P B m fun _ => m') :
    (leniency env).Computes w P B ((env.withStrict true).entering rs m)
      fun _ => (env.withStrict false).entering rs m' := by
  have hdepth : (env.withStrict false).options.maxDepth = (env.withStrict true).options.maxDepth := rfl
  refine ⟨fun _ => trivial, ?_⟩
  rintro hP v hv _ s rfl hfol
  simp only [Env.run_entering, hdepth] at hfol ⊢
  by_cases hcalled : s.inProgress.contains rs.name
  · simp only [if_pos hcalled]
    exact ⟨_, .of_forall fun _ => rfl, .inl ⟨rfl, rfl, rfl⟩⟩
  · simp only [if_neg hcalled] at hfol ⊢
    by_cases hdeep : (env.withStrict true).options.maxDepth ≤ s.depth
    · simp only [if_pos hdeep]
      exact ⟨_, .of_forall fun _ => rfl, .inl ⟨rfl, rfl, rfl⟩⟩
    · simp only [if_neg hdeep] at hfol ⊢
      have hinside : (leniency env).Computes v P B (Eval.inside rs.name m) fun _ => Eval.inside rs.name m' := by
        refine .inside ?_ lawful hm
        rintro v s _ rfl
        refine ⟨v, rfl, ?_⟩
        rintro s₁ _ hs₁ rfl
        exact State.exiting_of_frame hs₁
      exact hinside.2 hP v hv s s rfl hfol

/-- A document is remembered on both sides, or on neither. -/
theorem computes_recalling (rs : RuleSet) {m m' : Eval (Option Term)}
    (hm : (leniency env).Computes w P (Both (IfSome (Term.VarsIn (leniency env).names))) m fun _ => m') :
    (leniency env).Computes w P (Both (IfSome (Term.VarsIn (leniency env).names))) (rs.recalling m)
      fun _ => rs.recalling m' := by
  refine ⟨fun _ => trivial, ?_⟩
  rintro hP v hv _ s rfl hfol
  simp only [RuleSet.run_recalling] at hfol ⊢
  by_cases hkind : rs.kind = .function
  · simp only [if_pos hkind]
    exact ⟨_, .of_forall fun _ => rfl, .inl ⟨⟨rfl, Vocabulary.varsIn_any none⟩, rfl, rfl⟩⟩
  · simp only [if_neg hkind] at hfol ⊢
    cases hremembered : s.remembered? rs.path with
    | some value => exact ⟨_, .of_forall fun _ => rfl, .inl ⟨⟨rfl, Vocabulary.varsIn_any value⟩, rfl, rfl⟩⟩
    | none =>
      simp only [hremembered] at hfol
      have hfollowed : (leniency env).Followed (m.run s).1 (m.run s).2.answers := by
        refine ⟨fun e he => hfol.1 e ?_, trivial⟩
        rcases hrun : m.run s with ⟨e' | value, s₁⟩ <;> rw [hrun] at he
        · exact he
        · cases he
      obtain ⟨r', hr', hagree⟩ := hm.2 hP v hv s s rfl hfollowed
      obtain ⟨hres, hrel, hframe⟩ := hagree.resolve_right fun ⟨_, _, he⟩ => he
      obtain rfl : m'.run s = r' := Filter.eventually_top.1 hr' ()
      refine ⟨_, .of_forall fun _ => rfl, .inl ?_⟩
      rcases hs : m.run s with ⟨e | value, s₁⟩ <;> rcases ht : m'.run s with ⟨e' | value', t₁⟩ <;>
        rw [hs, ht] at hres hrel <;> rw [hs] at hframe
      · exact ⟨hres, hrel, hframe⟩
      · exact hres.elim
      · exact hres.elim
      · cases hrel
        obtain ⟨rfl, -⟩ := hres
        exact ⟨⟨rfl, Vocabulary.varsIn_any _⟩, rfl, hframe⟩

/-- Rules answer alike at every depth of nesting. -/
theorem rulesAnswer (n : Nat) :
    RulesAnswer (leniency env) ((env.withStrict true).rulesTo n) fun _ => (env.withStrict false).rulesTo n := by
  induction n with
  | zero => exact ⟨fun _ _ => computes_throw lawful _, fun _ _ _ => computes_throw lawful _⟩
  | succ n ih =>
    refine ⟨fun w rs => computes_recalling rs (computes_entering rs fun w => ?_),
      fun w rs args => computes_entering rs fun w => ?_⟩
    · exact computes_evalDocument lawful ih rs (policyProper rs) (computes_candidates lawful ih rfl rs)
    · exact computes_evalFunction lawful ih rs args (fun hP => policyProper rs hP.1) And.right

end leniency
end Coupling

namespace Env

variable (env : Env)

/-- A query that does not end with the failure of a built-in ends alike where failures leave calls undefined. -/
theorem evalQuery_lenient (body : Body) (deliver : Solution → α → Reply × α)
    (hdeliver : ∀ solution found, (deliver solution found).1.cancel = false) (found : α) (s : State)
    (h : ∀ e, ((env.withStrict true).evalQuery body deliver found s).outcome = .error e → ¬e.IsBuiltin) :
    ((env.withStrict false).evalQuery body deliver found s).outcome =
        ((env.withStrict true).evalQuery body deliver found s).outcome ∧
      ((env.withStrict false).evalQuery body deliver found s).found =
        ((env.withStrict true).evalQuery body deliver found s).found := by
  have hsim := Coupling.simulates_evalQueryBy (C := Coupling.leniency env) (w := ()) (P := True)
    Coupling.leniency.lawful (Coupling.leniency.rulesAnswer (env.policy.ruleSets.length + 1)) body
    (fun _ => Vocabulary.body_any _ body) hdeliver
  obtain ⟨r', hr', hmatch⟩ := hsim.2 trivial () trivial found found s s rfl rfl ⟨h, trivial⟩ trivial
  obtain ⟨hout, ⟨hfound, _⟩, _⟩ := hmatch.resolve_right fun ⟨_, _, he⟩ => he
  obtain rfl : (env.withStrict false).evalQuery body deliver found s = r' := Filter.eventually_top.1 hr' ()
  exact ⟨hout, hfound.symm⟩

end Env

/-! ## Engines -/

namespace Engine

def withStrict (strict : Bool) (e : Engine) : Engine := { e with options := e.options.withStrict strict }

/-- Engines that differ in strictness only start their evaluations alike. -/
theorem run_withStrict (e : Engine) : (∃ err, ∀ (β : Type) strict (failed : EvalError → β) body,
      ((e.withStrict strict).run none failed body).1.result = failed err) ∨
    ∃ env s, ∀ (β : Type) strict (failed : EvalError → β) body,
      ((e.withStrict strict).run none failed body).1.result = (body (Env.withStrict strict env) s).1 := by
  cases hp : e.policy with
  | some policy =>
    refine .inr ⟨{ e with store := e.store.beginRead.2 }.env policy e.store.beginRead.1,
      { e with store := e.store.beginRead.2 }.start, fun β strict failed body => ?_⟩
    simp only [run, compile, withStrict, hp]
    rfl
  | none =>
    cases hc : Policy.compile e.modules with
    | error cause =>
      refine .inl ⟨.compile cause, fun β strict failed body => ?_⟩
      simp only [run, compile, withStrict, hp, hc]
    | ok policy =>
      refine .inr ⟨{ e with store := e.store.beginRead.2 }.env policy e.store.beginRead.1,
        { e with store := e.store.beginRead.2 }.start, fun β strict failed body => ?_⟩
      simp only [run, compile, withStrict, hp, hc]
      rfl

/-- Lenient evaluation is a conservative extension of strict evaluation: a query that has solutions has the same ones in
the same order, and a query that ends with an error other than the failure of a built-in ends with the same one. -/
theorem evalQuery_conservative (e : Engine) (query : Body) :
    (∀ solutions, ((e.withStrict true).evalQuery query).1.result = .ok solutions →
      ((e.withStrict false).evalQuery query).1.result = .ok solutions) ∧
    ∀ err, ((e.withStrict true).evalQuery query).1.result = .error err → ¬err.IsBuiltin →
      ((e.withStrict false).evalQuery query).1.result = .error err := by
  suffices hsame : (∀ err, ((e.withStrict true).evalQuery query).1.result = .error err → ¬err.IsBuiltin) →
      ((e.withStrict false).evalQuery query).1.result = ((e.withStrict true).evalQuery query).1.result by
    refine ⟨fun solutions h => ?_, fun err h hother => ?_⟩
    · exact (hsame fun err herr => by rw [h] at herr; cases herr).trans h
    · refine (hsame fun err' herr => ?_).trans h
      rw [h] at herr
      cases herr
      exact hother
  intro h
  simp only [evalQuery, evalQueryWith] at h ⊢
  rcases e.run_withStrict with ⟨err, hrun⟩ | ⟨env, s, hrun⟩
  · simp only [hrun]
  · simp only [hrun] at h ⊢
    obtain ⟨hout, hfound⟩ := env.evalQuery_lenient query
      (fun solution found => ({}, found.push solution)) (fun _ _ => rfl) #[] s
      fun err herr => h err (by rw [herr]; rfl)
    rw [hout, hfound]

/-! ### Divisions that succeed, fail, and are refused -/

namespace Quotients

def engine : Engine where
  clock := { step := 1 }

/-- A quotient of twelve, under a variable. -/
def quotient (divisor : Term) : Body :=
  [.mk (.term (.call (.ref (.var "eq") []) [.var "x", .call (.ref (.var "div") []) [.number 12, divisor]])) false [] 0]

def result (strict : Bool) (divisor : Term) : Except EvalError (List Solution) :=
  ((engine.withStrict strict).evalQuery (quotient divisor)).1.result

/-- The position of the operand that is refused. -/
def refused? : Except EvalError (List Solution) → Option Nat
  | .error (.typeMismatch _ position _ _) => some position
  | _ => none

/-- A quotient is the same either way, and so is the refusal of a string as divisor. Division by zero fails strictly,
and has no solutions leniently. -/
theorem evalQuery_quotients :
    (∃ solutions, result true (.number 4) = .ok solutions ∧ result false (.number 4) = .ok solutions ∧
      (solutions.map fun s => s.bindings.map Prod.snd) == [[.number 3]]) ∧
    (∃ err, ¬err.IsBuiltin ∧ result true (.string "a") = .error err ∧ result false (.string "a") = .error err) ∧
    (result true (.number 0)).isOk = false ∧ (result false (.number 0)).isOk = true := by
  refine ⟨?_, ?_, by decide +kernel, by decide +kernel⟩
  · have hok : result true (.number 4) = .ok ((result true (.number 4)).toOption.getD []) :=
      Except.eq_ok_of_isOk (by decide +kernel) []
    exact ⟨_, hok, (engine.evalQuery_conservative (quotient (.number 4))).1 _ hok, by decide +kernel⟩
  · have hrefused : refused? (result true (.string "a")) = some 2 := by decide +kernel
    rcases hr : result true (.string "a") with err | solutions
    · have hother : ¬err.IsBuiltin := fun h => by
        rw [hr] at hrefused
        cases err <;> first | exact h | cases hrefused
      exact ⟨err, hother, rfl, (engine.evalQuery_conservative (quotient (.string "a"))).2 err hr hother⟩
    · rw [hr] at hrefused
      cases hrefused

end Quotients
end Engine
end PolicyEngine
