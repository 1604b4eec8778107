import PolicyEngine.Engine
import PolicyEngine.Proofs.Pairing

/-!
Queries under a given meaning of rules. A query respects every lawful coupling as long as its caller does not ask for
cancellation, so what two meanings of rules make of it can be compared.
-/
namespace PolicyEngine

/-- Hands the solutions of a query to a caller until it wants no more. -/
def Env.evalQueryBy (env : Env) (rules : RuleSemantics) (body : Body) (deliver : Solution → α → Reply × α) :
    Search α :=
  Search.after (do
      let depth := (← get).depth
      env.emit .enter depth fun _ => "query"
      pure depth) fun depth =>
    env.evalBody rules body (Search.after (env.emit .exit depth fun _ => "query") fun _ found s =>
      let (reply, found) := deliver (Query.solution (Query.vars body) s.bindings) found
      ⟨.ok reply.flow, found, { s with cancelled := s.cancelled || reply.cancel }⟩)

theorem Env.evalQuery_eq (env : Env) (body : Body) (deliver : Solution → α → Reply × α) :
    env.evalQuery body deliver = env.evalQueryBy env.rules body deliver := rfl

/-- The solutions of a query in the order they are found, under a meaning of rules. -/
def Engine.evalQueryBy (rules : Env → RuleSemantics) (query : Body) (e : Engine) :
    Report (Except EvalError (List Solution)) × Engine :=
  let (report, e) := e.run none (fun err => (.error err, #[])) fun env s =>
    let r := env.evalQueryBy (rules env) query (fun solution found => ({}, found.push solution)) #[] s
    ((r.outcome.map fun _ => (), r.found), r.state)
  ({ report with result := report.result.1.map fun _ => report.result.2.toList }, e)

theorem Engine.evalQuery_eq (e : Engine) (query : Body) : e.evalQuery query = e.evalQueryBy Env.rules query := rfl

/-- The policy of an engine, once compiled, is that of its modules. -/
def Engine.Compiled (e : Engine) : Prop := ∀ policy, e.policy = some policy → Policy.compile e.modules = .ok policy

/-- Nothing ends the evaluations of an engine from outside. -/
structure Engine.Unlimited (e : Engine) : Prop where
  untimed : e.options.timer = none ∧ e.fallbackTimer = none
  uncancelled : (e.options.cancellable && e.cancelled) = false

/-- An evaluation of an engine whose modules compile is one against the policy of its modules and a snapshot of its
store. -/
theorem Engine.run_compiled (e : Engine) (hcompiled : e.Compiled) {policy : Policy}
    (hpolicy : Policy.compile e.modules = .ok policy) {β : Type} (failed : EvalError → β)
    (body : Env → State → β × State) :
    (e.run none failed body).1.result =
      (body ({ e with store := e.store.beginRead.2 }.env policy e.store.beginRead.1)
        { e with store := e.store.beginRead.2 }.start).1 := by
  cases hp : e.policy with
  | some known =>
    cases (hcompiled known hp).symm.trans hpolicy
    simp only [Engine.run, Engine.compile, hp]
  | none =>
    simp only [Engine.run, Engine.compile, hp, hpolicy]
    rfl

/-- The evaluations of an engine start alike: with the policy of its modules, against one snapshot of its store. -/
theorem Engine.run_cases (e : Engine) (hcompiled : e.Compiled) :
    (∃ err, ∀ (β : Type) options (failed : EvalError → β) body,
      ({ e with options := options }.run none failed body).1.result = failed err) ∨
    ∃ policy txn store, Policy.compile e.modules = .ok policy ∧
      ∀ (β : Type) options (failed : EvalError → β) body,
        ({ e with options := options }.run none failed body).1.result =
          (body ({ e with options := options, store := store }.env policy txn)
            { e with options := options, store := store }.start).1 := by
  cases hc : Policy.compile e.modules with
  | ok policy =>
    refine .inr ⟨policy, e.store.beginRead.1, e.store.beginRead.2, rfl, fun β options failed body => ?_⟩
    exact { e with options := options }.run_compiled hcompiled hc failed body
  | error cause =>
    refine .inl ⟨.compile cause, fun β options failed body => ?_⟩
    cases hp : e.policy with
    | some policy => cases hc.symm.trans (hcompiled policy hp)
    | none => simp only [Engine.run, Engine.compile, hc]

/-- An evaluation of an engine starts with nothing remembered, and nothing ends it from outside. -/
theorem Engine.Unlimited.calm_start {e : Engine} (h : e.Unlimited) (policy : Policy) (txn : Transaction) (store : Store) :
    { e with store := store }.start.Calm ({ e with store := store }.env policy txn) := by
  refine ⟨?_, h.uncancelled⟩
  simp only [Engine.start, Clock.read, Option.map_some, Option.getD_some, Timer.begin, h.untimed.1, h.untimed.2]
  rfl

namespace Coupling

variable {ι : Type} {C : Coupling ι} {α : Type} {w : C.World} {P : Prop} {rules : RuleSemantics}
  {rules' : ι → RuleSemantics}

/-- A caller that does not ask for cancellation sees the same solutions. -/
theorem simulates_deliver (h : C.Lawful) (names : List String) {deliver : Solution → α → Reply × α}
    (hdeliver : ∀ solution found, (deliver solution found).1.cancel = false) :
    C.Simulates w P { rel := Eq } (fun found s =>
        let (reply, found) := deliver (Query.solution names s.bindings) found
        ⟨.ok reply.flow, found, { s with cancelled := s.cancelled || reply.cancel }⟩)
      fun _ found s =>
        let (reply, found) := deliver (Query.solution names s.bindings) found
        ⟨.ok reply.flow, found, { s with cancelled := s.cancelled || reply.cancel }⟩ := by
  refine ⟨fun _ _ => ⟨h.grows_refl _, fun _ => trivial⟩, ?_⟩
  rintro _ _ _ found _ s t rfl hst _ _
  refine ⟨_, .of_forall fun _ => rfl, .inl ?_⟩
  have hsame : deliver (Query.solution names t.bindings) found = deliver (Query.solution names s.bindings) found := by
    rw [h.bindings_eq hst]
  simp only [hsame, hdeliver, Bool.or_false]
  exact ⟨trivial, ⟨rfl, fun _ => trivial⟩, hst, trivial⟩

/-- A query is entered on both sides. -/
theorem computes_enterQuery (h : C.Lawful) :
    C.Computes w P C.depths (do
        let depth := (← get).depth
        C.env.emit .enter depth fun _ => "query"
        pure depth)
      (fun _ => do
        let depth := (← get).depth
        C.env'.emit .enter depth fun _ => "query"
        pure depth) := by
  refine computes_get h fun v _ s t => ?_
  refine ((h.emit v .enter s.depth t.depth _).guard fun hP => h.depth hP.2).bind h fun _ _ => ?_
  exact computes_pure h fun hP => h.depth hP.1.2

theorem simulates_evalQueryBy (h : C.Lawful) (hr : RulesAnswer C rules rules') (body : Body)
    (hbody : P → Expr.ProperBody C.names (TargetIn C) body) {deliver : Solution → α → Reply × α}
    (hdeliver : ∀ solution found, (deliver solution found).1.cancel = false) :
    C.Simulates w P { rel := Eq } (C.env.evalQueryBy rules body deliver)
      fun i => C.env'.evalQueryBy (rules' i) body deliver := by
  refine (computes_enterQuery h).after h fun depth depth' => bodyAnswers h hr body (fun hP => hbody hP.1) ?_
  refine ((h.emit w .exit depth depth' _).guard And.right).after h fun _ _ => ?_
  exact simulates_deliver h _ hdeliver

end Coupling
end PolicyEngine
