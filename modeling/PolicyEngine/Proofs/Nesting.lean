import PolicyEngine.Proofs.Reading
import PolicyEngine.Proofs.Recording

/-!
The rule sets in progress. Throughout an evaluation they are different rule sets of the policy, as many as the depth
says, so they are never more than the policy has. A rule set is refused when it is in progress already; too many are
nested only where fewer may be than there are.
-/
namespace PolicyEngine

/-- When a rule set is left, those around it are in progress. -/
theorem State.Nested.left {policy : Policy} {s t : State} {name : String} (h : t.Nested policy)
    (hprogress : t.inProgress = s.inProgress ++ [name]) (hdepth : t.depth = s.depth + 1) :
    (s.returning t).Nested policy := by
  refine ⟨?_, ?_, fun other hother => ?_⟩
  · have hlength := h.depth
    rw [hdepth, hprogress, List.length_append, List.length_singleton] at hlength
    exact Nat.succ.inj hlength
  · have hnodup := h.nodup
    rw [hprogress] at hnodup
    exact hnodup.of_append_left
  · exact h.names other (hprogress ▸ List.mem_append_left _ hother)

namespace Course

variable {env : Env} {c c' : Course}

/-- At every moment the rule sets in progress are different ones of the policy, and a rule set is refused for being one
of them or for their number. -/
structure Nested (env : Env) (c : Course) : Prop where
  states : ∀ m ∈ c.moments, m.state.Nested env.policy
  circles : ∀ m ∈ c.moments, ∀ chain, m.refused = some (.recursion chain) →
    ∃ name ∈ m.state.inProgress, chain = m.state.inProgress ++ [name]
  depths : ∀ m ∈ c.moments, ∀ name, m.refused = some (.internal (.depthExceeded name)) →
    env.options.maxDepth < env.policy.ruleSets.length

theorem nested_start {s : State} (h : s.Nested env.policy) : (start s).Nested env := by
  refine ⟨?_, ?_, ?_⟩ <;> rintro m (_ | ⟨_, ⟨⟩⟩)
  · exact h
  · exact fun _ he => by cases he
  · exact fun _ he => by cases he

/-- A moment at which no rule set is refused. -/
theorem Nested.reach (h : c.Nested env) {m : Moment} (hm : m.state.Nested env.policy) (hnone : m.refused = none) :
    (c.reach m).Nested env := by
  refine ⟨List.forall_mem_cons.2 ⟨hm, h.states⟩, List.forall_mem_cons.2 ⟨fun chain he => ?_, h.circles⟩,
    List.forall_mem_cons.2 ⟨fun name he => ?_, h.depths⟩⟩
  · cases hnone.symm.trans he
  · cases hnone.symm.trans he

/-- Every move keeps rule sets nested. -/
theorem Nested.move (h : c.Nested env) (hmove : c.Moves env c') : c'.Nested env := by
  have hnow : c.state.Nested env.policy := h.states _ c.now_mem
  cases hmove with
  | stay hs =>
    have hcontext := hs.context
    simp only [State.context, Context.mk.injEq] at hcontext
    exact h.reach (hnow.congr hcontext.2.1 hcontext.2.2) rfl
  | remember path value => exact h.reach (hnow.congr rfl rfl) rfl
  | enter hrs hfree => exact h.reach (hnow.entered hrs hfree) rfl
  | leave hprogress hdepth => exact h.reach (hnow.left hprogress hdepth) rfl
  | @refuseCircle name hmem =>
    refine ⟨List.forall_mem_cons.2 ⟨hnow, h.states⟩, List.forall_mem_cons.2 ⟨fun chain he => ?_, h.circles⟩,
      List.forall_mem_cons.2 ⟨(fun _ he => by cases he), h.depths⟩⟩
    cases he
    exact ⟨name, hmem, rfl⟩
  | refuseDepth hrs hfree hdeep =>
    -- the refused rule set would be one more of the policy's
    have hle : c.state.depth + 1 ≤ env.policy.ruleSets.length := (hnow.entered hrs hfree).depth_le
    refine ⟨List.forall_mem_cons.2 ⟨hnow, h.states⟩, List.forall_mem_cons.2 ⟨(fun _ he => by cases he), h.circles⟩,
      List.forall_mem_cons.2 ⟨fun _ _ => ?_, h.depths⟩⟩
    omega
  | openScope σ => exact h.reach (hnow.congr rfl rfl) rfl
  | setScope hm hopened => exact h.reach (hnow.congr rfl rfl) rfl
  | closeScope hm hopened => exact h.reach (hnow.congr rfl rfl) rfl

theorem Nested.run (h : c.Nested env) (hruns : c.Runs env c') : c'.Nested env := by
  induction hruns with
  | refl => exact h
  | tail _ hmove ih => exact ih.move hmove

/-- How rule sets are nested in an evaluation with an outcome. Their names are all different, as many as the depth and
not more than the policy has rule sets. A recursion error names the rule sets in progress and one of them once more, and
no evaluation is too deep where as many rule sets as the policy has may be nested. -/
structure NestedTo (env : Env) (outcome : Except EvalError β) (c : Course) : Prop where
  names : ∀ m ∈ c.moments, m.state.inProgress.Nodup ∧ m.state.inProgress.length = m.state.depth ∧
    m.state.inProgress.length ≤ env.policy.ruleSets.length
  circle : ∀ m ∈ c.moments, ∀ chain, m.refused = some (.recursion chain) →
    ∃ name ∈ m.state.inProgress, chain = m.state.inProgress ++ [name]
  recursion : ∀ chain, outcome = .error (.recursion chain) → c.Refused (.recursion chain)
  depth : env.policy.ruleSets.length ≤ env.options.maxDepth → ∀ name,
    outcome ≠ .error (.internal (.depthExceeded name)) ∧ ¬c.Refused (.internal (.depthExceeded name))

theorem Comes.nestedTo {outcome : Except EvalError β} (h : c.Comes env outcome c') (hc : c.Nested env) :
    c'.NestedTo env outcome := by
  have hnested := hc.run h.runs
  have hdepth : env.policy.ruleSets.length ≤ env.options.maxDepth → ∀ name,
      ¬c'.Refused (.internal (.depthExceeded name)) := by
    rintro hle name ⟨m, hm, he⟩
    have hlt := hnested.depths m hm name he
    omega
  refine ⟨fun m hm => ?_, hnested.circles, fun chain he => h.refused _ he trivial,
    fun hle name => ⟨?_, hdepth hle name⟩⟩
  · have hstate := hnested.states m hm
    exact ⟨hstate.nodup, hstate.depth.symm, hstate.depth ▸ hstate.depth_le⟩
  · exact fun he => hdepth hle name (h.refused _ he trivial)

end Course

/-- The rule sets in progress are nested throughout the evaluation of a query and of a document, which the recorded
evaluations are. -/
theorem evaluation_nested {α : Type} (e : Engine) (policy : Policy) (txn : Transaction) :
    (∀ (body : Body) (deliver : Solution → α → Reply × α) (first : α),
      let r := Course.evalQuery (e.env policy txn) body deliver first (.start e.start)
      (e.env policy txn).evalQuery body deliver first e.start = r.erase ∧
        r.course.NestedTo (e.env policy txn) r.outcome) ∧
    ∀ path : DataPath,
      let r := (Course.evalPath (e.env policy txn) path).run (.start e.start)
      ((e.env policy txn).evalPath path).run e.start = (r.1, r.2.state) ∧ r.2.NestedTo (e.env policy txn) r.1 := by
  have hstart : (Course.start e.start).Nested (e.env policy txn) :=
    Course.nested_start (Course.atLevel_start e (e.env policy txn)).nested
  constructor
  · intro body deliver first
    obtain ⟨herases, hcomes⟩ := Course.evalQuery_recorded e policy txn body deliver first
    exact ⟨herases, hcomes.nestedTo hstart⟩
  · intro path
    obtain ⟨herases, hcomes⟩ := Course.evalPath_recorded e policy txn path
    exact ⟨herases, hcomes.nestedTo hstart⟩

/-! ### Two documents that ask for each other -/

namespace Circle

open Hidden in
def modules : List Module :=
  [⟨["t"], [holds "p" [asks [.string "t", .string "q"] []], holds "q" [asks [.string "t", .string "p"] []]]⟩]

def policy : Policy := (Policy.compile modules).toOption.getD {}

def engine : Engine := { clock := { step := 1 } }

def env : Env := engine.env policy engine.store.beginRead.1

def chain? : Except EvalError β → Option (List String)
  | .error (.recursion chain) => some chain
  | _ => none

theorem eq_of_chain? {outcome : Except EvalError β} {chain : List String} (h : chain? outcome = some chain) :
    outcome = .error (.recursion chain) := by
  unfold chain? at h
  split at h <;> cases h
  rfl

def recorded : Except EvalError (Option Term) × Course := (Course.evalPath env ["t", "p"]).run (.start engine.start)

theorem recorded_circle : recorded.1 = .error (.recursion ["data.t.p", "data.t.q", "data.t.p"]) :=
  eq_of_chain? (by decide +kernel)

/-- The first of the documents is asked for while the second is in progress, within the first. -/
theorem evaluation_circle :
    Policy.compile modules = .ok policy ∧
    ((env.evalPath ["t", "p"]).run engine.start).1 = .error (.recursion ["data.t.p", "data.t.q", "data.t.p"]) ∧
    ∃ m ∈ recorded.2.moments, ∃ name ∈ m.state.inProgress,
      m.refused = some (.recursion ["data.t.p", "data.t.q", "data.t.p"]) ∧
      ["data.t.p", "data.t.q", "data.t.p"] = m.state.inProgress ++ [name] := by
  have hrecorded : ((env.evalPath ["t", "p"]).run engine.start = (recorded.1, recorded.2.state)) ∧
      recorded.2.NestedTo env recorded.1 :=
    (@evaluation_nested Unit engine policy engine.store.beginRead.1).2 ["t", "p"]
  obtain ⟨m, hm, hrefused⟩ := hrecorded.2.recursion _ recorded_circle
  obtain ⟨name, hname, heq⟩ := hrecorded.2.circle m hm _ hrefused
  refine ⟨Except.eq_ok_of_isOk (by decide +kernel) {}, ?_, m, hm, name, hname, hrefused, heq⟩
  rw [hrecorded.1, recorded_circle]

end Circle

end PolicyEngine
