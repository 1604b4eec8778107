import Mathlib.Data.List.Nodup
import Mathlib.Data.List.Perm.Subperm
import PolicyEngine.Proofs.Alike
import PolicyEngine.Proofs.Backtracking
import PolicyEngine.Proofs.Compiled

/-!
What an evaluation came to once, it comes to again. An evaluation that succeeded is an ideal one; and beside an ideal
evaluation one that remembers documents comes to the same, whatever it remembers already, unless it is refused a rule
set: because the rule set is in progress, or because too many are.
-/
namespace PolicyEngine

/-! ## Settled answers -/

/-- Nondeterministic built-ins answer by a fixed function of their name and operands, and fail where it has nothing.
Equal operands are the same to it. -/
structure Env.Settled (env : Env) (f : String → List Term → Option (Option Term)) : Prop where
  respects : ∀ name args args', (args == args') = true → f name args = f name args'
  answers : ∀ b, env.registry.Callable b → b.deterministic = false → ∀ args s,
    (env.outcome b args s).1.toOption = f b.name args

/-- What settled built-ins answer, where they answer. -/
def Env.settledAnswer (f : String → List Term → Option (Option Term)) (name : String) (args : List Term) :
    Option Term :=
  (f name args).getD none

/-- The answers kept are those of a function that may have none. -/
def BuiltinAnswer.From (f : String → List Term → Option (Option Term)) (answers : List BuiltinAnswer) : Prop :=
  ∀ a ∈ answers, f a.name a.operands = some a.result

theorem Except.eq_ok_of_toOption {ε β : Type} {r : Except ε β} {b : β} (h : r.toOption = some b) : r = .ok b := by
  cases r with
  | error e => cases h
  | ok c =>
    cases h
    rfl

section Settled

variable {env : Env} {f : String → List Term → Option (Option Term)} {b : Builtin} {args : List Term} {s s' : State}
  {answer : Option Term}

theorem BuiltinAnswer.From.by {answers : List BuiltinAnswer} (h : BuiltinAnswer.From f answers) :
    BuiltinAnswer.By (Env.settledAnswer f) answers := by
  intro a ha
  rw [Env.settledAnswer, h a ha]
  rfl

theorem Env.Settled.fixed (h : env.Settled f) : env.Fixed (Env.settledAnswer f) := by
  refine ⟨fun name args args' hargs => ?_, fun b hb hdet args s answer hout => ?_⟩
  · rw [settledAnswer, settledAnswer, h.respects name args args' hargs]
  · rw [settledAnswer, ← h.answers b hb hdet args s, hout]
    rfl

theorem Env.Settled.eq_of_lookup (h : env.Settled f) {answers : List BuiltinAnswer} (hfrom : BuiltinAnswer.From f answers)
    {name : String} (hlookup : BuiltinAnswer.lookup answers name args = some answer) : f name args = some answer := by
  obtain ⟨a, hfind, rfl⟩ := Option.map_eq_some_iff.1 hlookup
  have hkey := List.find?_some hfind
  simp only [Bool.and_eq_true, beq_iff_eq] at hkey
  rw [← hfrom a (List.mem_of_find?_eq_some hfind), hkey.1]
  exact (h.respects name _ _ hkey.2).symm

/-- A call that is answered is answered by the function, and so are the calls after it. -/
theorem Env.Settled.callBuiltin (h : env.Settled f) (hb : env.registry.Callable b) (hdet : b.deterministic = false)
    (href : Env.refusal? b args = none) (hfrom : BuiltinAnswer.From f s.answers)
    (hrun : (env.callBuiltin b args).run s = (.ok answer, s')) :
    f b.name args = some answer ∧ BuiltinAnswer.From f s'.answers := by
  rcases Env.answer_cases hdet href hrun with ⟨hold, rfl⟩ | ⟨_, hout, rfl⟩
  · exact ⟨h.eq_of_lookup hfrom hold, hfrom⟩
  · have hanswer : f b.name args = some answer := by
      rw [← h.answers b hb hdet args s, hout]
      rfl
    refine ⟨hanswer, fun a ha => ?_⟩
    rcases List.mem_cons.1 ha with rfl | ha
    · exact hanswer
    · exact hfrom a ha

/-- A call for which the function has an answer is given that answer. -/
theorem Env.Settled.run_callBuiltin (h : env.Settled f) (hb : env.registry.Callable b) (hdet : b.deterministic = false)
    (href : Env.refusal? b args = none) (hfrom : BuiltinAnswer.From f s.answers) (hanswer : f b.name args = some answer) :
    ∃ s', (env.callBuiltin b args).run s = (.ok answer, s') := by
  cases hlookup : BuiltinAnswer.lookup s.answers b.name args with
  | some old =>
    refine ⟨s, ?_⟩
    rw [h.eq_of_lookup hfrom hlookup] at hanswer
    cases hanswer
    exact Env.run_callBuiltin_answered hdet href hlookup
  | none =>
    have hout : (env.outcome b args s).1 = .ok answer :=
      Except.eq_ok_of_toOption ((h.answers b hb hdet args s).trans hanswer)
    exact ⟨_, by rw [Env.run_callBuiltin_new hdet href hlookup, hout]⟩

theorem Env.Settled.from_callBuiltin (h : env.Settled f) (hb : env.registry.Callable b) (args : List Term)
    (hfrom : BuiltinAnswer.From f s.answers) : BuiltinAnswer.From f ((env.callBuiltin b args).run s).2.answers := by
  rw [Env.run_callBuiltin]
  cases href : Env.refusal? b args with
  | some r => exact hfrom
  | none =>
    cases hdet : b.deterministic with
    | true =>
      simp only [if_true, Env.run_runBuiltin]
      exact hfrom
    | false =>
      rcases hrun : (env.callBuiltin b args).run s with ⟨e | answer, s'⟩
      · rw [Env.run_callBuiltin, href, hdet] at hrun
        simp only [Bool.false_eq_true, if_false] at hrun ⊢
        cases hlookup : s.answered? b.name args with
        | some r => exact hfrom
        | none =>
          simp only [hlookup, Env.run_runBuiltin] at hrun ⊢
          cases hres : env.builtinResult b args (b.invoke _ args s.host).1 with
          | error e => exact hfrom
          | ok r =>
            rw [hres] at hrun
            cases hrun
      · have hanswers := (h.callBuiltin hb hdet href hfrom hrun).2
        rw [Env.run_callBuiltin, href, hdet] at hrun
        simp only [Bool.false_eq_true, if_false] at hrun ⊢
        rw [hrun]
        exact hanswers

end Settled

/-! ### Ideal evaluations -/

namespace Coupling.framing

variable {env : Env} {keeps : List BuiltinAnswer → Prop}

theorem Keeps.isolated {m : Eval β} (hm : Keeps keeps m) : Keeps keeps m.isolated := by
  intro s hs
  obtain ⟨hframe, hk⟩ := hm { s with bindings := {} } hs
  refine ⟨?_, hk⟩
  have hscope : (m.run { s with bindings := {} }).2.scope = s.scope := congrArg Frame.scope hframe
  simp only [Eval.isolated, Eval.run_nested, State.frame, State.returning, hscope]

theorem Keeps.forgetting {m : Eval (Option Term)} (hm : Keeps keeps m) (rs : RuleSet) :
    Keeps keeps (rs.forgetting m) := by
  rw [RuleSet.forgetting]
  split
  · exact fun s hs => ⟨rfl, hs⟩
  · exact hm

/-- Ideal rules restore the frame. -/
theorem idealAnswer (hlaw : (framing env keeps).Lawful) (n : Nat) :
    RulesAnswer (framing env keeps) (env.idealTo n) fun _ => env.idealTo n := by
  induction n with
  | zero => exact rulesAnswer_of_keeps (fun _ _ => .throw _) fun _ _ _ => .throw _
  | succ n ih =>
    exact rulesAnswer_of_keeps (fun rs _ => (keeps_evalDocument hlaw ih rs).isolated.forgetting rs)
      fun rs _ args => (keeps_evalFunction hlaw ih rs args).isolated

end Coupling.framing

theorem Env.Settled.framing {env : Env} {f : String → List Term → Option (Option Term)} (h : env.Settled f) :
    (Coupling.framing env (BuiltinAnswer.From f)).Lawful :=
  Coupling.framing.lawful fun _ hb args _ hs => h.from_callBuiltin hb args hs

/-! ## Nesting -/

/-- The rule sets in progress are different ones of the policy, and their number is the depth. -/
structure State.Nested (policy : Policy) (s : State) : Prop where
  depth : s.depth = s.inProgress.length
  nodup : s.inProgress.Nodup
  names : ∀ name ∈ s.inProgress, ∃ rs ∈ policy.ruleSets, rs.name = name

theorem State.nested_of_empty {policy : Policy} {s : State} (hprogress : s.inProgress = []) (hdepth : s.depth = 0) :
    s.Nested policy := by
  refine ⟨?_, ?_, ?_⟩ <;> rw [hprogress]
  · exact hdepth
  · exact List.nodup_nil
  · exact nofun

theorem State.Nested.congr {policy : Policy} {s s₁ : State} (h : s.Nested policy)
    (hprogress : s₁.inProgress = s.inProgress) (hdepth : s₁.depth = s.depth) : s₁.Nested policy :=
  ⟨by rw [hdepth, hprogress, h.depth], hprogress ▸ h.nodup, hprogress ▸ h.names⟩

theorem State.Nested.entered {policy : Policy} {s : State} (h : s.Nested policy) {rs : RuleSet}
    (hrs : rs ∈ policy.ruleSets) (hfree : rs.name ∉ s.inProgress) : (s.entered rs.name).Nested policy := by
  refine ⟨?_, ?_, fun name hname => ?_⟩
  · simp [State.entered, h.depth]
  · refine List.nodup_append.2 ⟨h.nodup, List.nodup_singleton _, fun a ha b hb => ?_⟩
    rw [List.mem_singleton] at hb
    rintro rfl
    exact hfree (hb ▸ ha)
  · rcases List.mem_append.1 hname with hname | hname
    · exact h.names name hname
    · rw [List.mem_singleton] at hname
      exact ⟨rs, hrs, hname.symm⟩

/-- Different rule sets in progress are no more than the policy has. -/
theorem State.Nested.depth_le {policy : Policy} {s : State} (h : s.Nested policy) :
    s.depth ≤ policy.ruleSets.length := by
  have hsub : s.inProgress ⊆ policy.ruleSets.map RuleSet.name := by
    intro name hname
    obtain ⟨rs, hrs, hrsname⟩ := h.names name hname
    exact List.mem_map.2 ⟨rs, hrs, hrsname⟩
  have hle := (List.Nodup.subperm h.nodup hsub).length_le
  rw [h.depth]
  simpa using hle

/-- A rule set is refused: it is in progress already, or the policy has more rule sets than may be nested. -/
inductive Env.Refuses (env : Env) : EvalError → Prop
  | recursion (names : List String) : env.Refuses (.recursion names)
  | depth (name : String) (hdepth : env.options.maxDepth < env.policy.ruleSets.length) :
    env.Refuses (.internal (.depthExceeded name))

/-- Where rule sets may be nested as deep as there are, only recursion is refused. -/
theorem Env.Refuses.eq_recursion {env : Env} {e : EvalError} (h : env.Refuses e)
    (hdepth : env.policy.ruleSets.length ≤ env.options.maxDepth) : ∃ names, e = .recursion names := by
  cases h with
  | recursion names => exact ⟨names, rfl⟩
  | depth name hlt => omega

/-- A rule set that cannot be entered is refused. -/
theorem Env.run_entering_cases (env : Env) {rs : RuleSet} (hrs : rs ∈ env.policy.ruleSets) {s : State}
    (h : s.Nested env.policy) (m : Eval β) :
    (∃ e, ((env.entering rs m).run s).1 = .error e ∧ env.Refuses e) ∨
      rs.name ∉ s.inProgress ∧ (env.entering rs m).run s = (Eval.inside rs.name m).run s := by
  rw [Env.run_entering]
  split
  · exact .inl ⟨_, rfl, .recursion _⟩
  · next hfree =>
    have hfree : rs.name ∉ s.inProgress := by simpa using hfree
    split
    · next hdeep =>
      have hlt := (h.entered hrs hfree).depth_le
      have hdepth : s.depth + 1 ≤ env.policy.ruleSets.length := hlt
      exact .inl ⟨_, rfl, .depth rs.name (by omega)⟩
    · exact .inr ⟨hfree, rfl⟩

/-! ## The document that a rule set means -/

/-- A rule set means a document under overrides: the ideal rules come to no other. -/
def Env.Means (env : Env) (f : String → List Term → Option Term) (σ : Scope) (rs : RuleSet) (v : Option Term) : Prop :=
  ∀ n u v' u', Pairing.Alike env f .any σ u u → ((env.idealTo n).document rs).run u = (.ok v', u') → v' = v

theorem Env.Means.congr {env : Env} {f : String → List Term → Option Term} {σ τ : Scope} {rs : RuleSet}
    {v : Option Term} (h : env.Means f σ rs v) (hagrees : σ.Agrees τ) : env.Means f τ rs v :=
  fun n u v' u' hu hrun => h n u v' u'
    { hu with overrides := Vocabulary.scope_any _, scope := hagrees.trans hu.scope, scope' := hagrees.trans hu.scope' } hrun

/-- What the first evaluation of a pairing came to, the second one comes to as well, unless it ends in an error of its
own. -/
theorem Pairing.of_run {p : Pairing Unit} {w : p.World} {P : Prop} {q : β → Prop} {m m' : Eval β} {b : β}
    {s t s₁ : State} (hlater : p.later w w) (hlimit : p.limit = ⊤) (hwithin : ∀ a, p.within a)
    (hm : p.coupling.Computes w P (Both q) m fun _ => m') (hP : P) (h : p.rel w s t) (hrun : m.run s = (.ok b, s₁)) :
    (q b ∧ ∃ t₁, m'.run t = (.ok b, t₁) ∧ p.rel w s₁ t₁ ∧ s₁.frame = s.frame) ∨
      ∃ e, (m'.run t).1 = .error e ∧ p.escapes e := by
  have hok : (m.run s).1 = .ok b := congrArg Prod.fst hrun
  obtain ⟨⟨out, t₁⟩, hr', hagree⟩ := hm.2 hP w hlater s t h ⟨fun _ he => Except.absurd_error hok he, hwithin _⟩
  have hr' : ∀ᶠ _ in p.limit, m'.run t = (out, t₁) := hr'
  rw [hlimit] at hr'
  rw [hrun] at hagree
  rw [Filter.eventually_top.1 hr' ()]
  rcases hagree with ⟨hres, hrel, hframe⟩ | hescapes
  · cases out with
    | error e => exact hres.elim
    | ok b' =>
      obtain ⟨rfl, hq⟩ := hres
      exact .inl ⟨hq, t₁, rfl, hrel, hframe⟩
  · exact .inr hescapes

theorem Search.run_gather (search : Search β) (start : β) (s : State) :
    (Search.gather search start).run s = ((search start s).outcome.map fun _ => (search start s).found,
      (search start s).state) := rfl

/-- What the first search of a pairing gathers and is admitted, the second one follows, unless it ends in an error of its
own. -/
theorem Pairing.of_search {p : Pairing Unit} {w : p.World} {α α' : Type} {P : Prop} {A : Gathering α α'} {m : Search α}
    {m' : Search α'} {a b : α} {a' : α'} {s t s₁ : State} (hlater : p.later w w) (hlimit : p.limit = ⊤)
    (hwithin : ∀ a, p.within a) (hm : p.coupling.Simulates w P A m fun _ => m') (hP : P) (h : p.rel w s t)
    (hA : A.rel a a') (hrun : (Search.gather m a).run s = (.ok b, s₁)) (hb : A.admits b) :
    (∃ b' t₁, (Search.gather m' a').run t = (.ok b', t₁) ∧ A.rel b b' ∧ p.rel w s₁ t₁ ∧ s₁.frame = s.frame) ∨
      ∃ e, ((Search.gather m' a').run t).1 = .error e ∧ p.escapes e := by
  rw [Search.run_gather] at hrun ⊢
  obtain ⟨hout, rfl⟩ := Prod.mk.inj hrun
  cases hflow : (m a s).outcome with
  | error e =>
    rw [hflow] at hout
    cases hout
  | ok flow =>
    rw [hflow] at hout
    obtain rfl : (m a s).found = b := by simpa [Except.map] using hout
    obtain ⟨r', hr', hmatch⟩ := hm.2 hP w hlater a a' s t hA h
      ⟨fun e he => (by rw [hflow] at he; cases he), hwithin _⟩ hb
    have hr' : ∀ᶠ _ in p.limit, m' a' t = r' := hr'
    rw [hlimit] at hr'
    rw [Filter.eventually_top.1 hr' ()]
    rcases hmatch with ⟨hout', hends, hrel, hframe⟩ | ⟨e, he, hescapes⟩
    · refine .inl ⟨r'.found, r'.state, ?_, hends.1, hrel, hframe⟩
      rw [hout', hflow]
      rfl
    · refine .inr ⟨e, ?_, hescapes⟩
      rw [he]
      rfl

namespace Pairing.alike

variable {env : Env} {f : String → List Term → Option Term} {σ : Scope} {s u : State}

theorem setBindings (h : Alike env f .any σ s s) (b : Bindings) :
    Alike env f .any σ { s with bindings := b } { s with bindings := b } :=
  { h with
    bindings := rfl, names := Vocabulary.bindings_any b
    calm := ⟨h.calm.1, h.calm.2⟩, calm' := ⟨h.calm'.1, h.calm'.2⟩ }

/-- The document of an ideal rule set does not depend on the environment. -/
theorem document_setBindings (n : Nat) (rs : RuleSet) (b : Bindings) (u : State) :
    (((env.idealTo n).document rs).run { u with bindings := b }).1 = (((env.idealTo n).document rs).run u).1 := by
  cases n with
  | zero => rfl
  | succ n =>
    simp only [Env.idealTo, RuleSet.forgetting]
    split
    · rfl
    · rfl

/-- A successful computation that respects the pairing comes to what it is said to come to, and leaves a state alike,
with its frame as it was. -/
theorem of_run {β : Type} {voc : Vocabulary} {P : Prop} {p : β → Prop} {m : Eval β} {b : β} {s₁ : State}
    (hm : (alike env f voc).coupling.Computes σ P (Both p) m fun _ => m) (hP : P) (h : Alike env f voc σ s s)
    (hrun : m.run s = (.ok b, s₁)) : p b ∧ Alike env f voc σ s₁ s₁ ∧ s₁.frame = s.frame := by
  rcases Pairing.of_run rfl rfl (fun _ => trivial) hm hP h hrun with ⟨hp, t₁, hrun', hrel, hframe⟩ | ⟨e, he, _⟩
  · cases hrun.symm.trans hrun'
    exact ⟨hp, hrel, hframe⟩
  · rw [hrun] at he
    cases he

/-- Two successful ideal evaluations under the same overrides come to the same, however deep each is nested. -/
theorem eq_of_runs {β : Type} {P : Prop} {p : β → Prop} {m : Nat → Eval β} {b b' : β} {s₁ u₁ : State} {n k : Nat}
    (hm : ∀ {n k : Nat}, n ≤ k → (alike env f .any).coupling.Computes σ P (Both p) (m n) fun _ => m k) (hP : P)
    (hs : Alike env f .any σ s s) (hu : Alike env f .any σ u u) (hb : u.bindings = s.bindings)
    (hrun : (m n).run s = (.ok b, s₁)) (hrun' : (m k).run u = (.ok b', u₁)) : b' = b := by
  have hfollows : ∀ {n k : Nat} {s u : State} {b b' : β} {s₁ u₁ : State}, n ≤ k → Alike env f .any σ s u →
      (m n).run s = (.ok b, s₁) → (m k).run u = (.ok b', u₁) → b' = b := by
    intro n k s u b b' s₁ u₁ hle hsu hrun hrun'
    have hok : ((m n).run s).1 = .ok b := congrArg Prod.fst hrun
    obtain ⟨r', hr', hagree⟩ := (hm hle).2 hP σ rfl s u hsu ⟨fun _ he => Except.absurd_error hok he, trivial⟩
    have hr' := (Filter.eventually_top.1 hr' ()).symm.trans hrun'
    subst hr'
    rw [hrun] at hagree
    rcases hagree with ⟨⟨hsame, _⟩, _⟩ | ⟨e, he, _⟩
    · exact hsame
    · cases he
  rcases Nat.le_total n k with hle | hle
  · exact hfollows hle (hs.join hu hb) hrun hrun'
  · exact (hfollows hle (hu.join hs hb.symm) hrun' hrun).symm

/-- A document that the ideal rules came to is the one that its rule set means. -/
theorem means (h : env.Steady f .any) {rs : RuleSet} (hrs : rs ∈ env.policy.ruleSets) {n : Nat} {v : Option Term}
    {s₁ : State} (hs : Alike env f .any σ s s) (hrun : ((env.idealTo n).document rs).run s = (.ok v, s₁)) :
    env.Means f σ rs v := by
  intro k u v' u' hu hrun'
  have hvalue : (((env.idealTo k).document rs).run { u with bindings := s.bindings }).1 = .ok v' := by
    rw [document_setBindings, hrun']
  rcases hrun₁ : ((env.idealTo k).document rs).run { u with bindings := s.bindings } with ⟨r, u₁⟩
  rw [hrun₁] at hvalue
  cases hvalue
  exact eq_of_runs (m := fun n => (env.idealTo n).document rs) (fun hle => (rulesAnswer h hle).document σ rs) hrs hs
    (setBindings hu s.bindings) rfl hrun hrun₁

end Pairing.alike

/-! ## Rule sets in place of others -/

/-- The meaning of rules nested to a depth, where every document has another rule set in the place of its own. -/
def Env.rulesVia (env : Env) (stand : RuleSet → RuleSet) : Nat → RuleSemantics
  | 0 =>
    { document := fun rs => throw (.recursion [(stand rs).name])
      function := fun rs _ => throw (.recursion [rs.name]) }
  | n + 1 =>
    { document := fun rs =>
        (stand rs).recalling (env.entering (stand rs) (env.evalDocument (rulesVia env stand n) (stand rs)))
      function := fun rs args => env.entering rs (env.evalFunction (rulesVia env stand n) rs args) }

theorem Env.rulesTo_eq_rulesVia (env : Env) (n : Nat) : env.rulesTo n = env.rulesVia id n := by
  induction n with
  | zero => rfl
  | succ n ih => simp only [rulesTo, rulesVia, ih, id_eq]

/-- Rules restore the frame whatever stands in the places of their rule sets. -/
theorem Coupling.framing.viaAnswer {env : Env} {keeps : List BuiltinAnswer → Prop}
    (hlaw : (Coupling.framing env keeps).Lawful) (stand : RuleSet → RuleSet) (n : Nat) :
    RulesAnswer (Coupling.framing env keeps) (env.rulesVia stand n) fun _ => env.rulesVia stand n := by
  induction n with
  | zero => exact rulesAnswer_of_keeps (fun _ _ => .throw _) fun _ _ _ => .throw _
  | succ n ih =>
    exact rulesAnswer_of_keeps
      (fun rs _ => ((keeps_evalDocument hlaw ih (stand rs)).entering (stand rs)).recalling (stand rs))
      fun rs _ args => (keeps_evalFunction hlaw ih rs args).entering rs

theorem Env.restores_evalDocument_via (env : Env) (stand : RuleSet → RuleSet) (n : Nat) (rs : RuleSet) :
    (env.evalDocument (env.rulesVia stand n) rs).Restores := fun s =>
  (Coupling.framing.keeps_evalDocument framing_lawful (Coupling.framing.viaAnswer framing_lawful stand n) rs s trivial).1

theorem Env.restores_evalFunction_via (env : Env) (stand : RuleSet → RuleSet) (n : Nat) (rs : RuleSet)
    (args : List Term) : (env.evalFunction (env.rulesVia stand n) rs args).Restores := fun s =>
  (Coupling.framing.keeps_evalFunction framing_lawful (Coupling.framing.viaAnswer framing_lawful stand n) rs args s
    trivial).1

/-- What stands in the place of a rule set defines a document of the same kind at the same path, and is another one
only for rule sets that are busy. -/
structure Policy.StandsIn (policy : Policy) (busy : List String) (stand : RuleSet → RuleSet) : Prop where
  path : ∀ rs ∈ policy.ruleSets, (stand rs).path = rs.path
  kind : ∀ rs ∈ policy.ruleSets, (stand rs).kind = rs.kind
  same : ∀ rs ∈ policy.ruleSets, rs.name ∉ busy → stand rs = rs

theorem Policy.standsIn_id (policy : Policy) (busy : List String) : policy.StandsIn busy id :=
  ⟨fun _ _ => rfl, fun _ _ => rfl, fun _ _ _ => rfl⟩

theorem Policy.StandsIn.name {policy : Policy} {busy : List String} {stand : RuleSet → RuleSet}
    (h : policy.StandsIn busy stand) {rs : RuleSet} (hrs : rs ∈ policy.ruleSets) : (stand rs).name = rs.name := by
  rw [RuleSet.name, h.path rs hrs]
  rfl

/-! ## The ideal evaluation beside one that remembers -/

/-- What holds of a state of an evaluation that remembers documents: those in memory are the ones that are meant, and
the rule sets in progress are nested, the busy ones among them. -/
structure State.Mindful (env : Env) (f : String → List Term → Option (Option Term)) (busy : List String) (w : Scopes)
    (t : State) : Prop where
  calm : t.Calm env
  answered : BuiltinAnswer.From f t.answers
  nested : t.Nested env.policy
  busy : ∀ name ∈ busy, name ∈ t.inProgress
  remembers : t.Remembers env.policy (env.Means (Env.settledAnswer f)) w

theorem State.Mindful.congr {env : Env} {f : String → List Term → Option (Option Term)} {busy : List String} {w v : Scopes}
    {t t₁ : State} (h : t.Mindful env f busy w) (hcalm : t₁.Calm env) (hanswered : BuiltinAnswer.From f t₁.answers)
    (hprogress : t₁.inProgress = t.inProgress) (hdepth : t₁.depth = t.depth)
    (hremembers : t₁.Remembers env.policy (env.Means (Env.settledAnswer f)) v) : t₁.Mindful env f busy v :=
  ⟨hcalm, hanswered, h.nested.congr hprogress hdepth, fun name hname => hprogress ▸ h.busy name hname, hremembers⟩

theorem State.Mindful.quiet {env : Env} {f : String → List Term → Option (Option Term)} {busy : List String} {w : Scopes}
    {t t₁ : State} (h : t.Mindful env f busy w) (hq : t.Quiet t₁) : t₁.Mindful env f busy w :=
  h.congr (h.calm.quiet hq) (hq.answers ▸ h.answered) (congrArg Frame.inProgress hq.frame)
    (congrArg Frame.depth hq.frame) (h.remembers.quiet hq)

namespace Pairing

/-- The states of an ideal evaluation and of one that remembers documents. -/
structure Recollects (env : Env) (f : String → List Term → Option (Option Term)) (busy : List String) (w : Scopes)
    (s t : State) : Prop where
  bindings : t.bindings = s.bindings
  agrees : s.scope.Agrees t.scope
  calm : s.Calm env
  answered : BuiltinAnswer.From f s.answers
  mindful : t.Mindful env f busy w

namespace Recollects

variable {env : Env} {f : String → List Term → Option (Option Term)} {busy : List String} {w : Scopes}
  {s t s₁ t₁ : State} {rs : RuleSet}

/-- A rule set is entered by the evaluation that remembers documents and evaluated for itself by the ideal one. -/
theorem entered (h : Recollects env f busy w s t) (hrs : rs ∈ env.policy.ruleSets) (hfree : rs.name ∉ t.inProgress) :
    Recollects env f busy w { s with bindings := {} } (t.entered rs.name) :=
  ⟨rfl, h.agrees, ⟨h.calm.1, h.calm.2⟩, h.answered, ⟨h.mindful.calm.1, h.mindful.calm.2⟩, h.mindful.answered,
    h.mindful.nested.entered hrs hfree, fun name hname => List.mem_append_left _ (h.mindful.busy name hname),
    h.mindful.remembers.congr rfl rfl rfl⟩

theorem returning (h : Recollects env f busy w s t) (h₁ : Recollects env f busy w s₁ t₁) :
    Recollects env f busy w (s.returning s₁) (t.returning t₁) :=
  ⟨h.bindings, h₁.agrees, ⟨h₁.calm.1, h₁.calm.2⟩, h₁.answered,
    h.mindful.congr ⟨h₁.mindful.calm.1, h₁.mindful.calm.2⟩ h₁.mindful.answered rfl rfl
      (h₁.mindful.remembers.congr rfl rfl rfl)⟩

/-- The ideal evaluation may go on while the other one waits. -/
theorem resumed (h : Recollects env f busy w s t) (hframe : s₁.frame = s.frame) (hcalm : s₁.Calm env)
    (hanswered : BuiltinAnswer.From f s₁.answers) : Recollects env f busy w s₁ t := by
  have hscope : s₁.scope = s.scope := congrArg Frame.scope hframe
  exact ⟨h.bindings.trans (congrArg Frame.bindings hframe).symm, hscope ▸ h.agrees, hcalm, hanswered, h.mindful⟩

theorem remember (h : Recollects env f busy w s t) {v : Option Term}
    (hunique : ∀ rs' ∈ env.policy.ruleSets, rs'.path = rs.path → rs' = rs)
    (hmeans : env.Means (Env.settledAnswer f) t.scope rs v) : Recollects env f busy w s (t.remember rs.path v) :=
  { h with
    mindful := h.mindful.congr ⟨h.mindful.calm.1, h.mindful.calm.2⟩ h.mindful.answered rfl rfl
      (h.mindful.remembers.remember hunique hmeans) }

end Recollects

/-- The ideal evaluation beside one that remembers documents and may be refused rule sets. -/
def recollecting (env : Env) (f : String → List Term → Option (Option Term)) (busy : List String) : Pairing Unit where
  toVocabulary := .any
  env := env
  env' := env
  World := Scopes
  later := Scopes.Later
  rel := Recollects env f busy
  grows _ _ := True
  within _ := True
  escapes := env.Refuses
  limit := ⊤
  depths _ _ := True

namespace recollecting

variable {env : Env} {f : String → List Term → Option (Option Term)} {busy : List String} {w : Scopes}
  {s t s₁ t₁ : State}

/-- The ideal state on its own. -/
theorem alike (h : Recollects env f busy w s t) : Alike env (Env.settledAnswer f) .any s.scope s s :=
  ⟨rfl, Vocabulary.bindings_any _, Vocabulary.scope_any _, .refl _, .refl _, h.calm, h.calm, h.answered.by,
    h.answered.by⟩

theorem lawful (hreg : env.registry.Regular) (hf : env.Settled f) : (recollecting env f busy).Lawful where
  same := rfl
  speaks := env.speaks_any
  later_refl := Scopes.Later.refl
  later_trans := Scopes.Later.trans
  grows_refl _ := trivial
  grows_trans _ _ := trivial
  grows_call _ _ _ := trivial
  within_between _ _ _ _ := trivial
  bindings_eq := Recollects.bindings
  bindings_vars _ := Vocabulary.bindings_any _
  scope_agrees := Recollects.agrees
  scope_vars _ := Vocabulary.scope_any _
  depth _ := trivial
  calm h := h.mindful.calm
  setBindings _ h _ := { h with
    bindings := rfl, calm := ⟨h.calm.1, h.calm.2⟩
    mindful := h.mindful.congr ⟨h.mindful.calm.1, h.mindful.calm.2⟩ h.mindful.answered rfl rfl
      (h.mindful.remembers.congr rfl rfl rfl) }
  scope := by
    intro w s t σ τ h hagrees _
    have hmind := h.mindful
    refine ⟨State.Remembers.opening w t τ, ?_, fun v' hv' => ⟨v', ?_, fun s₁ t₁ h₁ => ⟨?_, fun s₂ t₂ h₂ => ?_⟩⟩, ?_⟩
    · exact { h with
        agrees := hagrees.openScope s t, calm := ⟨h.calm.1, h.calm.2⟩
        mindful := hmind.congr ⟨hmind.calm.1, hmind.calm.2⟩ hmind.answered rfl rfl (hmind.remembers.opened τ) }
    · exact (hmind.remembers.later_opening τ).trans hv'
    · have hcurrent := hv' _ _ (hmind.remembers.later_opening τ _ _ hmind.remembers.current)
      exact { h₁ with
        agrees := h.agrees, calm := ⟨h₁.calm.1, h₁.calm.2⟩
        mindful := h₁.mindful.congr ⟨h₁.mindful.calm.1, h₁.mindful.calm.2⟩ h₁.mindful.answered rfl rfl
          (h₁.mindful.remembers.switched hcurrent) }
    · exact { h₂ with
        agrees := h₁.agrees, calm := ⟨h₂.calm.1, h₂.calm.2⟩
        mindful := h₂.mindful.congr ⟨h₂.mindful.calm.1, h₂.mindful.calm.2⟩ h₂.mindful.answered rfl rfl
          (h₂.mindful.remembers.switched h₁.mindful.remembers.current) }
    · intro s₁ t₁ h₁
      exact { h₁ with
        agrees := h.agrees, calm := ⟨h₁.calm.1, h₁.calm.2⟩
        mindful := h₁.mindful.congr ⟨h₁.mindful.calm.1, h₁.mindful.calm.2⟩ h₁.mindful.answered rfl rfl
          (hmind.remembers.closed h₁.mindful.remembers) }
  quiet := by
    intro w s t s' t' h hs ht
    refine ⟨?_, ?_, h.calm.quiet hs, hs.answers.symm ▸ h.answered, h.mindful.quiet ht⟩
    · rw [hs.eq, ht.eq]
      exact h.bindings
    · rw [hs.eq, ht.eq]
      exact h.agrees
  regular := hreg
  calls := by
    intro w s t b args answer s' hb hdet href hst hrun _
    have hst : Recollects env f busy w s t := hst
    have hmind := hst.mindful
    obtain ⟨hanswer, hfrom⟩ := hf.callBuiltin hb hdet href hst.answered hrun
    obtain ⟨t', hrun'⟩ := hf.run_callBuiltin hb hdet href hmind.answered hanswer
    refine .inl ⟨t', hrun', ?_, Vocabulary.varsIn_any answer⟩
    obtain ⟨_, hfrom'⟩ := hf.callBuiltin hb hdet href hmind.answered hrun'
    obtain ⟨host, as, hs⟩ := env.state_callBuiltin b args s
    obtain ⟨host', as', ht⟩ := env.state_callBuiltin b args t
    rw [show (env.callBuiltin b args).run s = _ from hrun] at hs
    rw [hrun'] at ht
    simp only at hs ht
    subst hs ht
    exact { hst with
      calm := ⟨hst.calm.1, hst.calm.2⟩, answered := hfrom
      mindful := hmind.congr ⟨hmind.calm.1, hmind.calm.2⟩ hfrom' rfl rfl (hmind.remembers.congr rfl rfl rfl) }

end recollecting

/-! ### Rules -/

section Rules

variable {p : Pairing Unit} {f : String → List Term → Option (Option Term)} {busy : List String}
  {stand : RuleSet → RuleSet} {rs : RuleSet} {w : p.World} {s t s₁ : State}

/-- In a pairing an ideal evaluation stands beside one that remembers documents and may be refused rule sets. The
environment and the overrides of the ideal evaluation are all that more is asked of than `Recollects` says. -/
structure Recollective (p : Pairing Unit) (f : String → List Term → Option (Option Term)) (busy : List String) :
    Prop where
  lawful : p.Lawful
  settled : p.env.Settled f
  grows : ∀ a a', p.grows a a'
  within : ∀ a, p.within a
  limit : p.limit = ⊤
  refused : ∀ e, p.env.Refuses e → p.escapes e
  recollects : ∀ {w s t}, p.rel w s t → ∃ v, Recollects p.env f busy v s t
  enters : ∀ {w s t rs}, p.rel w s t → rs ∈ p.env.policy.ruleSets → rs.name ∉ t.inProgress →
    p.rel w { s with bindings := {} } (t.entered rs.name)
  returns : ∀ {w s t s₁ t₁}, p.rel w s t → p.rel w s₁ t₁ → p.rel w (s.returning s₁) (t.returning t₁)
  resumes : ∀ {w s t s₁}, p.rel w s t → s₁.frame = s.frame → s₁.Calm p.env → BuiltinAnswer.From f s₁.answers →
    p.rel w s₁ t
  remembers : ∀ {w s t rs v}, p.rel w s t → rs ∈ p.env.policy.ruleSets →
    p.env.Means (Env.settledAnswer f) t.scope rs v → p.rel w s (t.remember rs.path v)
  values : ∀ {w s t s₁ rs n v}, p.rel w s t → rs ∈ p.env.policy.ruleSets →
    ((p.env.idealTo n).document rs).run s = (.ok v, s₁) → IfSome (Term.VarsIn p.names) v

namespace Recollective

theorem eventually (h : p.Recollective f busy) {q : Prop} (hq : ∀ᶠ _ in p.coupling.limit, q) : q := by
  have hq : ∀ᶠ _ in p.limit, q := hq
  rw [h.limit] at hq
  exact Filter.eventually_top.1 hq ()

/-- A rule set evaluated for itself beside one that is entered, if it can be; and then it is not busy. -/
theorem computes_entering (h : p.Recollective f busy) {P : Prop} {B : β → β → Prop} {m : Eval β} {r : RuleSet → Eval β}
    (hstand : p.env.policy.StandsIn busy stand) (hr : (r rs).Restores) (hP : P → rs ∈ p.env.policy.ruleSets)
    (hm : ∀ w, p.coupling.Computes w P B m fun _ => r rs) :
    p.coupling.Computes w P B m.isolated fun _ => p.env'.entering (stand rs) (r (stand rs)) := by
  have hentering : p.env'.entering (stand rs) (r (stand rs)) = p.env.entering (stand rs) (r (stand rs)) := by
    rw [h.lawful.same]
    rfl
  rw [hentering]
  refine ⟨fun _ => h.grows _ _, fun hp v hv s t hst hfol => ?_⟩
  obtain ⟨_, hrecollects⟩ := h.recollects hst
  have hrs := hP hp
  have hname := hstand.name hrs
  by_cases hbusy : rs.name ∈ busy
  · -- a busy rule set is in progress, so it is refused
    have hin : t.inProgress.contains (stand rs).name = true := by
      rw [hname]
      simpa using hrecollects.mindful.busy _ hbusy
    refine ⟨_, .of_forall fun _ => rfl, .inr ⟨.recursion (t.inProgress ++ [(stand rs).name]), ?_, ?_⟩⟩
    · rw [Env.run_entering, if_pos hin]
    · exact h.refused _ (.recursion _)
  · rw [hstand.same rs hrs hbusy]
    rcases p.env.run_entering_cases hrs hrecollects.mindful.nested (r rs) with ⟨e, he, hrefused⟩ | ⟨hfree, hrun⟩
    · exact ⟨_, .of_forall fun _ => rfl, .inr ⟨e, he, h.refused e hrefused⟩⟩
    · obtain ⟨r', hr', hagree⟩ := (hm v).2 hp v (h.lawful.later_refl v) _ _ (h.enters hst hrs hfree) hfol
      have hr' : (r rs).run (t.entered rs.name) = r' := h.eventually hr'
      refine ⟨_, .of_forall fun _ => hrun, ?_⟩
      rw [Eval.run_inside, State.exiting_of_frame (hr _), hr']
      refine hagree.imp_left fun ⟨hres, hrel, hframe⟩ => ⟨hres, h.returns hst hrel, ?_⟩
      have hscope : (m.run { s with bindings := {} }).2.scope = s.scope := congrArg Frame.scope hframe
      simp only [Eval.isolated, Eval.run_nested, State.frame, State.returning, hscope]

/-- A document that is remembered is the one that the ideal rules come to. -/
theorem eq_of_remembered (h : p.Recollective f busy) (hrs : rs ∈ p.env.policy.ruleSets) (hst : p.rel w s t) {n : Nat}
    {v v' : Option Term} (hmemo : t.remembered? rs.path = some v')
    (hrun : ((p.env.idealTo n).document rs).run s = (.ok v, s₁)) : v' = v := by
  obtain ⟨_, hrecollects⟩ := h.recollects hst
  exact ((hrecollects.mindful.remembers.recalled hrs hmemo).congr hrecollects.agrees.symm n s v s₁
    (recollecting.alike hrecollects) hrun).symm

/-- The ideal document of a rule set beside one that may be remembered. -/
theorem computes_recalling (h : p.Recollective f busy) (hstand : p.env.policy.StandsIn busy stand) {n m : Nat}
    (hdoc : ∀ w, p.coupling.Computes w (rs ∈ p.env.policy.ruleSets) (Both (IfSome (Term.VarsIn p.coupling.names)))
      (p.env.evalDocument (p.env.idealTo n) rs) fun _ => p.env'.evalDocument (p.env'.rulesVia stand m) rs) :
    p.coupling.Computes w (rs ∈ p.env.policy.ruleSets) (Both (IfSome (Term.VarsIn p.coupling.names)))
      ((p.env.idealTo (n + 1)).document rs) fun _ => (p.env'.rulesVia stand (m + 1)).document rs := by
  have hreg := h.lawful.regular
  have hf := h.settled
  refine ⟨fun _ => h.grows _ _, fun hrs v hv s t hst hfol => ?_⟩
  obtain ⟨_, hrecollects⟩ := h.recollects hst
  by_cases hkind : rs.kind = .function
  · refine ⟨(.ok none, t), .of_forall fun _ => ?_, ?_⟩
    · simp only [Env.rulesVia, RuleSet.run_recalling, hstand.kind rs hrs, if_pos hkind]
    · simp only [Env.idealTo, RuleSet.forgetting, if_pos hkind]
      exact .inl ⟨⟨rfl, ifSome_none⟩, hst, rfl⟩
  · rcases hrun : ((p.env.idealTo (n + 1)).document rs).run s with ⟨e | value, s₁⟩ <;> rw [hrun] at hfol
    · exact (hfol.1 e rfl).elim
    obtain ⟨hframe, hanswered⟩ := Coupling.framing.Keeps.of_computes (fun c =>
      (Coupling.framing.idealAnswer hf.framing (n + 1)).document c rs) hrs s hrecollects.answered
    obtain ⟨_, halike, _⟩ := Pairing.alike.of_run ((Pairing.alike.rulesAnswer (Env.steady_any hreg hf.fixed)
      (Nat.le_refl (n + 1))).document s.scope rs) hrs (recollecting.alike hrecollects) hrun
    have hvalue := h.values hst hrs hrun
    rw [hrun] at hframe hanswered
    have hresumed := h.resumes hst hframe halike.calm hanswered
    simp only [Env.rulesVia, RuleSet.run_recalling, hstand.kind rs hrs, if_neg hkind, hstand.path rs hrs]
    cases hmemo : t.remembered? rs.path with
    | some old =>
      rw [h.eq_of_remembered hrs hst hmemo hrun]
      exact ⟨_, .of_forall fun _ => rfl, .inl ⟨⟨rfl, hvalue⟩, hresumed, hframe⟩⟩
    | none =>
      have hrun' : (p.env.evalDocument (p.env.idealTo n) rs).isolated.run s = (.ok value, s₁) := by
        simpa only [Env.idealTo, RuleSet.forgetting, if_neg hkind] using hrun
      obtain ⟨⟨out, t₁⟩, hr', hagree⟩ := (h.computes_entering (w := v) (P := rs ∈ p.env.policy.ruleSets)
        (r := fun rs => p.env'.evalDocument (p.env'.rulesVia stand m) rs) hstand
        (Env.restores_evalDocument_via _ stand m rs) id hdoc).2 hrs v
        (h.lawful.later_refl v) s t hst (hrun'.symm ▸ hfol)
      have hr' := h.eventually hr'
      rw [hrun'] at hagree
      simp only [hr']
      refine ⟨_, .of_forall fun _ => rfl, ?_⟩
      rcases hagree with ⟨hres, hrel, hframe⟩ | ⟨e, he, hescapes⟩
      · cases out with
        | error e => exact hres.elim
        | ok value' =>
          obtain ⟨rfl, _⟩ := hres
          obtain ⟨_, hrecollects₁⟩ := h.recollects hrel
          have hscope : s₁.scope = s.scope := congrArg Frame.scope hframe
          have hmeans : p.env.Means (Env.settledAnswer f) t₁.scope rs value' :=
            (Pairing.alike.means (Env.steady_any hreg hf.fixed) hrs (recollecting.alike hrecollects) hrun).congr
              (hscope ▸ hrecollects₁.agrees)
          exact .inl ⟨⟨rfl, hvalue⟩, h.remembers hrel hrs hmeans, hframe⟩
      · cases out with
        | ok value' => cases he
        | error e' =>
          cases he
          exact .inr ⟨e, rfl, hescapes⟩

/-- What ideal rules answer, rules that remember documents answer too, as long as their documents do. -/
theorem rulesAnswer (h : p.Recollective f busy) (hstand : p.env.policy.StandsIn busy stand)
    (hdoc : ∀ n m, Coupling.RulesAnswer p.coupling (p.env.idealTo n) (fun _ => p.env'.rulesVia stand m) → ∀ w rs,
      p.coupling.Computes w (rs ∈ p.env.policy.ruleSets) (Both (IfSome (Term.VarsIn p.coupling.names)))
        (p.env.evalDocument (p.env.idealTo n) rs) fun _ => p.env'.evalDocument (p.env'.rulesVia stand m) rs) (n m : Nat) :
    Coupling.RulesAnswer p.coupling (p.env.idealTo n) fun _ => p.env'.rulesVia stand m := by
  induction n generalizing m with
  | zero =>
    refine ⟨fun w rs => ⟨fun s => h.grows _ _, ?_⟩, fun w rs args => ⟨fun s => h.grows _ _, ?_⟩⟩
    · exact fun _ _ _ _ _ _ hfol => (hfol.1 _ rfl).elim
    · exact fun _ _ _ _ _ _ hfol => (hfol.1 _ rfl).elim
  | succ n ih =>
    cases m with
    | zero =>
      have hrefused : ∀ names, p.escapes (.recursion names) := fun names => h.refused _ (.recursion names)
      refine ⟨fun w rs => ⟨fun s => h.grows _ _, ?_⟩, fun w rs args => ⟨fun s => h.grows _ _, ?_⟩⟩
      · exact fun _ _ _ _ _ _ _ => ⟨_, .of_forall fun _ => rfl, .inr ⟨_, rfl, hrefused _⟩⟩
      · exact fun _ _ _ _ _ _ _ => ⟨_, .of_forall fun _ => rfl, .inr ⟨_, rfl, hrefused _⟩⟩
    | succ m =>
      refine ⟨fun w rs => h.computes_recalling hstand fun w => hdoc n m (ih m) w rs, fun w rs args => ?_⟩
      exact h.computes_entering (r := fun rs => p.env'.evalFunction (p.env'.rulesVia stand m) rs args)
        (p.env.policy.standsIn_id busy) (Env.restores_evalFunction_via _ stand m rs args) And.left fun w =>
          Coupling.computes_evalFunction h.lawful.coupling (ih m) rs args (fun hP => h.lawful.policyProper rs hP.1) And.right

end Recollective

end Rules

namespace recollecting

variable {env : Env} {f : String → List Term → Option (Option Term)} {busy : List String} {w : Scopes}
  {s t s₁ : State} {stand : RuleSet → RuleSet}

theorem recollective (hreg : env.registry.Regular) (hf : env.Settled f) (hdistinct : env.policy.Distinct) :
    (recollecting env f busy).Recollective f busy where
  lawful := lawful hreg hf
  settled := hf
  grows _ _ := trivial
  within _ := trivial
  limit := rfl
  refused _ he := he
  recollects {w _ _} h := ⟨w, h⟩
  enters h hrs hfree := h.entered hrs hfree
  returns h h₁ := h.returning h₁
  resumes h hframe hcalm hanswered := h.resumed hframe hcalm hanswered
  remembers h hrs hmeans := h.remember (hdistinct _ hrs) hmeans
  values _ _ _ := Vocabulary.varsIn_any _

/-- What ideal rules answer, rules that remember documents answer too, unless they are refused a rule set. -/
theorem rulesAnswer (hreg : env.registry.Regular) (hf : env.Settled f) (hdistinct : env.policy.Distinct)
    (hstand : env.policy.StandsIn busy stand) (n m : Nat) :
    Coupling.RulesAnswer (recollecting env f busy).coupling (env.idealTo n) fun _ => env.rulesVia stand m := by
  have hrecollective : (recollecting env f busy).Recollective f busy := recollective hreg hf hdistinct
  refine hrecollective.rulesAnswer hstand (fun n m ih w rs => ?_) n m
  exact Coupling.computes_evalDocument hrecollective.lawful.coupling ih rs (hrecollective.lawful.policyProper rs)
    (Coupling.computes_candidates hrecollective.lawful.coupling ih rfl rs)

/-! ### Computations -/

/-- What an ideal computation comes to, one that remembers documents comes to as well, unless it is refused a rule
set. -/
theorem of_run {P : Prop} {p : β → Prop} {m m' : Eval β} {b : β}
    (hm : (recollecting env f busy).coupling.Computes w P (Both p) m fun _ => m') (hP : P)
    (h : Recollects env f busy w s t) (hrun : m.run s = (.ok b, s₁)) :
    (∃ t₁, m'.run t = (.ok b, t₁) ∧ Recollects env f busy w s₁ t₁ ∧ s₁.frame = s.frame) ∨
      ∃ e, (m'.run t).1 = .error e ∧ env.Refuses e :=
  (Pairing.of_run (Scopes.Later.refl w) rfl (fun _ => trivial) hm hP h hrun).imp_left And.right

end recollecting

/-- A computation that succeeded succeeds with ideal rules as well, given the answers of built-ins at its end. -/
theorem toIdeal.of_run {env : Env} {P : Prop} {p : β → Prop} {m : Eval β} {m' : Nat → Eval β} {s s₁ : State} {b : β}
    (hm : ∀ answers w, (toIdeal env answers).coupling.Computes w P (Both p) m m') (hP : P) (hcalm : s.Calm env)
    (hmemo : s.memo = []) (hscope : s.scope.id ≤ s.lastScope) (hrun : m.run s = (.ok b, s₁)) :
    ∃ u, ∀ᶠ n in Filter.atTop, (m' n).run { s with answers := s₁.answers } = (.ok b, u) := by
  have hok : (m.run s).1 = .ok b := congrArg Prod.fst hrun
  have hst : Idealizes env s₁.answers _ s { s with answers := s₁.answers } :=
    ⟨rfl, .refl _, ⟨hcalm.1, hcalm.2⟩, rfl, .of_empty _ _ hmemo hscope⟩
  obtain ⟨⟨out, u⟩, hr', hagree⟩ := (hm s₁.answers _).2 hP _ (Scopes.Later.refl _) s _ hst
    ⟨fun _ he => Except.absurd_error hok he, by rw [hrun]; exact BuiltinAnswer.Extends.refl _⟩
  obtain ⟨hres, _⟩ := hagree.resolve_right fun ⟨_, _, he⟩ => he
  rw [hok] at hres
  cases out with
  | error e => exact hres.elim
  | ok b' =>
    obtain ⟨rfl, _⟩ := hres
    exact ⟨u, hr'⟩

end Pairing

/-! ## What ideal rules come to -/

/-- A state in which something is evaluated with ideal rules, under overrides and in an environment. -/
structure State.Poised (env : Env) (f : String → List Term → Option (Option Term)) (σ : Scope) (b : Bindings)
    (u : State) : Prop where
  calm : u.Calm env
  answered : BuiltinAnswer.From f u.answers
  agrees : σ.Agrees u.scope
  bindings : u.bindings = b

/-- Ideal rules come to a result. -/
def Env.Comes (env : Env) (f : String → List Term → Option (Option Term)) (σ : Scope) (b : Bindings) (m : Nat → Eval β)
    (x : β) : Prop :=
  ∃ n u u', u.Poised env f σ b ∧ (m n).run u = (.ok x, u')

section Comes

variable {env : Env} {f : String → List Term → Option (Option Term)} {busy : List String} {w : Scopes} {σ : Scope}
  {b : Bindings} {u u₁ s t : State}

theorem State.Poised.alike (h : u.Poised env f σ b) : Pairing.Alike env (Env.settledAnswer f) .any σ u u :=
  ⟨rfl, Vocabulary.bindings_any _, Vocabulary.scope_any _, h.agrees, h.agrees, h.calm, h.calm, h.answered.by,
    h.answered.by⟩

/-- After a successful ideal computation the next one can follow. -/
theorem State.Poised.of_run {P : Prop} {p q : β → Prop} {m : Eval β} {x : β} (h : u.Poised env f σ b)
    (halike : (Pairing.alike env (Env.settledAnswer f) .any).coupling.Computes σ P (Both p) m fun _ => m)
    (hframing : ∀ c, (Coupling.framing env (BuiltinAnswer.From f)).Computes c P (Both q) m fun _ => m) (hP : P)
    (hrun : m.run u = (.ok x, u₁)) : u₁.Poised env f σ b := by
  obtain ⟨_, halike, hframe⟩ := Pairing.alike.of_run halike hP h.alike hrun
  obtain ⟨_, hanswered⟩ := Coupling.framing.Keeps.of_computes hframing hP u h.answered
  rw [hrun] at hanswered
  exact ⟨halike.calm, hanswered, halike.scope, (congrArg Frame.bindings hframe).trans h.bindings⟩

theorem State.Poised.quiet (h : u.Poised env f σ b) (hq : u.Quiet u₁) : u₁.Poised env f σ b := by
  have hscope : u₁.scope = u.scope := congrArg Frame.scope hq.frame
  exact ⟨h.calm.quiet hq, hq.answers ▸ h.answered, hscope ▸ h.agrees,
    (congrArg Frame.bindings hq.frame).trans h.bindings⟩

theorem State.Poised.document (hreg : env.registry.Regular) (hf : env.Settled f) (h : u.Poised env f σ b) {rs : RuleSet}
    (hrs : rs ∈ env.policy.ruleSets) {n : Nat} {v : Option Term}
    (hrun : ((env.idealTo n).document rs).run u = (.ok v, u₁)) : u₁.Poised env f σ b :=
  h.of_run ((Pairing.alike.rulesAnswer (Env.steady_any hreg hf.fixed) (Nat.le_refl n)).document σ rs)
    (fun c => (Coupling.framing.idealAnswer hf.framing n).document c rs) hrs hrun

/-- The document of a rule set does not depend on the environment. -/
theorem Env.Comes.document {rs : RuleSet} {v : Option Term}
    (h : env.Comes f σ b (fun n => (env.idealTo n).document rs) v) (b' : Bindings) :
    env.Comes f σ b' (fun n => (env.idealTo n).document rs) v := by
  obtain ⟨n, u, u₁, hu, hrun⟩ := h
  have hvalue : (((env.idealTo n).document rs).run { u with bindings := b' }).1 = .ok v := by
    rw [Pairing.alike.document_setBindings, hrun]
  exact ⟨n, { u with bindings := b' }, _, ⟨⟨hu.calm.1, hu.calm.2⟩, hu.answered, hu.agrees, rfl⟩, Prod.ext hvalue rfl⟩

/-- A computation that succeeded from the start comes to its result with ideal rules. -/
theorem Env.comes_of_run {P : Prop} {p q : β → Prop} {m : Eval β} {m' : Nat → Eval β} {x : β} {s₁ : State}
    (hm : ∀ answers w, (Pairing.toIdeal env answers).coupling.Computes w P (Both p) m m')
    (hframing : ∀ c, (Coupling.framing env (BuiltinAnswer.From f)).Computes c P (Both q) m fun _ => m) (hP : P)
    (hcalm : s.Calm env) (hmemo : s.memo = []) (hscope : s.scope.id ≤ s.lastScope)
    (hanswers : BuiltinAnswer.From f s.answers) (hrun : m.run s = (.ok x, s₁)) :
    env.Comes f s.scope s.bindings m' x := by
  obtain ⟨u, hev⟩ := Pairing.toIdeal.of_run hm hP hcalm hmemo hscope hrun
  obtain ⟨n, hn⟩ := hev.exists
  obtain ⟨_, hanswered⟩ := Coupling.framing.Keeps.of_computes hframing hP s hanswers
  rw [hrun] at hanswered
  exact ⟨n, { s with answers := s₁.answers }, u, ⟨⟨hcalm.1, hcalm.2⟩, hanswered, .refl _, rfl⟩, hn⟩

end Comes
end PolicyEngine
