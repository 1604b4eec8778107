import Mathlib.Order.Filter.Finite
import PolicyEngine.Proofs.Alike
import PolicyEngine.Proofs.Backtracking
import PolicyEngine.Proofs.Compiled

/-!
Depth-first search is exhaustive and ordered. The environments in which a conjunction holds are, in order and with
repetitions, those in which its second part holds, started in each environment in which its first part holds.
The argument is about ideal rules: a part of a body has the same environments in all states with the same
environment and the same overrides, as long as nondeterministic built-ins answer by a fixed function.
-/
namespace PolicyEngine

/-! ## Environments -/

/-- Notes the environment and asks for more. -/
def Search.environment : Search (List Bindings) := Search.withBindings fun b => Search.collect fun found => found ++ [b]

/-- The environments in which a body holds, in the order they are found. -/
def Env.environments (env : Env) (rules : RuleSemantics) (body : Body) (s : State) : Except EvalError (List Bindings) :=
  let r := env.evalBody rules body Search.environment [] s
  r.outcome.map fun _ => r.found

theorem Env.evalBody_append {α : Type} (env : Env) (rules : RuleSemantics) (body body' : Body) (k : Search α) :
    env.evalBody rules (body ++ body') k = env.evalBody rules body (env.evalBody rules body' k) := by
  induction body with
  | nil => rfl
  | cons e rest ih => simp only [List.cons_append, Env.evalBody, ih]

/-- The same environments are noted on both sides, on one of them after others. -/
theorem Coupling.simulates_environment {ι : Type} {C : Coupling ι} {w : C.World} {P : Prop} (h : C.Lawful)
    (before : List Bindings) :
    C.Simulates w P { rel := fun found found' => found' = before ++ found, stops := False } Search.environment
      fun _ => Search.environment := by
  refine simulates_withBindings h fun b => simulates_collect h (fun _ _ => trivial) ?_
  rintro _ a _ _ rfl
  exact List.append_assoc before a [b]

namespace Pairing.alike

variable {env : Env} {f : String → List Term → Option Term} {σ : Scope} {s t : State} {n : Nat}

/-- A search that notes what it finds behind what was found before, in the same way in states that are alike. -/
def Notes (env : Env) (f : String → List Term → Option Term) (σ : Scope) {β : Type} (search : Search (List β)) : Prop :=
  ∀ before, (alike env f .any).coupling.Simulates σ True
    { rel := fun found found' => found' = before ++ found, stops := False } search fun _ => search

/-- What is noted in one state is noted in every state that is alike, unless that run fails. -/
theorem Notes.found {β : Type} {search : Search (List β)} (hsearch : Notes env f σ search) (h : Alike env f .any σ s t)
    {flow flow' : Flow} (hs : (search [] s).outcome = .ok flow) (before : List β)
    (ht : (search before t).outcome = .ok flow') : (search before t).found = before ++ (search [] s).found := by
  obtain ⟨r', hr', hmatch⟩ := (hsearch before).2 trivial σ rfl [] before s t (List.append_nil before).symm h
    ⟨fun _ he => Except.absurd_error hs he, trivial⟩ trivial
  have hr' : search before t = r' := Filter.eventually_top.1 hr' ()
  rw [hr'] at ht ⊢
  rcases hmatch with ⟨_, ⟨hrel, _⟩, _⟩ | ⟨e, he, _⟩
  · exact hrel
  · cases he.symm.trans ht

/-- A search that does not fail asks for more and comes back to a state that is alike. -/
theorem Notes.returns {β : Type} {search : Search (List β)} (hsearch : Notes env f σ search)
    (h : Alike env f .any σ s t) (before : List β) {flow : Flow} (hout : (search before t).outcome = .ok flow) :
    (search before t).outcome = .ok .more ∧ Alike env f .any σ s (search before t).state := by
  obtain ⟨r', hr', hmatch⟩ := (hsearch []).2 trivial σ rfl before before t t rfl h.right
    ⟨fun _ he => Except.absurd_error hout he, trivial⟩ trivial
  have hr' : search before t = r' := Filter.eventually_top.1 hr' ()
  subst hr'
  rcases hmatch with ⟨_, ⟨_, hstop⟩, hrel, hframe⟩ | ⟨e, he, _⟩
  · have hrel : Alike env f .any σ _ (search before t).state := hrel
    refine ⟨?_, ?_, h.names, h.overrides, h.scope, hrel.scope', h.calm, hrel.calm', h.answered, hrel.answered'⟩
    · cases flow with
      | more => exact hout
      | stop => exact (hstop hout).elim
    · exact (congrArg Frame.bindings hframe).trans h.bindings
  · exact Except.absurd_error hout he

theorem notes_environments (hsteady : env.Steady f .any) (body : Body) :
    Notes env f σ (env.evalBody (env.idealTo n) body Search.environment) := fun before =>
  simulates_evalBody hsteady (Vocabulary.body_any env body)
    (Coupling.simulates_environment (lawful hsteady).coupling before)

/-- A body that has environments in one state has the same ones in every state that is alike, unless that run
fails; and that run gives the frame back. -/
theorem environments_alike (hsteady : env.Steady f .any) (body : Body) (h : Alike env f .any σ s t)
    {found : List Bindings} (hs : env.environments (env.idealTo n) body s = .ok found) (before : List Bindings)
    {flow : Flow} (ht : (env.evalBody (env.idealTo n) body Search.environment before t).outcome = .ok flow) :
    (env.evalBody (env.idealTo n) body Search.environment before t).found = before ++ found := by
  obtain ⟨flow', hout, hfound⟩ := Except.map_eq_ok hs
  rw [← hfound]
  exact (notes_environments hsteady body).found h hout before ht

/-- A search for environments that does not fail asks for more and comes back to a state that is alike. -/
theorem returns_alike (hsteady : env.Steady f .any) (body : Body) (h : Alike env f .any σ s t)
    (before : List Bindings) {flow : Flow}
    (hout : (env.evalBody (env.idealTo n) body Search.environment before t).outcome = .ok flow) :
    (env.evalBody (env.idealTo n) body Search.environment before t).outcome = .ok .more ∧
      Alike env f .any σ s (env.evalBody (env.idealTo n) body Search.environment before t).state :=
  (notes_environments hsteady body).returns h before hout

/-- The environments of a conjunction of ideal rules. -/
theorem environments_append (hsteady : env.Steady f .any) (body body' : Body)
    (h : Alike env f .any σ s t) {all firsts : List Bindings} {later : Bindings → List Bindings}
    (hall : env.environments (env.idealTo n) (body ++ body') t = .ok all)
    (hfirsts : env.environments (env.idealTo n) body s = .ok firsts)
    (hlater : ∀ b ∈ firsts, ∃ u, Alike env f .any σ u u ∧ u.bindings = b ∧
      env.environments (env.idealTo n) body' u = .ok (later b)) :
    all = firsts.flatMap later := by
  have hk : (alike env f .any).coupling.Simulates σ True
      { rel := fun found found' => (∀ b ∈ found, b ∈ firsts) → found' = found.flatMap later, stops := False }
      Search.environment fun _ => env.evalBody (env.idealTo n) body' Search.environment := by
    refine ⟨fun _ _ => ⟨trivial, fun _ => trivial⟩, ?_⟩
    rintro _ _ rfl found found' s t hrel hst _ _
    have hst : Alike env f .any σ s t := hst
    refine ⟨_, .of_forall fun _ => rfl, ?_⟩
    cases hout : (env.evalBody (env.idealTo n) body' Search.environment found' t).outcome with
    | error e => exact .inr ⟨e, hout, trivial⟩
    | ok flow =>
      obtain ⟨hmore, hstate⟩ := returns_alike hsteady body' hst found' hout
      refine .inl ⟨hmore, ⟨fun hmem => ?_, by intro hstops; cases hstops⟩, hstate, rfl⟩
      have hmem : ∀ b ∈ found ++ [s.bindings], b ∈ firsts := hmem
      obtain ⟨u, hu, hbindings, hrun⟩ := hlater s.bindings (hmem _ (by simp))
      have hut : Alike env f .any σ u t := hu.join hst.right (hst.bindings.trans hbindings.symm)
      have hfound := environments_alike hsteady body' hut hrun found' hout
      rw [hfound, hrel fun b hb => hmem b (by simp [hb])]
      simp [Search.environment, Search.withBindings, Search.collect]
  obtain ⟨flow, hout, hfound⟩ := Except.map_eq_ok hfirsts
  obtain ⟨flow', hout', hfound'⟩ := Except.map_eq_ok hall
  obtain ⟨r', hr', hmatch⟩ := (simulates_evalBody (n := n) hsteady (Vocabulary.body_any env body) hk).2 trivial σ rfl
    [] [] s t (fun _ => rfl) h
    ⟨fun _ he => Except.absurd_error hout he, trivial⟩ trivial
  have hr' : env.evalBody (env.idealTo n) (body ++ body') Search.environment [] t = r' := by
    rw [env.evalBody_append]
    exact Filter.eventually_top.1 hr' ()
  rw [hr'] at hout' hfound'
  rcases hmatch with ⟨_, ⟨hrel, _⟩, _⟩ | ⟨e, he, _⟩
  · subst hfound hfound'
    exact hrel fun b hb => hb
  · cases he.symm.trans hout'

end Pairing.alike

section Environments

variable {env : Env} {f : String → List Term → Option Term} {s : State} {found : List Bindings}

/-- A search keeps to the function by which built-ins answer. -/
theorem Env.Fixed.by_search (hf : env.Fixed f) (hanswers : BuiltinAnswer.By f s.answers) {α : Type}
    {A : Gathering α α} {search : Search α} {found : α} (hrel : A.rel found found)
    (hadmits : A.admits (search found s).found)
    (hsim : (Coupling.framing env (BuiltinAnswer.By f)).Lawful →
      (Coupling.framing env (BuiltinAnswer.By f)).Simulates s.context True A search fun _ => search) :
    BuiltinAnswer.By f (search found s).state.answers := by
  have hlaw : (Coupling.framing env (BuiltinAnswer.By f)).Lawful :=
    Coupling.framing.lawful fun b hb args s hs => hf.by_callBuiltin hb args hs
  obtain ⟨_, _, hmatch⟩ := (hsim hlaw).2 trivial s.context rfl found found s s hrel ⟨rfl, rfl, hanswers⟩
    ⟨fun _ _ => trivial, trivial⟩ hadmits
  obtain ⟨_, _, ⟨_, _, hkeeps⟩, _⟩ := hmatch.resolve_right (by rintro ⟨_, _, he⟩; exact he)
  exact hkeeps

/-- The documents remembered are those that the rule sets mean, whatever may be answered to calls to come. -/
def State.Faithful (env : Env) (s : State) : Prop :=
  ∀ answers, BuiltinAnswer.Extends s.answers answers → ∃ w, s.Remembers env.policy (env.Denotes answers) w

theorem State.Faithful.of_empty (hmemo : s.memo = []) (hscope : s.scope.id ≤ s.lastScope) : s.Faithful env :=
  fun _ _ => ⟨_, .of_empty _ _ hmemo hscope⟩

theorem State.Faithful.setBindings (h : s.Faithful env) (b : Bindings) : { s with bindings := b }.Faithful env :=
  fun answers hanswers => (h answers hanswers).imp fun _ hw => hw.congr rfl rfl rfl

/-- A search that succeeded ends with ideal rules as well, given the answers of built-ins at its end. -/
theorem Pairing.toIdeal.of_search {α α' : Type} {A : Gathering α α'} {search : Search α} {search' : Nat → Search α'}
    (hsim : ∀ answers w, (toIdeal env answers).coupling.Simulates w True A search search') (hcalm : s.Calm env)
    (hfaithful : s.Faithful env) {found : α} {found' : α'} (hrel : A.rel found found')
    (hadmits : A.admits (search found s).found) {flow : Flow} (hok : (search found s).outcome = .ok flow) :
    ∃ r', r'.outcome = .ok flow ∧ A.rel (search found s).found r'.found ∧
      ∀ᶠ n in Filter.atTop, search' n found' { s with answers := (search found s).state.answers } = r' := by
  obtain ⟨w, hremembers⟩ := hfaithful _ ((hsim [] fun _ => none).1 found s).1
  have hst : Idealizes env (search found s).state.answers w s
      { s with answers := (search found s).state.answers } :=
    ⟨rfl, .refl _, ⟨hcalm.1, hcalm.2⟩, rfl, hremembers⟩
  obtain ⟨r', hr', hmatch⟩ := (hsim _ _).2 trivial _ (Scopes.Later.refl _) found found' s _ hrel hst
    ⟨fun _ he => Except.absurd_error hok he, .refl _⟩ hadmits
  obtain ⟨hout, ⟨hfound, _⟩, _⟩ := hmatch.resolve_right (by rintro ⟨_, _, he⟩; exact he)
  exact ⟨r', hout.trans hok, hfound, hr'⟩

/-- What a search finds its ideal counterpart finds, given the answers of built-ins at its end. -/
theorem Env.found_ideal {β : Type} {search : Search (List β)} {search' : Nat → Search (List β)} {found : List β}
    (hf : env.Fixed f) (hcalm : s.Calm env) (hfaithful : s.Faithful env) (hanswers : BuiltinAnswer.By f s.answers)
    (hframing : (Coupling.framing env (BuiltinAnswer.By f)).Lawful →
      (Coupling.framing env (BuiltinAnswer.By f)).Simulates s.context True
        { rel := fun found found' => found' = [] ++ found, stops := False } search fun _ => search)
    (hideal : ∀ answers w, (Pairing.toIdeal env answers).coupling.Simulates w True
      { rel := fun found found' => found' = [] ++ found, stops := False } search search')
    (hok : ((search [] s).outcome.map fun _ => (search [] s).found) = .ok found) :
    ∃ answers, BuiltinAnswer.By f answers ∧ ∀ᶠ n in Filter.atTop,
      ((search' n [] { s with answers := answers }).outcome.map fun _ =>
        (search' n [] { s with answers := answers }).found) = .ok found := by
  obtain ⟨flow, hout, hfound⟩ := Except.map_eq_ok hok
  obtain ⟨r', hout', hfound', hev⟩ := Pairing.toIdeal.of_search hideal hcalm hfaithful rfl trivial hout
  have hby : BuiltinAnswer.By f (search [] s).state.answers := hf.by_search hanswers rfl trivial hframing
  refine ⟨_, hby, hev.mono fun n hn => ?_⟩
  have hn : search' n [] { s with answers := (search [] s).state.answers } = r' := hn
  have hfound' : r'.found = found := hfound'.trans hfound
  rw [hn, hout', hfound']
  rfl

/-- The environments that an evaluation finds are those of the ideal rules, given the answers of built-ins at its
end. -/
theorem Env.environments_ideal (hreg : env.registry.Regular) (hdistinct : env.policy.Distinct) (hf : env.Fixed f)
    (hcalm : s.Calm env) (hmemo : s.memo = []) (hscope : s.scope.id ≤ s.lastScope)
    (hanswers : BuiltinAnswer.By f s.answers) {body : Body} (hok : env.environments env.rules body s = .ok found) :
    ∃ answers, BuiltinAnswer.By f answers ∧
      ∀ᶠ n in Filter.atTop, env.environments (env.idealTo n) body { s with answers := answers } = .ok found := by
  refine Env.found_ideal hf hcalm (.of_empty hmemo hscope) hanswers (fun hlaw => ?_) (fun _ _ => ?_) hok
  · exact Coupling.bodyAnswers hlaw (Coupling.framing.rulesAnswer hlaw _) body
      (fun _ => Vocabulary.body_any env body) (Coupling.simulates_environment hlaw [])
  · exact Coupling.bodyAnswers (Pairing.toIdeal.lawful hreg).coupling
      (Pairing.toIdeal.rulesAnswer_rulesTo hdistinct hreg _) body (fun _ => Vocabulary.body_any env body)
      (Coupling.simulates_environment (Pairing.toIdeal.lawful hreg).coupling [])

/-- Depth-first search is exhaustive and ordered. If none of the runs fails, the environments in which a conjunction
holds are, in order and with repetitions, those in which its second part holds, started in each of the environments
in which its first part holds. -/
theorem environments_conjunction {modules : List Module} (hcompile : Policy.compile modules = .ok env.policy)
    (hreg : env.registry.Regular) (hf : env.Fixed f) (hcalm : s.Calm env) (hmemo : s.memo = [])
    (hscope : s.scope.id ≤ s.lastScope) (hanswers : BuiltinAnswer.By f s.answers) (body body' : Body)
    {all firsts : List Bindings} {later : Bindings → List Bindings}
    (hall : env.environments env.rules (body ++ body') s = .ok all)
    (hfirsts : env.environments env.rules body s = .ok firsts)
    (hlater : ∀ b ∈ firsts, env.environments env.rules body' { s with bindings := b } = .ok (later b)) :
    all = firsts.flatMap later := by
  have hdistinct := Policy.distinct_of_compile hcompile
  have hideal : ∀ {body found} b, env.environments env.rules body { s with bindings := b } = .ok found →
      ∃ u, Pairing.Alike env f .any s.scope u u ∧ u.bindings = b ∧
        ∀ᶠ n in Filter.atTop, env.environments (env.idealTo n) body u = .ok found := by
    intro body found b hok
    have hcalm : { s with bindings := b }.Calm env := ⟨hcalm.1, hcalm.2⟩
    obtain ⟨answers, hby, hev⟩ := Env.environments_ideal hreg hdistinct hf hcalm hmemo hscope hanswers hok
    have hcalm : { s with bindings := b, answers := answers }.Calm env := ⟨hcalm.1, hcalm.2⟩
    exact ⟨{ s with bindings := b, answers := answers },
      ⟨rfl, Vocabulary.bindings_any _, Vocabulary.scope_any _, .refl _, .refl _, hcalm, hcalm, hby, hby⟩, rfl, hev⟩
  obtain ⟨t, ht, htb, hall⟩ := hideal s.bindings hall
  obtain ⟨u, hu, hub, hfirsts⟩ := hideal s.bindings hfirsts
  -- one depth of nesting is enough for all of the finitely many runs
  have hlater : ∀ᶠ n in Filter.atTop, ∀ b ∈ firsts, ∃ u, Pairing.Alike env f .any s.scope u u ∧ u.bindings = b ∧
      env.environments (env.idealTo n) body' u = .ok (later b) := by
    refine (Filter.eventually_all_finite (List.finite_toSet firsts)).2 fun b hb => ?_
    obtain ⟨u, hu, hub, hev⟩ := hideal b (hlater b hb)
    exact hev.mono fun n hn => ⟨u, hu, hub, hn⟩
  obtain ⟨n, ⟨hall, hfirsts⟩, hlater⟩ := ((hall.and hfirsts).and hlater).exists
  have hut : Pairing.Alike env f .any s.scope u t := hu.join ht (htb.trans hub.symm)
  exact Pairing.alike.environments_append (Env.steady_any hreg hf) body body' hut hall hfirsts hlater

end Environments

/-! ### Pairs of different members -/

namespace Pairs

/-- A policy with one rule set, whose members are those of the input. -/
def modules : List Module :=
  [⟨["t"], [{ first := { head := { name := .var "s", keys := [], key := some (.ref (.var "input") [.var "i"]) } } }]⟩]

def env : Env := { policy := (Policy.compile modules).toOption.getD {}, registry := Registry.core }

def start : State := { scope := { input := some (.array [.number 1, .number 2]) }, clock := { step := 1 } }

def equation (x y : Term) : ExprKind := .term (.call (.ref (.var "eq") []) [x, y])

/-- A variable is a member of the rule set. -/
def member (x i : String) : Expr :=
  .ofKind (equation (.var x) (.ref (.var "data") [.string "t", .string "s", .var i]))

def different (x y : String) : Expr := .mk (equation (.var x) (.var y)) true [] 0

/-- The environments of a body from an environment on, as far as the run does not fail. -/
def found (body : Body) (b : Bindings) : List Bindings :=
  (env.environments env.rules body { start with bindings := b }).toOption.getD []

/-- The pairs of different members are found by taking each member in turn, and each different member after it. -/
theorem environments_pairs :
    (found [member "x" "i", member "y" "j", different "x" "y"] {}).length = 2 ∧
      found [member "x" "i", member "y" "j", different "x" "y"] {} =
        (found [member "x" "i"] {}).flatMap (found [member "y" "j", different "x" "y"]) := by
  have hall : (found [member "x" "i"] {}).all (fun b => (env.environments env.rules
      [member "y" "j", different "x" "y"] { start with bindings := b }).isOk) = true := by decide +kernel
  have hcompile : Policy.compile modules = .ok env.policy := Except.eq_ok_of_isOk (by decide +kernel) {}
  refine ⟨by decide +kernel, ?_⟩
  exact @environments_conjunction env _ start _ hcompile
    (Registry.regular_core _) (Env.fixed_core rfl rfl) ⟨rfl, rfl⟩ rfl (Nat.le_refl 0) nofun [member "x" "i"]
    [member "y" "j", different "x" "y"] _ _ _ (Except.eq_ok_of_isOk (by decide +kernel) [])
    (Except.eq_ok_of_isOk (by decide +kernel) [])
    fun b hb => Except.eq_ok_of_isOk (List.all_eq_true.1 hall b hb) []

end Pairs
end PolicyEngine
