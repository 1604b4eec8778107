import Mathlib.Logic.Relation
import PolicyEngine.Proofs.Course
import PolicyEngine.Proofs.Recollection

/-!
The course of an evaluation leads where the evaluation leads, and it is made of moves of a few kinds: steps that stay
within the rule set and the scope, entering, leaving and refusing a rule set, opening, closing and changing scopes, and
remembering a document. What each move keeps is kept by every evaluation.
-/
namespace PolicyEngine

/-! ## Moves -/

/-- Where an evaluation stands, what it remembers and how many scopes it has opened is as before. -/
structure State.Stays (s t : State) : Prop where
  context : t.context = s.context
  memo : t.memo = s.memo
  lastScope : t.lastScope = s.lastScope

/-- A rule set was refused. -/
def EvalError.IsRefusal : EvalError → Prop
  | .recursion _ | .internal (.depthExceeded _) => True
  | _ => False

theorem not_refusal_ok {β : Type} {b : β} (e : EvalError) (he : (.ok b : Except EvalError β) = .error e) :
    ¬e.IsRefusal := by
  cases he

/-- A computation that stays where it is and is refused no rule set. -/
def Eval.Stays (m : Eval β) : Prop := ∀ s, s.Stays (m.run s).2 ∧ ∀ e, (m.run s).1 = .error e → ¬e.IsRefusal

def Search.Stays (search : Search α) : Prop :=
  ∀ found s, s.Stays (search found s).state ∧ ∀ e, (search found s).outcome = .error e → ¬e.IsRefusal

theorem State.Stays.refl (s : State) : s.Stays s := ⟨rfl, rfl, rfl⟩

theorem State.Stays.trans {s t u : State} (h : s.Stays t) (h' : t.Stays u) : s.Stays u :=
  ⟨h'.context.trans h.context, h'.memo.trans h.memo, h'.lastScope.trans h.lastScope⟩

namespace Eval.Stays

variable {β γ : Type}

theorem pure (b : β) : (Pure.pure b : Eval β).Stays := fun s => ⟨.refl s, not_refusal_ok⟩

theorem throw {e : EvalError} (he : ¬e.IsRefusal) : (MonadExcept.throw e : Eval β).Stays :=
  fun s => ⟨.refl s, fun _ h => by
    cases h
    exact he⟩

theorem ofExcept {r : Except EvalError β} (hr : ∀ e, r = .error e → ¬e.IsRefusal) : (Eval.ofExcept r).Stays :=
  fun s => ⟨.refl s, hr⟩

theorem bind {m : Eval β} {f : β → Eval γ} (hm : m.Stays) (hf : ∀ b, (f b).Stays) : (m >>= f).Stays := by
  intro s
  have h := hm s
  rw [Eval.run_bind]
  rcases hrun : m.run s with ⟨e | b, s₁⟩ <;> rw [hrun] at h
  · exact ⟨h.1, fun e' he => h.2 e' (by
      cases he
      rfl)⟩
  · exact ⟨h.1.trans (hf b s₁).1, (hf b s₁).2⟩

theorem get {f : State → Eval β} (hf : ∀ s, (f s).Stays) : (do let s ← MonadState.get; f s : Eval β).Stays :=
  fun s => hf s s

end Eval.Stays

namespace Search.Stays

variable {α β : Type}

theorem exhausted : (Search.exhausted : Search α).Stays := fun _ s => ⟨.refl s, not_refusal_ok⟩

theorem raise {e : EvalError} (he : ¬e.IsRefusal) : (Search.raise e : Search α).Stays :=
  fun _ s => ⟨.refl s, fun _ h => by
    cases h
    exact he⟩

theorem collect (f : α → α) : (Search.collect f).Stays := fun _ s => ⟨.refl s, not_refusal_ok⟩

theorem accept (f : α → α) : (Search.accept f).Stays := fun _ s => ⟨.refl s, not_refusal_ok⟩

theorem after {m : Eval β} {k : β → Search α} (hm : m.Stays) (hk : ∀ b, (k b).Stays) :
    (Search.after m k).Stays := by
  intro found s
  have h := hm s
  simp only [Search.after]
  rcases hrun : m.run s with ⟨e | b, s₁⟩ <;> rw [hrun] at h
  · exact ⟨h.1, fun e' he => h.2 e' (by
      cases he
      rfl)⟩
  · exact ⟨h.1.trans (hk b found s₁).1, (hk b found s₁).2⟩

theorem ground {k : Term → Search α} (hk : ∀ t, (k t).Stays) (t : Term) : (Search.ground k t).Stays := by
  intro found s
  simp only [Search.ground, Search.withBindings]
  split
  · exact hk _ found s
  · exact exhausted found s

end Search.Stays

namespace Course

/-- A single move. Scopes are changed for ones that were in force before, among scopes that are still open. -/
inductive Moves (env : Env) (c : Course) : Course → Prop
  | stay {s : State} (h : c.state.Stays s) : Moves env c (c.go s)
  | remember (path : DataPath) (value : Option Term) : Moves env c (c.go (c.state.remember path value))
  | enter {rs : RuleSet} (hrs : rs ∈ env.policy.ruleSets) (hfree : rs.name ∉ c.state.inProgress) :
    Moves env c (c.go (c.state.entered rs.name))
  | leave {s : State} {name : String} (hprogress : c.state.inProgress = s.inProgress ++ [name])
    (hdepth : c.state.depth = s.depth + 1) : Moves env c (c.go (s.returning c.state))
  | refuseCircle {name : String} (hmem : name ∈ c.state.inProgress) :
    Moves env c (c.refuse (.recursion (c.state.inProgress ++ [name])))
  | refuseDepth {rs : RuleSet} (hrs : rs ∈ env.policy.ruleSets) (hfree : rs.name ∉ c.state.inProgress)
    (hdeep : env.options.maxDepth ≤ c.state.depth) : Moves env c (c.refuse (.internal (.depthExceeded rs.name)))
  | openScope (σ : Scope) : Moves env c (c.openScope σ)
  | setScope {m : Moment} (hm : m ∈ c.moments) (hopened : m.opened <:+ c.now.opened) :
    Moves env c (c.go { c.state with scope := m.state.scope })
  | closeScope {m : Moment} {id : Nat} (hm : m ∈ c.moments) (hopened : c.now.opened = id :: m.opened) :
    Moves env c (c.closeScope id m.state.scope)

abbrev Runs (env : Env) : Course → Course → Prop := Relation.ReflTransGen (Moves env)

@[simp] theorem state_go (s : State) (c : Course) : (c.go s).state = s := rfl

theorem now_mem (c : Course) : c.now ∈ c.moments := List.mem_cons_self

/-- Every move goes on to one moment more. -/
theorem Moves.moments_eq {env : Env} {c c' : Course} (h : c.Moves env c') : c'.moments = c'.now :: c.moments := by
  cases h <;> rfl

theorem Runs.mem {env : Env} {c c' : Course} (h : c.Runs env c') {m : Moment} (hm : m ∈ c.moments) :
    m ∈ c'.moments := by
  induction h with
  | refl => exact hm
  | tail _ hmove ih =>
    rw [hmove.moments_eq]
    exact List.mem_cons_of_mem _ ih

/-- A rule set was refused with an error. -/
def Refused (e : EvalError) (c : Course) : Prop := ∃ m ∈ c.moments, m.refused = some e

theorem Refused.later {e : EvalError} {c c' : Course} (h : c.Refused e) (hmem : ∀ m ∈ c.moments, m ∈ c'.moments) :
    c'.Refused e := by
  obtain ⟨m, hm, he⟩ := h
  exact ⟨m, hmem m hm, he⟩

/-- An evaluation that comes from one course to another: by moves, to where it stood, with the same scopes open. -/
structure Comes (env : Env) (c : Course) (outcome : Except EvalError β) (c' : Course) : Prop where
  runs : c.Runs env c'
  context : c'.state.context = c.state.context
  opened : c'.now.opened = c.now.opened
  refused : ∀ e, outcome = .error e → e.IsRefusal → c'.Refused e

namespace Comes

variable {env : Env} {β γ : Type} {c c' c'' : Course} {outcome : Except EvalError β} {outcome' : Except EvalError γ}

theorem refl (h : ∀ e, outcome = .error e → ¬e.IsRefusal) : c.Comes env outcome c :=
  ⟨.refl, rfl, rfl, fun e he hrefusal => absurd hrefusal (h e he)⟩

theorem trans (h : c.Comes env outcome c') (h' : c'.Comes env outcome' c'') : c.Comes env outcome' c'' :=
  ⟨h.runs.trans h'.runs, h'.context.trans h.context, h'.opened.trans h.opened, h'.refused⟩

/-- What was raised is still raised where less is asked of the outcome. -/
theorem congr (h : c.Comes env outcome c') (he : ∀ e, outcome' = .error e → outcome = .error e) :
    c.Comes env outcome' c' :=
  ⟨h.runs, h.context, h.opened, fun e h' => h.refused e (he e h')⟩

theorem of_stays {s : State} (hs : c.state.Stays s) (h : ∀ e, outcome = .error e → ¬e.IsRefusal) :
    c.Comes env outcome (c.go s) :=
  ⟨.single (.stay hs), hs.context, rfl, fun e he hrefusal => absurd hrefusal (h e he)⟩

/-- The environment is changed at the end. -/
theorem setBindings (h : c.Comes env outcome c') (b : Bindings) :
    c.Comes env outcome (c'.go { c'.state with bindings := b }) := by
  refine ⟨h.runs.tail (.stay ⟨rfl, rfl, rfl⟩), h.context, h.opened, fun e he hrefusal => ?_⟩
  exact (h.refused e he hrefusal).later fun m hm => List.mem_cons_of_mem _ hm

/-- The environment is changed at the beginning. -/
theorem of_setBindings {b : Bindings} (h : (c.go { c.state with bindings := b }).Comes env outcome c') :
    c.Comes env outcome c' := by
  have hset : c.Comes env (.ok () : Except EvalError Unit) (c.go { c.state with bindings := b }) :=
    of_stays ⟨rfl, rfl, rfl⟩ not_refusal_ok
  exact hset.trans h

theorem inProgress (h : c.Comes env outcome c') : c'.state.inProgress = c.state.inProgress :=
  congrArg Context.inProgress h.context

theorem depth (h : c.Comes env outcome c') : c'.state.depth = c.state.depth := congrArg Context.depth h.context

end Comes
end Course

/-- The rule sets in progress are different ones of the policy, and rules are nested to `n` levels more. -/
structure State.AtLevel (env : Env) (n : Nat) (s : State) : Prop where
  nested : s.Nested env.policy
  level : s.inProgress.length + n = env.policy.ruleSets.length + 1

theorem State.AtLevel.congr {env : Env} {n : Nat} {s t : State} (h : s.AtLevel env n)
    (hprogress : t.inProgress = s.inProgress) (hdepth : t.depth = s.depth) : t.AtLevel env n :=
  ⟨h.nested.congr hprogress hdepth, by rw [hprogress, h.level]⟩

/-- There are not more rule sets in progress than the policy has, so a level is left. -/
theorem State.AtLevel.pos {env : Env} {n : Nat} {s : State} (h : s.AtLevel env n) : 0 < n := by
  have hlevel := h.level
  have hle := h.nested.depth_le
  rw [h.nested.depth] at hle
  omega

theorem State.AtLevel.comes {env : Env} {n : Nat} {β : Type} {c c' : Course} {outcome : Except EvalError β}
    (h : c.state.AtLevel env n) (hcomes : c.Comes env outcome c') : c'.state.AtLevel env n :=
  h.congr hcomes.inProgress hcomes.depth

namespace Course

variable {env : Env} {n : Nat} {α β γ : Type}

/-! ## Computations -/

theorem Eval.ext {w w' : Eval β} (h : ∀ c, w.run c = w'.run c) : w = w' := funext h

theorem run_bind (m : Eval β) (f : β → Eval γ) (c : Course) :
    (m >>= f).run c = match m.run c with
      | (.ok b, c) => (f b).run c
      | (.error e, c) => (.error e, c) := by
  have hcont : (m >>= f).run c = ExceptT.bindCont f (m.run c).1 (m.run c).2 := rfl
  rw [hcont]
  rcases m.run c with ⟨_ | _, _⟩ <;> rfl

/-- From states at a level, a recorded computation leads where the computation leads, by moves. -/
structure Eval.Follows (env : Env) (n : Nat) (w : Eval β) (m : PolicyEngine.Eval β) : Prop where
  erases : ∀ c : Course, c.state.AtLevel env n → m.run c.state = ((w.run c).1, (w.run c).2.state)
  comes : ∀ c : Course, c.state.AtLevel env n → c.Comes env (w.run c).1 (w.run c).2

namespace Eval.Follows

theorem pure (b : β) : Eval.Follows env n (Pure.pure b) (Pure.pure b) :=
  ⟨fun _ _ => rfl, fun _ _ => .refl not_refusal_ok⟩

theorem throw {e : EvalError} (he : ¬e.IsRefusal) :
    Eval.Follows env n (MonadExcept.throw e : Eval β) (MonadExcept.throw e) :=
  ⟨fun _ _ => rfl, fun _ _ => .refl fun _ h => by
    cases h
    exact he⟩

theorem step {m : PolicyEngine.Eval β} (hm : m.Stays) : Eval.Follows env n (Course.step m) m :=
  ⟨fun _ _ => rfl, fun c _ => .of_stays (hm c.state).1 (hm c.state).2⟩

theorem bind {w : Eval β} {m : PolicyEngine.Eval β} {wf : β → Eval γ} {f : β → PolicyEngine.Eval γ}
    (hm : Eval.Follows env n w m) (hf : ∀ b, Eval.Follows env n (wf b) (f b)) :
    Eval.Follows env n (w >>= wf) (m >>= f) := by
  constructor
  · intro c hc
    have hcomes := hm.comes c hc
    rw [Eval.run_bind, run_bind, hm.erases c hc]
    rcases hrun : w.run c with ⟨e | b, c₁⟩
    · rfl
    · rw [hrun] at hcomes
      exact (hf b).erases c₁ (hc.comes hcomes)
  · intro c hc
    have hcomes := hm.comes c hc
    rw [run_bind]
    rcases hrun : w.run c with ⟨e | b, c₁⟩ <;> rw [hrun] at hcomes
    · exact hcomes.congr fun _ he => by
        cases he
        rfl
    · exact hcomes.trans ((hf b).comes c₁ (hc.comes hcomes))

theorem get {f : State → PolicyEngine.Eval β} {wf : Course → Eval β}
    (hf : ∀ c, Eval.Follows env n (wf c) (f c.state)) :
    Eval.Follows env n (do let c ← MonadState.get; wf c) (do let s ← MonadState.get; f s) :=
  ⟨fun c => (hf c).erases c, fun c => (hf c).comes c⟩

theorem extending {f : Bindings → Option Bindings} {b : β} {w : Eval β} {m : PolicyEngine.Eval β}
    (hm : Eval.Follows env n w m) :
    Eval.Follows env n (Course.extending f b w) (PolicyEngine.Eval.extending f b m) := by
  constructor
  · intro c hc
    simp only [PolicyEngine.Eval.run_extending, Course.extending, ExceptT.run_mk]
    cases f c.state.bindings with
    | none => rfl
    | some b =>
      have h := hm.erases (c.go { c.state with bindings := b }) (hc.congr rfl rfl)
      simp only [state_go] at h
      simp only [h]
      rfl
  · intro c hc
    simp only [Course.extending, ExceptT.run_mk]
    cases f c.state.bindings with
    | none => exact .refl not_refusal_ok
    | some b =>
      have h := hm.comes (c.go { c.state with bindings := b }) (hc.congr rfl rfl)
      exact (h.setBindings _).of_setBindings

theorem forAll {test : β → PolicyEngine.Eval Bool} {wtest : β → Eval Bool}
    (ht : ∀ b, Eval.Follows env n (wtest b) (test b)) (bs : List β) :
    Eval.Follows env n (Course.forAll wtest bs) (PolicyEngine.Eval.forAll test bs) := by
  induction bs with
  | nil => exact .pure true
  | cons b rest ih =>
    refine (ht b).bind fun holds => ?_
    cases holds with
    | true => exact ih
    | false => exact .pure false

theorem foldlM {f : γ → β → PolicyEngine.Eval γ} {wf : γ → β → Eval γ}
    (hf : ∀ c b, Eval.Follows env n (wf c b) (f c b)) (bs : List β) (start : γ) :
    Eval.Follows env n (bs.foldlM wf start) (bs.foldlM f start) := by
  induction bs generalizing start with
  | nil => exact .pure start
  | cons b rest ih =>
    simp only [List.foldlM_cons]
    exact (hf start b).bind ih

end Eval.Follows

/-! ## Searches -/

/-- Where a recorded search ends, without the record. -/
def Step.erase (r : Step α) : PolicyEngine.Step α := ⟨r.outcome, r.found, r.course.state⟩

/-- An evaluation came from one course to another, and the scopes that were open at the first are still open. -/
structure Within (env : Env) (base c : Course) : Prop where
  runs : base.Runs env c
  opened : base.now.opened <:+ c.now.opened

theorem Within.refl (env : Env) (c : Course) : c.Within env c := ⟨.refl, List.suffix_rfl⟩

theorem Within.comes {c₀ c c' : Course} {outcome : Except EvalError β} (h : c₀.Within env c)
    (hcomes : c.Comes env outcome c') : c₀.Within env c' :=
  ⟨h.runs.trans hcomes.runs, hcomes.opened ▸ h.opened⟩

/-- From states at a level, a recorded search leads where the search leads, by moves. Since a continuation of a search
may go back to a scope that was in force before, this is asked of the courses that come from a given one. -/
structure Search.Follows (env : Env) (n : Nat) (c₀ : Course) (w : Search α) (search : PolicyEngine.Search α) :
    Prop where
  erases : ∀ (found : α) (c : Course), c₀.Within env c → c.state.AtLevel env n →
    search found c.state = (w found c).erase
  comes : ∀ (found : α) (c : Course), c₀.Within env c → c.state.AtLevel env n →
    c.Comes env (w found c).outcome (w found c).course

namespace Search.Follows

variable {c₀ : Course}

theorem leaf {search : PolicyEngine.Search α} (h : search.Stays) :
    Search.Follows env n c₀ (.leaf search) search :=
  ⟨fun _ _ _ _ => rfl, fun found c _ _ => .of_stays (h found c.state).1 (h found c.state).2⟩

theorem exhausted : Search.Follows env n c₀ (.leaf (.exhausted : PolicyEngine.Search α)) .exhausted :=
  leaf .exhausted

theorem raise {e : EvalError} (he : ¬e.IsRefusal) :
    Search.Follows env n c₀ (.leaf (.raise e : PolicyEngine.Search α)) (.raise e) :=
  leaf (.raise he)

theorem accept (f : α → α) : Search.Follows env n c₀ (.leaf (.accept f)) (.accept f) := leaf (.accept f)

/-- The continuation of a computation matters for the results the computation has. -/
theorem afterSuch {w : Eval β} {m : PolicyEngine.Eval β} {wk : β → Search α} {k : β → PolicyEngine.Search α}
    {p : β → Prop} (hm : Eval.Follows env n w m) (hp : ∀ s b, (m.run s).1 = .ok b → p b)
    (hk : ∀ b, p b → Search.Follows env n c₀ (wk b) (k b)) : Search.Follows env n c₀ (.after w wk) (.after m k) := by
  constructor
  · intro found c hin hc
    have hcomes := hm.comes c hc
    have hb := hp c.state
    simp only [Search.after, PolicyEngine.Search.after]
    rw [hm.erases c hc] at hb ⊢
    rcases hrun : w.run c with ⟨e | b, c₁⟩ <;> rw [hrun] at hb hcomes
    · rfl
    · exact (hk b (hb b rfl)).erases found c₁ (hin.comes hcomes) (hc.comes hcomes)
  · intro found c hin hc
    have hcomes := hm.comes c hc
    have hb := hp c.state
    rw [hm.erases c hc] at hb
    simp only [Search.after]
    rcases hrun : w.run c with ⟨e | b, c₁⟩ <;> rw [hrun] at hcomes hb
    · exact hcomes.congr fun _ he => by
        cases he
        rfl
    · exact hcomes.trans ((hk b (hb b rfl)).comes found c₁ (hin.comes hcomes) (hc.comes hcomes))

theorem after {w : Eval β} {m : PolicyEngine.Eval β} {wk : β → Search α} {k : β → PolicyEngine.Search α}
    (hm : Eval.Follows env n w m) (hk : ∀ b, Search.Follows env n c₀ (wk b) (k b)) :
    Search.Follows env n c₀ (.after w wk) (.after m k) :=
  afterSuch (p := fun _ => True) hm (fun _ _ _ => trivial) fun b _ => hk b

theorem afterSome {w : Eval (Option β)} {m : PolicyEngine.Eval (Option β)} {wk : β → Search α}
    {k : β → PolicyEngine.Search α} (hm : Eval.Follows env n w m) (hk : ∀ b, Search.Follows env n c₀ (wk b) (k b)) :
    Search.Follows env n c₀ (.afterSome w wk) (.afterSome m k) := by
  refine after hm fun found => ?_
  cases found with
  | none => exact exhausted
  | some b => exact hk b

theorem withBindings {wk : Bindings → Search α} {k : Bindings → PolicyEngine.Search α}
    (hk : ∀ b, Search.Follows env n c₀ (wk b) (k b)) :
    Search.Follows env n c₀ (.withBindings wk) (.withBindings k) :=
  ⟨fun found c => (hk c.state.bindings).erases found c, fun found c => (hk c.state.bindings).comes found c⟩

theorem extending (f : Bindings → Option Bindings) {wk : Search α} {k : PolicyEngine.Search α}
    (hk : Search.Follows env n c₀ wk k) : Search.Follows env n c₀ (.extending f wk) (.extending f k) := by
  have hin : ∀ {c : Course} (b : Bindings), c₀.Within env c →
      c₀.Within env (c.go { c.state with bindings := b }) :=
    fun _ h => ⟨h.runs.tail (.stay ⟨rfl, rfl, rfl⟩), h.opened⟩
  constructor
  · intro found c hc₀ hc
    simp only [Search.extending, PolicyEngine.Search.extending]
    cases f c.state.bindings with
    | none => rfl
    | some b =>
      have h := hk.erases found (c.go { c.state with bindings := b }) (hin b hc₀) (hc.congr rfl rfl)
      simp only [state_go] at h
      simp only [h]
      rfl
  · intro found c hc₀ hc
    simp only [Search.extending]
    cases f c.state.bindings with
    | none => exact .refl not_refusal_ok
    | some b =>
      have h := hk.comes found (c.go { c.state with bindings := b }) (hin b hc₀) (hc.congr rfl rfl)
      exact (h.setBindings _).of_setBindings

theorem unifying (x y : Term) {wk : Search α} {k : PolicyEngine.Search α} (hk : Search.Follows env n c₀ wk k) :
    Search.Follows env n c₀ (.unifying x y wk) (.unifying x y k) :=
  hk.extending (Bindings.unify x y)

theorem each {wk : β → Search α} {k : β → PolicyEngine.Search α} (hk : ∀ b, Search.Follows env n c₀ (wk b) (k b))
    (bs : List β) : Search.Follows env n c₀ (.each bs wk) (.each bs k) := by
  induction bs with
  | nil => exact exhausted
  | cons b rest ih =>
    constructor
    · intro found c hin hc
      have hcomes := (hk b).comes found c hin hc
      simp only [Search.each, PolicyEngine.Search.each]
      rw [(hk b).erases found c hin hc]
      rcases hrun : wk b found c with ⟨_ | _ | _, found₁, c₁⟩ <;> rw [hrun] at hcomes
      · rfl
      · exact ih.erases found₁ c₁ (hin.comes hcomes) (hc.comes hcomes)
      · rfl
    · intro found c hin hc
      have hcomes := (hk b).comes found c hin hc
      simp only [Search.each]
      rcases hrun : wk b found c with ⟨_ | _ | _, found₁, c₁⟩ <;> rw [hrun] at hcomes
      · exact hcomes
      · exact hcomes.trans (ih.comes found₁ c₁ (hin.comes hcomes) (hc.comes hcomes))
      · exact hcomes

theorem endingWith (flow : Flow) {w : Search α} {search : PolicyEngine.Search α}
    (h : Search.Follows env n c₀ w search) :
    Search.Follows env n c₀ (.endingWith flow w) (.endingWith flow search) := by
  constructor
  · intro found c hin hc
    simp only [PolicyEngine.Search.endingWith, h.erases found c hin hc]
    rfl
  · intro found c hin hc
    refine (h.comes found c hin hc).congr fun e he => ?_
    simp only [Search.endingWith] at he
    cases ho : (w found c).outcome <;> rw [ho] at he <;> cases he
    rfl

theorem noting {w : Search α} {search : PolicyEngine.Search α} (h : Search.Follows env n c₀ w search) :
    Search.Follows env n c₀ w.noting search.noting := by
  constructor
  · intro found c hin hc
    simp only [PolicyEngine.Search.noting, h.erases found.1 c hin hc]
    rfl
  · exact fun found c hin hc => h.comes found.1 c hin hc

theorem orElse {w : Search (α × Bool)} {search : PolicyEngine.Search (α × Bool)} {wo : Eval Unit}
    {otherwise : PolicyEngine.Eval Unit} (h : Search.Follows env n c₀ w search)
    (ho : Eval.Follows env n wo otherwise) : Search.Follows env n c₀ (.orElse w wo) (.orElse search otherwise) := by
  constructor
  · intro found c hin hc
    have hcomes := h.comes (found, false) c hin hc
    simp only [Search.orElse, PolicyEngine.Search.orElse]
    rw [h.erases (found, false) c hin hc]
    rcases hrun : w (found, false) c with ⟨e | flow, ⟨found₁, flag⟩, c₁⟩ <;> rw [hrun] at hcomes
    · rfl
    · cases flag with
      | true => rfl
      | false =>
        dsimp only [Step.erase]
        rw [ho.erases c₁ (hc.comes hcomes)]
        rcases wo.run c₁ with ⟨e | _, c₂⟩ <;> rfl
  · intro found c hin hc
    have hcomes := h.comes (found, false) c hin hc
    simp only [Search.orElse]
    rcases hrun : w (found, false) c with ⟨e | flow, ⟨found₁, flag⟩, c₁⟩ <;> rw [hrun] at hcomes
    · exact hcomes
    · cases flag with
      | true => exact hcomes
      | false =>
        have hnext := ho.comes c₁ (hc.comes hcomes)
        dsimp only
        rcases hrun₁ : wo.run c₁ with ⟨e | _, c₂⟩ <;> rw [hrun₁] at hnext
        · exact hcomes.trans (hnext.congr fun _ he => by
            cases he
            rfl)
        · exact hcomes.trans (hnext.congr fun _ he => by cases he)

/-! ### Scopes -/

/-- A continuation that was reached in a scope is followed in the enclosing one. -/
theorem enclosed {c : Course} {wk : Search α} {k : PolicyEngine.Search α} (hk : Search.Follows env n c₀ wk k)
    (hc : c₀.Within env c) :
    Search.Follows env n c (.enclosed c.state.scope wk) (Coupling.enclosed c.state.scope k) := by
  have hback : ∀ {inner : Course}, c.Within env inner →
      inner.Moves env (inner.go { inner.state with scope := c.state.scope }) :=
    fun h => .setScope (h.runs.mem c.now_mem) h.opened
  have hin : ∀ {inner : Course}, c.Within env inner →
      c₀.Within env (inner.go { inner.state with scope := c.state.scope }) :=
    fun h => ⟨(hc.runs.trans h.runs).tail (hback h), hc.opened.trans h.opened⟩
  constructor
  · intro found inner hinner hlevel
    have h := hk.erases found (inner.go { inner.state with scope := c.state.scope }) (hin hinner) (hlevel.congr rfl rfl)
    simp only [state_go] at h
    simp only [Search.enclosed, Coupling.enclosed, h]
    rfl
  · intro found inner hinner hlevel
    have h := hk.comes found (inner.go { inner.state with scope := c.state.scope }) (hin hinner) (hlevel.congr rfl rfl)
    have hmem : inner.now ∈ (wk found (inner.go { inner.state with scope := c.state.scope })).course.moments :=
      h.runs.mem (List.mem_cons_of_mem _ inner.now_mem)
    constructor
    · have hruns := (Relation.ReflTransGen.single (hback hinner)).trans h.runs
      exact hruns.tail (.setScope hmem (h.opened ▸ List.suffix_rfl))
    · simp only [Search.enclosed, state_go, State.context, Context.mk.injEq, true_and]
      exact ⟨h.inProgress, h.depth⟩
    · exact h.opened
    · exact fun e he hrefusal => (h.refused e he hrefusal).later fun m hm => List.mem_cons_of_mem _ hm

/-- A search in a scope of its own, however the search is followed in the scope. -/
theorem inScope (σ : Scope) {wsearch : Search α → Search α} {search : PolicyEngine.Search α → PolicyEngine.Search α}
    (hsearch : ∀ (c : Course) {wk : Search α} {k : PolicyEngine.Search α}, Search.Follows env n c wk k →
      Search.Follows env n c (wsearch wk) (search k))
    {wk : Search α} {k : PolicyEngine.Search α} (hk : Search.Follows env n c₀ wk k) :
    Search.Follows env n c₀ (.inScope σ wsearch wk) (.inScope σ search k) := by
  have hopen : ∀ c : Course, c.Within env (c.openScope σ) :=
    fun c => ⟨.single (.openScope σ), List.suffix_cons _ _⟩
  constructor
  · intro found c hin hlevel
    have h := (hsearch c (hk.enclosed hin)).erases found (c.openScope σ) (hopen c) (hlevel.congr rfl rfl)
    rw [Coupling.inScope_eq]
    simp only [show (c.openScope σ).state = c.state.openScope σ from rfl] at h
    simp only [h]
    rfl
  · intro found c hin hlevel
    have h := (hsearch c (hk.enclosed hin)).comes found (c.openScope σ) (hopen c) (hlevel.congr rfl rfl)
    have hmem := h.runs.mem ((hopen c).runs.mem c.now_mem)
    constructor
    · exact ((hopen c).runs.trans h.runs).tail (.closeScope hmem h.opened)
    · simp only [Search.inScope, closeScope, reach, state, State.closeScope, State.context, Context.mk.injEq, true_and]
      exact ⟨h.inProgress, h.depth⟩
    · exact congrArg List.tail h.opened
    · exact fun e he hrefusal => (h.refused e he hrefusal).later fun m hm => List.mem_cons_of_mem _ hm

end Search.Follows

theorem Eval.Follows.gather {w : Search α} {search : PolicyEngine.Search α} (h : ∀ c, Search.Follows env n c w search)
    (found : α) : Eval.Follows env n (Search.gather w found) (PolicyEngine.Search.gather search found) := by
  constructor
  · intro c hc
    simp only [PolicyEngine.Search.gather, Eval.run_mk, (h c).erases found c (.refl _ c) hc]
    rfl
  · intro c hc
    refine ((h c).comes found c (.refl _ c) hc).congr fun e he => ?_
    simp only [Search.gather, ExceptT.run_mk] at he
    cases ho : (w found c).outcome <;> rw [ho] at he <;> cases he
    rfl

end Course
end PolicyEngine
