import Mathlib.Order.Filter.AtTopBot.Basic
import PolicyEngine.Proofs.Variables

/-!
Two evaluations side by side. A coupling says which states of the two belong together and which ends of the
first one are followed by the second; a search simulates another when, from states that belong together, every
followed end of the first is an end of the second. The combinators of searches respect simulation, so a
simulation of the evaluator has to be argued for its primitive steps only.
-/
namespace PolicyEngine

/-- The parts of a state that a search has to give back as it found them. -/
structure Frame where
  bindings : Bindings
  scope : Scope
  inProgress : List String
  depth : Nat

def State.frame (s : State) : Frame := ⟨s.bindings, s.scope, s.inProgress, s.depth⟩

theorem State.frame_setBindings {r s : State} {b : Bindings} (h : r.frame = { s with bindings := b }.frame)
    (c : Bindings) : { r with bindings := c }.frame = { s with bindings := c }.frame := by
  simp only [State.frame, Frame.mk.injEq] at h ⊢
  exact ⟨trivial, h.2⟩

theorem State.frame_setScope {r s : State} {σ : Scope} (h : r.frame = { s with scope := σ }.frame)
    (τ : Scope) : { r with scope := τ }.frame = { s with scope := τ }.frame := by
  simp only [State.frame, Frame.mk.injEq] at h ⊢
  exact ⟨h.1, trivial, h.2.2⟩

/-- The state after a nested evaluation: what it got from the caller is put back. -/
def State.returning (caller s : State) : State :=
  { s with bindings := caller.bindings, inProgress := caller.inProgress, depth := caller.depth }

/-- The state in which a rule set is evaluated. -/
def State.entered (name : String) (s : State) : State :=
  { s with bindings := {}, inProgress := s.inProgress ++ [name], depth := s.depth + 1 }

/-- The state after the evaluation of a rule set: the caller gets its environment back, and the last rule set in
progress is taken away. -/
def State.exiting (caller s : State) : State :=
  { s with bindings := caller.bindings, inProgress := s.inProgress.dropLast, depth := s.depth - 1 }

/-- Where the rule set that was entered is the last in progress, what is taken away is that. -/
theorem State.exiting_eq {r s : State} {name : String} (hprogress : r.inProgress = s.inProgress ++ [name])
    (hdepth : r.depth = s.depth + 1) : s.exiting r = s.returning r := by
  rw [exiting, hprogress, hdepth, List.dropLast_concat, Nat.add_sub_cancel]
  rfl

theorem State.exiting_of_frame {r s : State} {name : String} (h : r.frame = (s.entered name).frame) :
    s.exiting r = s.returning r :=
  exiting_eq (congrArg Frame.inProgress h) (congrArg Frame.depth h)

/-- An evaluation of a rule set that restores the frame gives the caller its own back. -/
theorem State.frame_exiting {r s : State} {name : String} (h : r.frame = (s.entered name).frame) :
    (s.exiting r).frame = s.frame := by
  have hscope : r.scope = s.scope := congrArg Frame.scope h
  simp only [exiting_of_frame h, State.frame, returning, hscope]

/-! ## Running computations -/

namespace Eval

variable {β γ : Type}

@[simp] theorem run_pure (b : β) (s : State) : (pure b : Eval β).run s = (.ok b, s) := rfl

@[simp] theorem run_throw (e : EvalError) (s : State) : (throw e : Eval β).run s = (.error e, s) := rfl

@[simp] theorem run_get (s : State) : (get : Eval State).run s = (.ok s, s) := rfl

@[simp] theorem run_modify (f : State → State) (s : State) : (modify f : Eval Unit).run s = (.ok (), f s) := rfl

@[simp] theorem run_set (t s : State) : (set t : Eval Unit).run s = (.ok (), t) := rfl

@[simp] theorem run_ofExcept (r : Except EvalError β) (s : State) : (ofExcept r).run s = (r, s) := rfl

@[simp] theorem run_mk (m : StateM State (Except EvalError β)) (s : State) : (ExceptT.mk m : Eval β).run s = m s := rfl

theorem ext {m m' : Eval β} (h : ∀ s, m.run s = m'.run s) : m = m' := funext h

theorem run_bind (m : Eval β) (f : β → Eval γ) (s : State) :
    (m >>= f).run s = match m.run s with
      | (.ok b, s) => (f b).run s
      | (.error e, s) => (.error e, s) := by
  have hcont : (m >>= f).run s = ExceptT.bindCont f (m.run s).1 (m.run s).2 := rfl
  rw [hcont]
  rcases m.run s with ⟨_ | _, _⟩ <;> rfl

theorem run_extending (extend : Bindings → Option Bindings) (b : β) (m : Eval β) (s : State) :
    (extending extend b m).run s = match extend s.bindings with
      | none => (.ok b, s)
      | some c =>
        let r := m.run { s with bindings := c }
        (r.1, { r.2 with bindings := r.2.bindings.undo s.bindings.mark }) := rfl

/-- Runs a computation in a state made from the current one, and goes on in one made from the current and the last. -/
def between (inner : State → State) (outer : State → State → State) (m : Eval β) : Eval β := ExceptT.mk fun s =>
  let r := m.run (inner s)
  (r.1, outer s r.2)

/-- Runs a computation in a state made from the current one, to which it returns. -/
def nested (inner : State → State) (m : Eval β) : Eval β := between inner State.returning m

/-- Runs a computation as a rule set is evaluated. -/
def inside (name : String) (m : Eval β) : Eval β := between (State.entered name) State.exiting m

theorem run_between (inner : State → State) (outer : State → State → State) (m : Eval β) (s : State) :
    (between inner outer m).run s = ((m.run (inner s)).1, outer s (m.run (inner s)).2) := rfl

theorem run_nested (inner : State → State) (m : Eval β) (s : State) :
    (nested inner m).run s = ((m.run (inner s)).1, s.returning (m.run (inner s)).2) := rfl

theorem run_inside (name : String) (m : Eval β) (s : State) :
    (inside name m).run s = ((m.run (s.entered name)).1, s.exiting (m.run (s.entered name)).2) := rfl

end Eval

theorem Env.run_entering (env : Env) (rs : RuleSet) (m : Eval β) (s : State) :
    (env.entering rs m).run s =
      if s.inProgress.contains rs.name then (.error (.recursion (s.inProgress ++ [rs.name])), s)
      else if env.options.maxDepth ≤ s.depth then (.error (.internal (.depthExceeded rs.name)), s)
      else (Eval.inside rs.name m).run s := rfl

theorem RuleSet.run_recalling (rs : RuleSet) (m : Eval (Option Term)) (s : State) :
    (rs.recalling m).run s =
      if rs.kind = .function then (.ok none, s)
      else match s.remembered? rs.path with
        | some value => (.ok value, s)
        | none => match m.run s with
          | (.ok value, s) => (.ok value, s.remember rs.path value)
          | (.error e, s) => (.error e, s) := by
  simp only [RuleSet.recalling]
  split
  · rfl
  · simp only [Eval.run_bind, Eval.run_get]
    cases s.remembered? rs.path with
    | some value => rfl
    | none =>
      simp only [Eval.run_bind]
      rcases m.run s with ⟨_ | _, _⟩ <;> rfl

/-! ## Scopes -/

/-- Only the variables of a kind occur in the replaced documents, and only the functions of a kind are
replaced. -/
structure Scope.VarsIn (p q : String → Prop) (σ : Scope) : Prop where
  input : ∀ t, σ.input = some t → t.VarsIn p
  data : ∀ d ∈ σ.data, d.2.VarsIn p
  functions : ∀ f ∈ σ.functions, q f.1
  values : ∀ f ∈ σ.functions, ∀ v, f.2 = .value v → v.VarsIn p

theorem Scope.varsIn_of_forall {p q : String → Prop} (hp : ∀ x, p x) (hq : ∀ x, q x) (σ : Scope) : σ.VarsIn p q :=
  ⟨fun t _ => t.varsIn_of_forall hp, fun d _ => d.2.varsIn_of_forall hp, fun _ _ => hq _,
    fun _ _ v _ => v.varsIn_of_forall hp⟩

theorem Scope.VarsIn.mono {p p' q : String → Prop} {σ : Scope} (h : σ.VarsIn p q) (hp : ∀ x, p x → p' x) :
    σ.VarsIn p' q :=
  ⟨fun t ht => (h.input t ht).mono hp, fun d hd => (h.data d hd).mono hp, h.functions,
    fun f hf v hv => (h.values f hf v hv).mono hp⟩

/-- The scopes have the same overrides; their numbers may differ. -/
structure Scope.Agrees (σ τ : Scope) : Prop where
  input : τ.input = σ.input
  data : τ.data = σ.data
  functions : τ.functions = σ.functions

theorem Scope.VarsIn.agrees {p q : String → Prop} {σ τ : Scope} (h : σ.VarsIn p q) (ha : σ.Agrees τ) :
    τ.VarsIn p q := by
  refine ⟨?_, ?_, ?_, ?_⟩
  · rw [ha.input]
    exact h.input
  · rw [ha.data]
    exact h.data
  · rw [ha.functions]
    exact h.functions
  · rw [ha.functions]
    exact h.values

/-- The same value on both sides, with a property. -/
def Both (p : β → Prop) (a b : β) : Prop := b = a ∧ p a

/-- A value, if there is one, has a property. -/
def IfSome (p : β → Prop) (r : Option β) : Prop := ∀ b, r = some b → p b

theorem ifSome_none {p : β → Prop} : IfSome p none := nofun

theorem ifSome_some {p : β → Prop} {b : β} (h : p b) : IfSome p (some b) := by
  intro c hc
  cases hc
  exact h

/-- What is compared of the values that two searches accumulate, whether they may ask to stop, and which values of the
first search are admitted at its end. -/
structure Gathering (α α' : Type) where
  rel : α → α' → Prop
  stops : Prop := True
  admits : α → Prop := fun _ => True

instance {α α' : Type} : Coe (α → α' → Prop) (Gathering α α') := ⟨fun r => { rel := r }⟩

/-- The values found at the end belong together, and the search asked to stop only if it may. -/
def Gathering.Ends {α α' : Type} (A : Gathering α α') (outcome : Except EvalError Flow) (a : α) (a' : α') : Prop :=
  A.rel a a' ∧ (outcome = .ok .stop → A.stops)

/-! ## Couplings -/

/-- The variables that may occur in values, those of them that may occur in documents put in place of others, and
the functions that may be replaced. -/
structure Vocabulary where
  names : String → Prop
  free : String → Prop
  mocks : String → Prop

/-- An override target under which only the functions of a kind are replaced. -/
def Env.TargetIn (env : Env) (q : String → Prop) (target : Term) : Prop :=
  ∀ name, env.overrideTarget target = .ok (.function name) → q name

/-- The vocabulary without restrictions. -/
def Vocabulary.any : Vocabulary where
  names _ := True
  free _ := True
  mocks _ := True

/-- What is compared of two evaluations. The second one may come in stages, indexed by `ι`; what is said of it
is said of all stages that are late enough. -/
structure Coupling (ι : Type) extends Vocabulary where
  env : Env
  env' : Env
  /-- What is known of the run so far, and how it grows. -/
  World : Type
  later : World → World → Prop
  /-- The states that belong together. -/
  rel : World → State → State → Prop
  /-- How the answers of built-ins grow in the first run, and which of them are admitted at its end. -/
  grows : List BuiltinAnswer → List BuiltinAnswer → Prop
  within : List BuiltinAnswer → Prop
  /-- The errors of the first run that the second one has to share. -/
  follows : EvalError → Prop
  /-- The errors of the second run that need no counterpart. -/
  escapes : EvalError → Prop
  limit : Filter ι
  depths : Nat → Nat → Prop

namespace Coupling

variable {ι : Type} (C : Coupling ι) {α α' β β' γ γ' : Type}

/-- An end of the first run that is followed. -/
def Followed (outcome : Except EvalError β) (answers : List BuiltinAnswer) : Prop :=
  (∀ e, outcome = .error e → C.follows e) ∧ C.within answers

/-- The end of the second run answers to that of the first, which gives the frame back as it found it. -/
def Matches (w : C.World) (A : Gathering α α') (s : State) (r : Step α) (r' : Step α') : Prop :=
  (r'.outcome = r.outcome ∧ A.Ends r.outcome r.found r'.found ∧ C.rel w r.state r'.state ∧ r.state.frame = s.frame) ∨
    ∃ e, r'.outcome = .error e ∧ C.escapes e

/-- The answers of built-ins grow, and values that lead to admitted ones are admitted themselves. -/
def Advances (A : Gathering α α') (found : α) (s : State) (r : Step α) : Prop :=
  C.grows s.answers r.state.answers ∧ (A.admits r.found → A.admits found)

/-- Every followed end of a search with admitted values is an end of the other search, provided `P`. That the search
advances does not depend on `P`. -/
def Simulates (w : C.World) (P : Prop) (A : Gathering α α') (m : Search α) (m' : ι → Search α') : Prop :=
  (∀ found s, C.Advances A found s (m found s)) ∧
    (P → ∀ v, C.later w v → ∀ found found' s t, A.rel found found' → C.rel v s t →
      C.Followed (m found s).outcome (m found s).state.answers → A.admits (m found s).found →
        ∃ r', (∀ᶠ i in C.limit, m' i found' t = r') ∧ C.Matches v A s (m found s) r')

/-- Results that answer to each other. -/
def Results (B : β → β → Prop) : Except EvalError β → Except EvalError β → Prop
  | .ok b, .ok b' => B b b'
  | .error e, .error e' => e' = e
  | _, _ => False

/-- The end of the second computation answers to that of the first, which gives the frame back. -/
def Agree (w : C.World) (B : β → β → Prop) (s : State) (r r' : Except EvalError β × State) : Prop :=
  (Results B r.1 r'.1 ∧ C.rel w r.2 r'.2 ∧ r.2.frame = s.frame) ∨ ∃ e, r'.1 = .error e ∧ C.escapes e

/-- Every followed end of a computation is an end of the other computation, provided `P`. -/
def Computes (w : C.World) (P : Prop) (B : β → β → Prop) (m : Eval β) (m' : ι → Eval β) : Prop :=
  (∀ s, C.grows s.answers (m.run s).2.answers) ∧
    (P → ∀ v, C.later w v → ∀ s t, C.rel v s t → C.Followed (m.run s).1 (m.run s).2.answers →
      ∃ r', (∀ᶠ i in C.limit, (m' i).run t = r') ∧ C.Agree v B s (m.run s) r')

/-- What makes a coupling one of evaluations: it is kept by the primitive steps. -/
structure Lawful : Prop where
  later_refl : ∀ w, C.later w w
  later_trans : ∀ {u v w}, C.later u v → C.later v w → C.later u w
  grows_refl : ∀ a, C.grows a a
  grows_trans : ∀ {a b c}, C.grows a b → C.grows b c → C.grows a c
  within_between : ∀ {w s t a a'}, C.rel w s t → C.grows s.answers a → C.grows a a' → C.within a' → C.within a
  free_names : ∀ x, C.free x → C.names x
  bindings_eq : ∀ {w s t}, C.rel w s t → t.bindings = s.bindings
  bindings_vars : ∀ {w s t}, C.rel w s t → s.bindings.VarsIn C.names
  scope_agrees : ∀ {w s t}, C.rel w s t → s.scope.Agrees t.scope
  scope_vars : ∀ {w s t}, C.rel w s t → s.scope.VarsIn C.free C.mocks
  depth : ∀ {w s t}, C.rel w s t → C.depths s.depth t.depth
  setBindings : ∀ {w s t b}, C.rel w s t → b.VarsIn C.names →
    C.rel w { s with bindings := b } { t with bindings := b }
  scope : ∀ {w s t σ τ}, C.rel w s t → σ.Agrees τ → σ.VarsIn C.free C.mocks →
    ∃ w', C.rel w' (s.openScope σ) (t.openScope τ) ∧
      (∀ v', C.later w' v' → ∃ v, C.later w v ∧ ∀ s₁ t₁, C.rel v' s₁ t₁ →
        C.rel v { s₁ with scope := s.scope } { t₁ with scope := t.scope } ∧
          ∀ s₂ t₂, C.rel v s₂ t₂ → C.rel v' { s₂ with scope := s₁.scope } { t₂ with scope := t₁.scope }) ∧
      ∀ s₁ t₁, C.rel w' s₁ t₁ →
        C.rel w (s₁.closeScope (s.lastScope + 1) s.scope) (t₁.closeScope (t.lastScope + 1) t.scope)
  policy : C.env'.policy = C.env.policy
  registry : C.env'.registry = C.env.registry
  checkpoint : ∀ w, C.Computes w True Eq C.env.checkpoint fun _ => C.env'.checkpoint
  emit : ∀ w op d d' text,
    C.Computes w (C.depths d d') Eq (C.env.emit op d text) fun _ => C.env'.emit op d' text
  read : ∀ w path, C.Computes w True (Both (IfSome (Term.VarsIn C.names))) (C.env.read path)
    fun _ => C.env'.read path
  listKeys : ∀ w path, C.Computes w True (Both (IfSome fun ts => ∀ t ∈ ts, t.VarsIn C.names))
    (C.env.listKeys path) fun _ => C.env'.listKeys path
  callBuiltin : ∀ w b args, C.Computes w (C.env.registry.get? b.name = some b)
    (Both (IfSome (Term.VarsIn C.names))) (C.env.callBuiltin b args) fun _ => C.env'.callBuiltin b args

theorem Lawful.scope_names {C : Coupling ι} (h : C.Lawful) {w : C.World} {s t : State} (hst : C.rel w s t) :
    s.scope.VarsIn C.names C.mocks :=
  (h.scope_vars hst).mono h.free_names

variable {C} {w : C.World} {P Q : Prop} {A : Gathering α α'} {B : β → β → Prop} {D : γ → γ → Prop}

/-! ## Computations -/

theorem Simulates.guard {m : Search α} {m' : ι → Search α'} (hm : C.Simulates w P A m m') (hQ : Q → P) :
    C.Simulates w Q A m m' :=
  ⟨hm.1, fun q => hm.2 (hQ q)⟩

theorem Simulates.congr {m : Search α} {m' m₁' : ι → Search α'} (hm : C.Simulates w P A m m') (he : P → m' = m₁') :
    C.Simulates w P A m m₁' :=
  ⟨hm.1, fun hP => he hP ▸ hm.2 hP⟩

theorem Computes.guard {m : Eval β} {m' : ι → Eval β} (hm : C.Computes w P B m m') (hQ : Q → P) :
    C.Computes w Q B m m' :=
  ⟨hm.1, fun q => hm.2 (hQ q)⟩

theorem Results.mono {B₂ : β → β → Prop} (hB : ∀ b b', B b b' → B₂ b b') {r r' : Except EvalError β}
    (hr : Results B r r') : Results B₂ r r' := by
  cases r <;> cases r' <;> first | exact hr | exact hB _ _ hr

theorem Computes.mono {B₂ : β → β → Prop} {m : Eval β} {m' : ι → Eval β} (hm : C.Computes w P B m m')
    (hB : P → ∀ b b', B b b' → B₂ b b') : C.Computes w P B₂ m m' := by
  refine ⟨hm.1, fun hP v hv s t hst hf => ?_⟩
  obtain ⟨r', hr', hagree⟩ := hm.2 hP v hv s t hst hf
  exact ⟨r', hr', hagree.imp_left fun ⟨hres, hrel⟩ => ⟨hres.mono (hB hP), hrel⟩⟩

theorem computes_pure (h : C.Lawful) {b b' : β} (hb : P → B b b') : C.Computes w P B (pure b) fun _ => pure b' :=
  ⟨fun _ => h.grows_refl _, fun hP _ _ _ t hst _ =>
    ⟨(.ok b', t), .of_forall fun _ => rfl, .inl ⟨hb hP, hst, rfl⟩⟩⟩

theorem computes_throw (h : C.Lawful) (e : EvalError) : C.Computes w P B (throw e) fun _ => throw e :=
  ⟨fun _ => h.grows_refl _, fun _ _ _ _ t hst _ =>
    ⟨(.error e, t), .of_forall fun _ => rfl, .inl ⟨rfl, hst, rfl⟩⟩⟩

theorem computes_ofExcept (h : C.Lawful) {r r' : Except EvalError β} (hr : P → Results B r r') :
    C.Computes w P B (Eval.ofExcept r) fun _ => Eval.ofExcept r' :=
  ⟨fun _ => h.grows_refl _, fun hP _ _ _ t hst _ =>
    ⟨(r', t), .of_forall fun _ => rfl, .inl ⟨hr hP, hst, rfl⟩⟩⟩

theorem Computes.congr {m : Eval β} {m' m₁' : ι → Eval β} (hm : C.Computes w P B m m') (he : P → m' = m₁') :
    C.Computes w P B m m₁' :=
  ⟨hm.1, fun hP => he hP ▸ hm.2 hP⟩

/-- A computation that looks at the state goes on alike where the two states belong together. -/
theorem computes_get (h : C.Lawful) {f : State → Eval β} {f' : ι → State → Eval β}
    (hf : ∀ v, C.later w v → ∀ s t, C.Computes v (P ∧ C.rel v s t) B (f s) fun i => f' i t) :
    C.Computes w P B (get >>= f) fun i => get >>= f' i := by
  refine ⟨fun s => ?_, fun hP v hv s t hst hfol => ?_⟩
  · simpa [Eval.run_bind] using (hf w (h.later_refl w) s s).1 s
  · simp only [Eval.run_bind, Eval.run_get] at hfol ⊢
    exact (hf v hv s t).2 ⟨hP, hst⟩ v (h.later_refl v) s t hst hfol

/-- A part of the state that is the same where the two states belong together. -/
theorem computes_gets (h : C.Lawful) {δ : Type} (g : State → δ) {R : δ → Prop}
    (hg : ∀ v s t, C.rel v s t → g t = g s ∧ R (g s)) {f : δ → Eval β} {f' : ι → δ → Eval β}
    (hf : ∀ d, C.Computes w (P ∧ R d) B (f d) fun i => f' i d) :
    C.Computes w P B (get >>= fun s => f (g s)) fun i => get >>= fun s => f' i (g s) := by
  refine computes_get h fun v hv s t => ⟨(hf (g s)).1, fun ⟨hP, hst⟩ u hu => ?_⟩
  obtain ⟨he, hR⟩ := hg v s t hst
  rw [he]
  exact (hf (g s)).2 ⟨hP, hR⟩ u (h.later_trans hv hu)

theorem Computes.bind (h : C.Lawful) {m : Eval β} {m' : ι → Eval β} {f : β → Eval γ} {f' : ι → β → Eval γ}
    (hm : C.Computes w P B m m') (hf : ∀ b b', C.Computes w (P ∧ B b b') D (f b) fun i => f' i b') :
    C.Computes w P D (m >>= f) fun i => m' i >>= f' i := by
  constructor
  · intro s
    have hs := hm.1 s
    rw [Eval.run_bind]
    rcases hrun : m.run s with ⟨e | b, s₁⟩ <;> simp only [hrun] at hs ⊢
    · exact hs
    · exact h.grows_trans hs ((hf b b).1 s₁)
  · intro hP v hv s t hst hfol
    have hs := hm.2 hP v hv s t hst
    have hgrow := hm.1 s
    rw [Eval.run_bind] at hfol ⊢
    rcases hrun : m.run s with ⟨e | b, s₁⟩ <;> simp only [hrun] at hs hgrow hfol ⊢
    · obtain ⟨⟨r, t₁⟩, hr', hagree⟩ := hs ⟨fun e he => hfol.1 e (by simpa using he), hfol.2⟩
      cases r with
      | error e' =>
        refine ⟨(.error e', t₁), hr'.mono fun i hi => by rw [Eval.run_bind, hi], ?_⟩
        simpa [Agree, Results] using hagree
      | ok b' => simp [Agree, Results] at hagree
    · obtain ⟨⟨r, t₁⟩, hr', hagree⟩ :=
        hs ⟨nofun, h.within_between hst hgrow ((hf b b).1 s₁) hfol.2⟩
      cases r with
      | error e' =>
        refine ⟨(.error e', t₁), hr'.mono fun i hi => by rw [Eval.run_bind, hi], .inr ?_⟩
        simpa [Agree, Results] using hagree
      | ok b' =>
        obtain ⟨hb, hrel, hframe⟩ := hagree.resolve_right (by simp)
        obtain ⟨r', hr₁, hagree₁⟩ := (hf b b').2 ⟨hP, hb⟩ v hv s₁ t₁ hrel hfol
        refine ⟨r', (hr'.and hr₁).mono fun i hi => by rw [Eval.run_bind, hi.1]; exact hi.2, ?_⟩
        exact hagree₁.imp_left fun ⟨hres, hrel, hf₁⟩ => ⟨hres, hrel, hf₁.trans hframe⟩

/-- Computations run in other states. In these something else may be known, but nothing of that gets out. -/
theorem Computes.between {inner inner' : State → State} {outer outer' : State → State → State} {m : Eval β}
    {m' : ι → Eval β} (hanswers : ∀ s, (inner s).answers = s.answers) (houter : ∀ s r, (outer s r).answers = r.answers)
    (hframe : ∀ s r, r.frame = (inner s).frame → (outer s r).frame = s.frame)
    (hinner : ∀ v s t, C.rel v s t → ∃ v', C.rel v' (inner s) (inner' t) ∧
      ∀ s₁ t₁, s₁.frame = (inner s).frame → C.rel v' s₁ t₁ → C.rel v (outer s s₁) (outer' t t₁))
    (h : C.Lawful) (hm : ∀ v, C.Computes v P B m m') :
    C.Computes w P B (Eval.between inner outer m) fun i => Eval.between inner' outer' (m' i) := by
  refine ⟨fun s => ?_, fun hP v hv s t hst hfol => ?_⟩
  · rw [Eval.run_between, houter, ← hanswers s]
    exact (hm w).1 (inner s)
  · obtain ⟨v', henter, hleave⟩ := hinner v s t hst
    have hfol : C.Followed (m.run (inner s)).1 (m.run (inner s)).2.answers := by
      rw [← houter s]
      exact hfol
    obtain ⟨r', hr', hagree⟩ := (hm v').2 hP v' (h.later_refl v') _ _ henter hfol
    refine ⟨(r'.1, outer' t r'.2), hr'.mono fun i hi => by rw [Eval.run_between, hi], ?_⟩
    exact hagree.imp_left fun ⟨hres, hrel, hrestored⟩ =>
      ⟨hres, hleave _ _ hrestored hrel, hframe s _ hrestored⟩

/-- A nested evaluation beside a computation run in another state. -/
theorem Computes.nested {inner inner' : State → State} {outer' : State → State → State} {m : Eval β} {m' : ι → Eval β}
    (hanswers : ∀ s, (inner s).answers = s.answers) (hscope : ∀ s, (inner s).scope = s.scope)
    (hinner : ∀ v s t, C.rel v s t → ∃ v', C.rel v' (inner s) (inner' t) ∧
      ∀ s₁ t₁, s₁.scope = s.scope → C.rel v' s₁ t₁ → C.rel v (s.returning s₁) (outer' t t₁))
    (h : C.Lawful) (hm : ∀ v, C.Computes v P B m m') :
    C.Computes w P B (Eval.nested inner m) fun i => Eval.between inner' outer' (m' i) := by
  have hback : ∀ s r : State, r.frame = (inner s).frame → r.scope = s.scope :=
    fun s r hr => (congrArg Frame.scope hr).trans (hscope s)
  refine .between hanswers (fun _ _ => rfl) (fun s r hr => ?_) (fun v s t hst => ?_) h hm
  · simp only [State.frame, State.returning, hback s r hr]
  · obtain ⟨v', henter, hreturn⟩ := hinner v s t hst
    exact ⟨v', henter, fun s₁ t₁ hs₁ => hreturn s₁ t₁ (hback s s₁ hs₁)⟩

/-- A rule set beside a computation run in another state. -/
theorem Computes.inside {name : String} {inner' : State → State} {outer' : State → State → State} {m : Eval β}
    {m' : ι → Eval β}
    (hinner : ∀ v s t, C.rel v s t → ∃ v', C.rel v' (s.entered name) (inner' t) ∧
      ∀ s₁ t₁, s₁.frame = (s.entered name).frame → C.rel v' s₁ t₁ → C.rel v (s.returning s₁) (outer' t t₁))
    (h : C.Lawful) (hm : ∀ v, C.Computes v P B m m') :
    C.Computes w P B (Eval.inside name m) fun i => Eval.between inner' outer' (m' i) := by
  refine .between (fun _ => rfl) (fun _ _ => rfl) (fun _ _ hr => State.frame_exiting hr) (fun v s t hst => ?_) h hm
  obtain ⟨v', henter, hleave⟩ := hinner v s t hst
  refine ⟨v', henter, fun s₁ t₁ hs₁ hrel => ?_⟩
  rw [State.exiting_of_frame hs₁]
  exact hleave s₁ t₁ hs₁ hrel

/-! ## Searches -/

theorem Lawful.advances_refl (h : C.Lawful) (found : α) (s : State) (outcome : Except EvalError Flow) :
    C.Advances A found s ⟨outcome, found, s⟩ :=
  ⟨h.grows_refl _, id⟩

theorem Lawful.advances_trans (h : C.Lawful) {found : α} {s : State} {r r' : Step α} (hr : C.Advances A found s r)
    (hr' : C.Advances A r.found r.state r') : C.Advances A found s r' :=
  ⟨h.grows_trans hr.1 hr'.1, fun hadmits => hr.2 (hr'.2 hadmits)⟩

theorem simulates_exhausted (h : C.Lawful) : C.Simulates w P A Search.exhausted fun _ => Search.exhausted :=
  ⟨fun _ _ => h.advances_refl _ _ _, fun _ _ _ _ found' _ t hA hst _ _ =>
    ⟨⟨.ok .more, found', t⟩, .of_forall fun _ => rfl, .inl ⟨rfl, ⟨hA, nofun⟩, hst, rfl⟩⟩⟩

theorem simulates_raise (h : C.Lawful) (e : EvalError) :
    C.Simulates w P A (Search.raise e) fun _ => Search.raise e :=
  ⟨fun _ _ => h.advances_refl _ _ _, fun _ _ _ _ found' _ t hA hst _ _ =>
    ⟨⟨.error e, found', t⟩, .of_forall fun _ => rfl, .inl ⟨rfl, ⟨hA, nofun⟩, hst, rfl⟩⟩⟩

theorem simulates_collect (h : C.Lawful) {f : α → α} {f' : α' → α'} (hadmits : ∀ a, A.admits (f a) → A.admits a)
    (hf : P → ∀ a a', A.admits (f a) → A.rel a a' → A.rel (f a) (f' a')) :
    C.Simulates w P A (Search.collect f) fun _ => Search.collect f' :=
  ⟨fun found _ => ⟨h.grows_refl _, hadmits found⟩, fun hP _ _ _ found' _ t hA hst _ hadm =>
    ⟨⟨.ok .more, f' found', t⟩, .of_forall fun _ => rfl, .inl ⟨rfl, ⟨hf hP _ _ hadm hA, nofun⟩, hst, rfl⟩⟩⟩

theorem simulates_accept (h : C.Lawful) {f : α → α} {f' : α' → α'} (hstop : A.stops)
    (hadmits : ∀ a, A.admits (f a) → A.admits a) (hf : P → ∀ a a', A.rel a a' → A.rel (f a) (f' a')) :
    C.Simulates w P A (Search.accept f) fun _ => Search.accept f' :=
  ⟨fun found _ => ⟨h.grows_refl _, hadmits found⟩, fun hP _ _ _ found' _ t hA hst _ _ =>
    ⟨⟨.ok .stop, f' found', t⟩, .of_forall fun _ => rfl, .inl ⟨rfl, ⟨hf hP _ _ hA, fun _ => hstop⟩, hst, rfl⟩⟩⟩

theorem Computes.after (h : C.Lawful) {m : Eval β} {m' : ι → Eval β} {k : β → Search α} {k' : ι → β → Search α'}
    (hm : C.Computes w P B m m') (hk : ∀ b b', C.Simulates w (P ∧ B b b') A (k b) fun i => k' i b') :
    C.Simulates w P A (Search.after m k) fun i => Search.after (m' i) (k' i) := by
  constructor
  · intro found s
    have hs := hm.1 s
    rw [Search.after]
    rcases hrun : m.run s with ⟨e | b, s₁⟩ <;> simp only [hrun] at hs ⊢
    · exact ⟨hs, id⟩
    · exact ⟨h.grows_trans hs ((hk b b).1 found s₁).1, ((hk b b).1 found s₁).2⟩
  · intro hP v hv found found' s t hA hst hfol hadm
    have hs := hm.2 hP v hv s t hst
    have hgrow := hm.1 s
    rw [Search.after] at hfol hadm ⊢
    rcases hrun : m.run s with ⟨e | b, s₁⟩ <;> simp only [hrun] at hs hgrow hfol hadm ⊢
    · obtain ⟨⟨r, t₁⟩, hr', hagree⟩ := hs ⟨fun e he => hfol.1 e (by simpa using he), hfol.2⟩
      cases r with
      | error e' =>
        refine ⟨⟨.error e', found', t₁⟩, hr'.mono fun i hi => by rw [Search.after, hi], ?_⟩
        rcases hagree with ⟨he, hrel, hframe⟩ | ⟨e₁, he₁, hesc⟩
        · exact .inl ⟨congrArg Except.error he, ⟨hA, nofun⟩, hrel, hframe⟩
        · exact .inr ⟨e₁, by simpa using he₁, hesc⟩
      | ok b' => simp [Agree, Results] at hagree
    · obtain ⟨⟨r, t₁⟩, hr', hagree⟩ :=
        hs ⟨nofun, h.within_between hst hgrow ((hk b b).1 found s₁).1 hfol.2⟩
      cases r with
      | error e' =>
        refine ⟨⟨.error e', found', t₁⟩, hr'.mono fun i hi => by rw [Search.after, hi], .inr ?_⟩
        simpa [Agree, Results] using hagree
      | ok b' =>
        obtain ⟨hb, hrel, hframe⟩ := hagree.resolve_right (by simp)
        obtain ⟨r', hr₁, hmatch⟩ := (hk b b').2 ⟨hP, hb⟩ v hv found found' s₁ t₁ hA hrel hfol hadm
        refine ⟨r', (hr'.and hr₁).mono fun i hi => by rw [Search.after, hi.1]; exact hi.2, ?_⟩
        exact hmatch.imp_left fun ⟨hout, hfound, hrel, hf₁⟩ => ⟨hout, hfound, hrel, hf₁.trans hframe⟩

theorem Computes.afterSome (h : C.Lawful) {p : β → Prop} {m : Eval (Option β)} {m' : ι → Eval (Option β)}
    {k : β → Search α} {k' : ι → β → Search α'}
    (hm : C.Computes w P (Both (IfSome p)) m m')
    (hk : ∀ b, C.Simulates w (P ∧ p b) A (k b) fun i => k' i b) :
    C.Simulates w P A (Search.afterSome m k) fun i => Search.afterSome (m' i) (k' i) := by
  refine hm.after h fun b b' => ?_
  cases b with
  | none =>
    refine ⟨fun _ _ => h.advances_refl _ _ _, fun ⟨_, hb, _⟩ => ?_⟩
    subst hb
    exact (simulates_exhausted h (P := True)).2 trivial
  | some b =>
    refine ⟨(hk b).1, fun ⟨hP, hb, hp⟩ => ?_⟩
    subst hb
    exact (hk b).2 ⟨hP, hp b rfl⟩

/-- Computes something that may be missing, on both sides or on neither. -/
theorem Computes.afterRel (h : C.Lawful) {D : β → β → Prop} {m : Eval (Option β)} {m' : ι → Eval (Option β)}
    {k : β → Search α} {k' : ι → β → Search α'} (hm : C.Computes w P (Option.Rel D) m m')
    (hk : ∀ b b', C.Simulates w (P ∧ D b b') A (k b) fun i => k' i b') :
    C.Simulates w P A (Search.afterSome m k) fun i => Search.afterSome (m' i) (k' i) := by
  refine hm.after h fun b b' => ?_
  cases b with
  | none =>
    refine ⟨fun _ _ => h.advances_refl _ _ _, fun ⟨_, hb⟩ => ?_⟩
    cases hb
    exact (simulates_exhausted h (P := True)).2 trivial
  | some b =>
    refine ⟨(hk b b).1, fun ⟨hP, hb⟩ => ?_⟩
    cases hb with
    | some hD => exact (hk _ _).2 ⟨hP, hD⟩

theorem simulates_withBindings (h : C.Lawful) {k : Bindings → Search α} {k' : ι → Bindings → Search α'}
    (hk : ∀ b, C.Simulates w (P ∧ b.VarsIn C.names) A (k b) fun i => k' i b) :
    C.Simulates w P A (Search.withBindings k) fun i => Search.withBindings (k' i) := by
  refine ⟨fun found s => (hk s.bindings).1 found s, fun hP v hv found found' s t hA hst hfol hadm => ?_⟩
  simp only [Search.withBindings, h.bindings_eq hst] at hfol hadm ⊢
  exact (hk s.bindings).2 ⟨hP, h.bindings_vars hst⟩ v hv found found' s t hA hst hfol hadm

theorem Simulates.extending (h : C.Lawful) {extend : Bindings → Option Bindings} {k : Search α}
    {k' : ι → Search α'} (he : P → Bindings.Adds C.names extend) (hk : C.Simulates w P A k k') :
    C.Simulates w P A (Search.extending extend k) fun i => Search.extending extend (k' i) := by
  constructor
  · intro found s
    rw [Search.extending]
    cases extend s.bindings with
    | none => exact h.advances_refl _ _ _
    | some b => exact hk.1 found { s with bindings := b }
  · intro hP v hv found found' s t hA hst hfol hadm
    rw [Search.extending] at hfol hadm ⊢
    have hbind := h.bindings_eq hst
    cases hext : extend s.bindings with
    | none =>
      refine ⟨⟨.ok .more, found', t⟩, .of_forall fun i => ?_, .inl ⟨rfl, ⟨hA, nofun⟩, hst, rfl⟩⟩
      simp only [Search.extending, hbind, hext]
    | some b =>
      simp only [hext] at hfol hadm ⊢
      obtain ⟨hvars, hsuffix⟩ := he hP _ _ (h.bindings_vars hst) hext
      obtain ⟨r', hr', hmatch⟩ := hk.2 hP v hv found found' _ _ hA (h.setBindings hst hvars) hfol hadm
      refine ⟨{ r' with state := { r'.state with bindings := r'.state.bindings.undo t.bindings.mark } },
        hr'.mono fun i hi => by simp only [Search.extending, hbind, hext] at hi ⊢; rw [hi], ?_⟩
      refine hmatch.imp_left fun ⟨hout, hfound, hrel, hframe⟩ => ⟨hout, hfound, ?_, ?_⟩
      all_goals have hb : (k found { s with bindings := b }).state.bindings = b := congrArg Frame.bindings hframe
      · rw [h.bindings_eq hrel, hb, hbind, Bindings.undo_mark hsuffix]
        exact h.setBindings hrel (h.bindings_vars hst)
      · simp only [hb, Bindings.undo_mark hsuffix]
        exact State.frame_setBindings hframe s.bindings

theorem Simulates.each (h : C.Lawful) {k : β → Search α} {k' : ι → β → Search α'} (bs : List β)
    (hk : ∀ b, C.Simulates w (P ∧ b ∈ bs) A (k b) fun i => k' i b) :
    C.Simulates w P A (Search.each bs k) fun i => Search.each bs (k' i) := by
  induction bs with
  | nil => exact simulates_exhausted h
  | cons b rest ih =>
    have hrest := ih fun b => (hk b).guard fun hb => ⟨hb.1, List.mem_cons_of_mem _ hb.2⟩
    constructor
    · intro found s
      have hs := (hk b).1 found s
      rw [Search.each]
      rcases hrun : k b found s with ⟨_ | _ | _, found₁, s₁⟩ <;> simp only [hrun] at hs ⊢
      · exact hs
      · exact h.advances_trans hs (hrest.1 found₁ s₁)
      · exact hs
    · intro hP v hv found found' s t hA hst hfol hadm
      have hs := (hk b).2 ⟨hP, List.mem_cons_self⟩ v hv found found' s t hA hst
      have hgrow := (hk b).1 found s
      rw [Search.each] at hfol hadm ⊢
      rcases hrun : k b found s with ⟨e | _ | _, found₁, s₁⟩ <;> simp only [hrun] at hs hgrow hfol hadm ⊢
      · obtain ⟨⟨out, found₁', t₁⟩, hr', hmatch⟩ := hs hfol hadm
        refine ⟨⟨out, found₁', t₁⟩, hr'.mono fun i hi => ?_, hmatch⟩
        simp only [Search.each, hi]
        rcases hmatch with ⟨hout, _⟩ | ⟨e, hout, _⟩ <;> simp only at hout <;> subst hout <;> rfl
      · obtain ⟨⟨out, found₁', t₁⟩, hr', hmatch⟩ :=
          hs ⟨nofun, h.within_between hst hgrow.1 (hrest.1 found₁ s₁).1 hfol.2⟩ ((hrest.1 found₁ s₁).2 hadm)
        rcases hmatch with ⟨hout, hfound, hrel, hframe⟩ | ⟨e, hout, hesc⟩ <;> simp only at hout <;> subst hout
        · obtain ⟨r', hr₁, hmatch₁⟩ := hrest.2 hP v hv found₁ found₁' s₁ t₁ hfound.1 hrel hfol hadm
          refine ⟨r', (hr'.and hr₁).mono fun i hi => by simp only [Search.each, hi.1]; exact hi.2, ?_⟩
          exact hmatch₁.imp_left fun ⟨hout, hfound, hrel, hf₁⟩ => ⟨hout, hfound, hrel, hf₁.trans hframe⟩
        · exact ⟨⟨.error e, found₁', t₁⟩, hr'.mono fun i hi => by simp only [Search.each, hi], .inr ⟨e, rfl, hesc⟩⟩
      · obtain ⟨⟨out, found₁', t₁⟩, hr', hmatch⟩ := hs hfol hadm
        refine ⟨⟨out, found₁', t₁⟩, hr'.mono fun i hi => ?_, hmatch⟩
        simp only [Search.each, hi]
        rcases hmatch with ⟨hout, _⟩ | ⟨e, hout, _⟩ <;> simp only at hout <;> subst hout <;> rfl

theorem Simulates.endingWith (flow : Flow) {m : Search α} {m' : ι → Search α'} (hm : C.Simulates w P A m m')
    (hstop : A.stops) :
    C.Simulates w P A (Search.endingWith flow m) fun i => Search.endingWith flow (m' i) := by
  refine ⟨fun found s => hm.1 found s, fun hP v hv found found' s t hA hst hfol hadm => ?_⟩
  have hfol' : C.Followed (m found s).outcome (m found s).state.answers :=
    ⟨fun e he => hfol.1 e (by simp [Search.endingWith, he, Except.map]), hfol.2⟩
  obtain ⟨r', hr', hmatch⟩ := hm.2 hP v hv found found' s t hA hst hfol' hadm
  refine ⟨{ r' with outcome := r'.outcome.map fun _ => flow },
    hr'.mono fun i hi => by simp only [Search.endingWith, hi], ?_⟩
  rcases hmatch with ⟨hout, hfound, hrel, hframe⟩ | ⟨e, hout, hesc⟩
  · exact .inl ⟨by simp only [Search.endingWith, hout], ⟨hfound.1, fun _ => hstop⟩, hrel, hframe⟩
  · exact .inr ⟨e, by simp [hout, Except.map], hesc⟩

theorem Simulates.gather {m : Search β} {m' : ι → Search β} {start start' : β}
    (hm : C.Simulates w P B m m') (hstart : P → B start start') :
    C.Computes w P B (Search.gather m start) fun i => Search.gather (m' i) start' := by
  refine ⟨fun s => (hm.1 start s).1, fun hP v hv s t hst hfol => ?_⟩
  change C.Followed ((m start s).outcome.map fun _ => (m start s).found) (m start s).state.answers at hfol
  have hfol' : C.Followed (m start s).outcome (m start s).state.answers :=
    ⟨fun e he => hfol.1 e (by simp [he, Except.map]), hfol.2⟩
  obtain ⟨r', hr', hmatch⟩ := hm.2 hP v hv start start' s t (hstart hP) hst hfol' trivial
  refine ⟨(r'.outcome.map fun _ => r'.found, r'.state), hr'.mono fun i hi => ?_, ?_⟩
  · change ((m' i start' t).outcome.map fun _ => (m' i start' t).found, (m' i start' t).state) = _
    rw [hi]
  · change C.Agree v B s ((m start s).outcome.map fun _ => (m start s).found, (m start s).state) _
    rcases hmatch with ⟨hout, hfound, hrel, hframe⟩ | ⟨e, hout, hesc⟩
    · refine .inl ⟨?_, hrel, hframe⟩
      simp only [hout]
      cases (m start s).outcome with
      | error e => rfl
      | ok flow => exact hfound.1
    · exact .inr ⟨e, by simp [hout, Except.map], hesc⟩

/-- The accumulated values belong together, and the continuation was called on both sides or on neither. -/
def Noted (A : Gathering α α') : Gathering (α × Bool) (α' × Bool) where
  rel a a' := A.rel a.1 a'.1 ∧ a'.2 = a.2
  stops := A.stops
  admits a := A.admits a.1

theorem Simulates.noting {k : Search α} {k' : ι → Search α'} (hk : C.Simulates w P A k k') :
    C.Simulates w P (Noted A) (Search.noting k) fun i => Search.noting (k' i) := by
  refine ⟨fun found s => hk.1 found.1 s, fun hP v hv found found' s t hA hst hfol hadm => ?_⟩
  obtain ⟨r', hr', hmatch⟩ := hk.2 hP v hv found.1 found'.1 s t hA.1 hst hfol hadm
  refine ⟨⟨r'.outcome, (r'.found, true), r'.state⟩, hr'.mono fun i hi => by simp only [Search.noting, hi], ?_⟩
  exact hmatch.imp_left fun ⟨hout, hfound, hrel, hframe⟩ => ⟨hout, ⟨⟨hfound.1, rfl⟩, hfound.2⟩, hrel, hframe⟩

theorem Simulates.orElse (h : C.Lawful) {m : Search (α × Bool)} {m' : ι → Search (α' × Bool)}
    {other : Eval Unit} {other' : ι → Eval Unit} (hm : C.Simulates w P (Noted A) m m')
    (ho : C.Computes w P Eq other other') :
    C.Simulates w P A (Search.orElse m other) fun i => Search.orElse (m' i) (other' i) := by
  have hadvance : ∀ found s, C.Advances A found s (Search.orElse m other found s) := by
    intro found s
    have hs := hm.1 (found, false) s
    rw [Search.orElse]
    rcases hrun : m (found, false) s with ⟨e | flow, ⟨found₁, _ | _⟩, s₁⟩ <;> simp only [hrun] at hs ⊢
    all_goals try exact hs
    have ho := ho.1 s₁
    rcases hrun₁ : other.run s₁ with ⟨e | _, s₂⟩ <;> simp only [hrun₁] at ho ⊢
    all_goals exact ⟨h.grows_trans hs.1 ho, hs.2⟩
  refine ⟨hadvance, fun hP v hv found found' s t hA hst hfol hadm => ?_⟩
  have hs := hm.2 hP v hv (found, false) (found', false) s t ⟨hA, rfl⟩ hst
  have hgrow := hm.1 (found, false) s
  rw [Search.orElse] at hfol hadm ⊢
  rcases hrun : m (found, false) s with ⟨e | flow, ⟨found₁, flag⟩, s₁⟩ <;> simp only [hrun] at hs hgrow hfol hadm ⊢
  · obtain ⟨⟨out, ⟨found₁', flag'⟩, t₁⟩, hr', hmatch⟩ := hs hfol hadm
    have herr : ∃ e', out = .error e' := by
      rcases hmatch with ⟨hout, _⟩ | ⟨e', hout, _⟩
      · exact ⟨e, hout⟩
      · exact ⟨e', hout⟩
    obtain ⟨e', rfl⟩ := herr
    refine ⟨⟨.error e', found₁', t₁⟩, hr'.mono fun i hi => by simp only [Search.orElse, hi], ?_⟩
    exact hmatch.imp_left fun ⟨hout, hfound, hrel, hframe⟩ => ⟨hout, ⟨hfound.1.1, hfound.2⟩, hrel, hframe⟩
  · cases flag with
    | true =>
      obtain ⟨⟨out, ⟨found₁', flag'⟩, t₁⟩, hr', hmatch⟩ := hs hfol hadm
      rcases hmatch with ⟨hout, hfound, hrel, hframe⟩ | ⟨e, hout, hesc⟩ <;> simp only at hout <;> subst hout
      · obtain ⟨⟨hfound, hflag⟩, hstop⟩ := hfound
        simp only at hflag
        subst hflag
        exact ⟨⟨.ok flow, found₁', t₁⟩, hr'.mono fun i hi => by simp only [Search.orElse, hi],
          .inl ⟨rfl, ⟨hfound, hstop⟩, hrel, hframe⟩⟩
      · exact ⟨⟨.error e, found₁', t₁⟩, hr'.mono fun i hi => by simp only [Search.orElse, hi], .inr ⟨e, rfl, hesc⟩⟩
    | false =>
      simp only at hfol hadm ⊢
      have hend : C.within (other.run s₁).2.answers := by
        rcases hrun₁ : other.run s₁ with ⟨_ | _, s₂⟩ <;> simp only [hrun₁] at hfol <;> exact hfol.2
      have hadm₁ : A.admits found₁ := by
        rcases hrun₁ : other.run s₁ with ⟨_ | _, s₂⟩ <;> simp only [hrun₁] at hadm <;> exact hadm
      obtain ⟨⟨out, ⟨found₁', flag'⟩, t₁⟩, hr', hmatch⟩ :=
        hs ⟨nofun, h.within_between hst hgrow.1 (ho.1 s₁) hend⟩ hadm₁
      rcases hmatch with ⟨hout, hfound, hrel, hframe⟩ | ⟨e, hout, hesc⟩ <;> simp only at hout <;> subst hout
      · obtain ⟨⟨hfound, hflag⟩, hstop⟩ := hfound
        simp only at hflag
        subst hflag
        have ho₁ := ho.2 hP v hv s₁ t₁ hrel
        rcases hrun₁ : other.run s₁ with ⟨e | _, s₂⟩ <;> simp only [hrun₁] at ho₁ hfol ⊢
        · obtain ⟨⟨r, t₂⟩, hr₂, hagree⟩ := ho₁ ⟨fun e he => hfol.1 e (by simpa using he), hfol.2⟩
          cases r with
          | error e' =>
            refine ⟨⟨.error e', found₁', t₂⟩,
              (hr'.and hr₂).mono fun i hi => by simp only [Search.orElse, hi.1, hi.2], ?_⟩
            rcases hagree with ⟨he, hrel₂, hframe₂⟩ | ⟨e₁, he₁, hesc⟩
            · exact .inl ⟨congrArg Except.error he, ⟨hfound, nofun⟩, hrel₂, hframe₂.trans hframe⟩
            · exact .inr ⟨e₁, by simpa using he₁, hesc⟩
          | ok b' => simp [Agree, Results] at hagree
        · obtain ⟨⟨r, t₂⟩, hr₂, hagree⟩ := ho₁ ⟨nofun, hfol.2⟩
          cases r with
          | error e' =>
            refine ⟨⟨.error e', found₁', t₂⟩,
              (hr'.and hr₂).mono fun i hi => by simp only [Search.orElse, hi.1, hi.2], .inr ?_⟩
            simpa [Agree, Results] using hagree
          | ok b' =>
            obtain ⟨_, hrel₂, hframe₂⟩ := hagree.resolve_right (by simp)
            exact ⟨⟨.ok flow, found₁', t₂⟩,
              (hr'.and hr₂).mono fun i hi => by simp only [Search.orElse, hi.1, hi.2],
              .inl ⟨rfl, ⟨hfound, hstop⟩, hrel₂, hframe₂.trans hframe⟩⟩
      · exact ⟨⟨.error e, found₁', t₁⟩, hr'.mono fun i hi => by simp only [Search.orElse, hi], .inr ⟨e, rfl, hesc⟩⟩

/-- The continuation of a search in a scope, which belongs to the enclosing scope. -/
def enclosed (σ : Scope) (k : Search α) : Search α := fun found s =>
  let r := k found { s with scope := σ }
  { r with state := { r.state with scope := s.scope } }

theorem inScope_eq (σ : Scope) (search : Search α → Search α) (k : Search α) (found : α) (s : State) :
    Search.inScope σ search k found s =
      let r := search (enclosed s.scope k) found (s.openScope σ)
      { r with state := r.state.closeScope (s.lastScope + 1) s.scope } := rfl

theorem frame_closeScope {r s : State} {σ : Scope} {id : Nat} (hr : r.frame = (s.openScope σ).frame) :
    (r.closeScope id s.scope).frame = s.frame := by
  simp only [State.frame, State.openScope, State.closeScope, Frame.mk.injEq] at hr ⊢
  exact ⟨hr.1, trivial, hr.2.2⟩

/-- A search in a scope of its own. The two scopes have the same overrides; in the scope, what is known grows by
the scope itself, and the continuation gets back to what was known before. -/
theorem Simulates.inScope (h : C.Lawful) {σ τ : Scope} {search : Search α → Search α}
    {search' : ι → Search α' → Search α'} {k : Search α} {k' : ι → Search α'}
    (hsearch : ∀ (v : C.World) (Q : Prop) (k : Search α) (k' : ι → Search α'), C.Simulates v Q A k k' →
      C.Simulates v (P ∧ Q) A (search k) fun i => search' i (k' i))
    (hσ : P → σ.Agrees τ ∧ σ.VarsIn C.free C.mocks) (hk : C.Simulates w P A k k') :
    C.Simulates w P A (Search.inScope σ search k) fun i => Search.inScope τ (search' i) (k' i) := by
  constructor
  · intro found s
    have hgrow : C.Simulates w False A (enclosed s.scope k) fun i => enclosed s.scope (k' i) :=
      ⟨fun found s₁ => hk.1 found { s₁ with scope := s.scope }, False.elim⟩
    exact (hsearch w False _ _ hgrow).1 found (s.openScope σ)
  · intro hP v hv found found' s t hA hst hfol hadm
    obtain ⟨hagrees, hvars⟩ := hσ hP
    obtain ⟨w', hopen, hinner, hclose⟩ := h.scope hst hagrees hvars
    have hk' : C.Simulates w' True A (enclosed s.scope k) fun i => enclosed t.scope (k' i) := by
      refine ⟨fun found s₁ => hk.1 found { s₁ with scope := s.scope }, fun _ v' hv' found found' s₁ t₁ hA hst₁ hfol hadm => ?_⟩
      obtain ⟨u, hu, hswitch⟩ := hinner v' hv'
      obtain ⟨henter, hreturn⟩ := hswitch s₁ t₁ hst₁
      obtain ⟨r', hr', hmatch⟩ := hk.2 hP u (h.later_trans hv hu) found found' _ _ hA henter hfol hadm
      refine ⟨{ r' with state := { r'.state with scope := t₁.scope } },
        hr'.mono fun i hi => by simp only [enclosed, hi], ?_⟩
      exact hmatch.imp_left fun ⟨hout, hfound, hrel, hframe⟩ =>
        ⟨hout, hfound, hreturn _ _ hrel, State.frame_setScope hframe s₁.scope⟩
    rw [inScope_eq] at hfol hadm ⊢
    obtain ⟨r', hr', hmatch⟩ := (hsearch w' True _ _ hk').2 ⟨hP, trivial⟩ w' (h.later_refl w') found found' _ _
      hA hopen hfol hadm
    refine ⟨{ r' with state := r'.state.closeScope (t.lastScope + 1) t.scope },
      hr'.mono fun i hi => by simp only [inScope_eq, hi], ?_⟩
    exact hmatch.imp_left fun ⟨hout, hfound, hrel, hframe⟩ =>
      ⟨hout, hfound, hclose _ _ hrel, frame_closeScope hframe⟩

end Coupling
end PolicyEngine
