import PolicyEngine.Proofs.Pairing

/-!
What the rules of a policy mean, apart from how they are evaluated. Ideal rules are evaluated afresh whenever they
are asked for, without regard to the rule sets in progress. With the answers of nondeterministic built-ins given,
a document of an ideal rule set depends on the overrides in force and on nothing else. A document that an
evaluation comes to, whether it was remembered or not, is the one that the ideal rules mean.
-/
namespace PolicyEngine

/-! ## Rules without memory -/

/-- The document of a rule set, computed whenever it is asked for. -/
def RuleSet.forgetting (rs : RuleSet) (m : Eval (Option Term)) : Eval (Option Term) :=
  if rs.kind = .function then pure none else m

/-- A way to compute documents that may use and extend the documents remembered. -/
def RuleSet.Recalls (memoize : RuleSet → Eval (Option Term) → Eval (Option Term)) : Prop := ∀ rs m s,
  (rs.kind = .function ∧ (memoize rs m).run s = (.ok none, s)) ∨
    rs.kind ≠ .function ∧
      ((∃ v, s.remembered? rs.path = some v ∧ (memoize rs m).run s = (.ok v, s)) ∨
        (∃ e s₁, m.run s = (.error e, s₁) ∧ (memoize rs m).run s = (.error e, s₁)) ∨
        ∃ v s₁ s₂, m.run s = (.ok v, s₁) ∧ (memoize rs m).run s = (.ok v, s₂) ∧
          (s₂ = s₁ ∨ s₂ = s₁.remember rs.path v))

theorem RuleSet.recalls_recalling : Recalls RuleSet.recalling := by
  intro rs m s
  by_cases hkind : rs.kind = .function
  · exact .inl ⟨hkind, by rw [run_recalling, if_pos hkind]⟩
  · refine .inr ⟨hkind, ?_⟩
    rw [run_recalling, if_neg hkind]
    cases hmemo : s.remembered? rs.path with
    | some v => exact .inl ⟨v, rfl, rfl⟩
    | none =>
      rcases hrun : m.run s with ⟨e | v, s₁⟩
      · exact .inr (.inl ⟨e, s₁, rfl, rfl⟩)
      · exact .inr (.inr ⟨v, s₁, _, rfl, rfl, .inr rfl⟩)

theorem RuleSet.recalls_forgetting : Recalls RuleSet.forgetting := by
  intro rs m s
  by_cases hkind : rs.kind = .function
  · exact .inl ⟨hkind, by rw [forgetting, if_pos hkind]; rfl⟩
  · refine .inr ⟨hkind, .inr ?_⟩
    rw [forgetting, if_neg hkind]
    rcases hrun : m.run s with ⟨e | v, s₁⟩
    · exact .inl ⟨e, s₁, rfl, rfl⟩
    · exact .inr ⟨v, s₁, s₁, rfl, rfl, .inl rfl⟩

/-- Runs a computation in an empty environment. -/
def Eval.isolated (m : Eval β) : Eval β := Eval.nested (fun s => { s with bindings := {} }) m

namespace Env

variable (env : Env)

/-- The meaning of rules nested to a depth, with a way to memoize documents. -/
def rulesBy (memoize : RuleSet → Eval (Option Term) → Eval (Option Term)) : Nat → RuleSemantics
  | 0 =>
    { document := fun rs => throw (.recursion [rs.name])
      function := fun rs _ => throw (.recursion [rs.name]) }
  | n + 1 =>
    { document := fun rs => memoize rs (env.entering rs (env.evalDocument (rulesBy memoize n) rs))
      function := fun rs args => env.entering rs (env.evalFunction (rulesBy memoize n) rs args) }

theorem rulesTo_eq_rulesBy (n : Nat) : env.rulesTo n = env.rulesBy RuleSet.recalling n := by
  induction n with
  | zero => rfl
  | succ n ih => simp only [rulesTo, rulesBy, ih]

/-- The meaning of the rules of the policy when no document is ever remembered. -/
def rulesAfresh : RuleSemantics := env.rulesBy RuleSet.forgetting (env.policy.ruleSets.length + 1)

/-- The meaning of rules nested to a depth, each evaluated for itself. -/
def idealTo : Nat → RuleSemantics
  | 0 =>
    { document := fun rs => throw (.recursion [rs.name])
      function := fun rs _ => throw (.recursion [rs.name]) }
  | n + 1 =>
    { document := fun rs => rs.forgetting (Eval.isolated (env.evalDocument (idealTo n) rs))
      function := fun rs args => Eval.isolated (env.evalFunction (idealTo n) rs args) }

/-- A rule set means a document under overrides, given the answers of built-ins: that is what it is found to be,
with nothing new asked, in all states with these overrides and answers. -/
def Denotes (answers : List BuiltinAnswer) (σ : Scope) (rs : RuleSet) (v : Option Term) : Prop :=
  ∀ t : State, t.Calm env → t.answers = answers → σ.Agrees t.scope →
    ∃ t', (∀ᶠ n in Filter.atTop, ((env.idealTo n).document rs).run t = (.ok v, t')) ∧
      t'.bindings = t.bindings ∧ σ.Agrees t'.scope ∧ t'.Calm env ∧ t'.answers = answers

end Env

theorem Scope.Agrees.refl (σ : Scope) : σ.Agrees σ := ⟨rfl, rfl, rfl⟩

theorem Scope.Agrees.symm {σ τ : Scope} (h : σ.Agrees τ) : τ.Agrees σ :=
  ⟨h.input.symm, h.data.symm, h.functions.symm⟩

theorem Scope.Agrees.trans {σ τ υ : Scope} (h : σ.Agrees τ) (h' : τ.Agrees υ) : σ.Agrees υ :=
  ⟨h'.input.trans h.input, h'.data.trans h.data, h'.functions.trans h.functions⟩

/-- The new scope has the overrides it is opened with. -/
theorem Scope.Agrees.openScope {σ τ : Scope} (h : σ.Agrees τ) (s t : State) :
    (s.openScope σ).scope.Agrees (t.openScope τ).scope :=
  ⟨h.input, h.data, h.functions⟩

/-- No two rule sets have the same path. -/
def Policy.Distinct (p : Policy) : Prop := ∀ rs ∈ p.ruleSets, ∀ rs' ∈ p.ruleSets, rs'.path = rs.path → rs' = rs

/-! ## What is remembered -/

/-- The scopes behind the numbers of scopes. -/
abbrev Scopes := Nat → Option Scope

/-- More scopes are known. -/
def Scopes.Later (w v : Scopes) : Prop := ∀ id σ, w id = some σ → v id = some σ

theorem Scopes.Later.refl (w : Scopes) : w.Later w := fun _ _ h => h

theorem Scopes.Later.trans {u v w : Scopes} (h : u.Later v) (h' : v.Later w) : u.Later w :=
  fun id σ hu => h' id σ (h id σ hu)

/-- Every document remembered is one that its rule set means in the scope it was computed in. Scopes are numbered
in the order they are opened, so no number is used for two of them. -/
structure State.Remembers (policy : Policy) (means : Scope → RuleSet → Option Term → Prop) (w : Scopes)
    (s : State) : Prop where
  current : w s.scope.id = some s.scope
  bounded : ∀ id σ, w id = some σ → id ≤ s.lastScope
  entries : ∀ e ∈ s.memo, ∃ σ, w e.scope = some σ ∧
    ∀ rs ∈ policy.ruleSets, rs.path = e.path → means σ rs e.value

namespace State.Remembers

variable {policy : Policy} {means : Scope → RuleSet → Option Term → Prop} {w v : Scopes} {s s₁ : State}

/-- Where nothing is remembered only the current scope has to be known. -/
theorem of_empty (policy : Policy) (means : Scope → RuleSet → Option Term → Prop) (hmemo : s.memo = [])
    (hscope : s.scope.id ≤ s.lastScope) :
    s.Remembers policy means fun id => if id = s.scope.id then some s.scope else none := by
  refine ⟨if_pos rfl, fun id σ hid => ?_, fun e he => ?_⟩
  · split at hid
    · next heq => exact heq ▸ hscope
    · cases hid
  · rw [hmemo] at he
    cases he

theorem congr (h : s.Remembers policy means w) (hscope : s₁.scope = s.scope) (hlast : s₁.lastScope = s.lastScope)
    (hmemo : s₁.memo = s.memo) : s₁.Remembers policy means w :=
  ⟨hscope ▸ h.current, hlast ▸ h.bounded, hmemo ▸ h.entries⟩

theorem quiet (h : s.Remembers policy means w) (hq : s.Quiet s₁) : s₁.Remembers policy means w := by
  refine h.congr ?_ ?_ ?_ <;> rw [hq.eq]

theorem mono {means' : Scope → RuleSet → Option Term → Prop} (h : s.Remembers policy means w)
    (hm : ∀ σ rs v, means σ rs v → means' σ rs v) : s.Remembers policy means' w := by
  refine ⟨h.current, h.bounded, fun e he => ?_⟩
  obtain ⟨σ, hσ, hmeans⟩ := h.entries e he
  exact ⟨σ, hσ, fun rs hrs hpath => hm _ _ _ (hmeans rs hrs hpath)⟩

theorem recalled (h : s.Remembers policy means w) {rs : RuleSet} {value : Option Term} (hrs : rs ∈ policy.ruleSets)
    (hmemo : s.remembered? rs.path = some value) : means s.scope rs value := by
  obtain ⟨e, hfind, rfl⟩ := Option.map_eq_some_iff.1 hmemo
  have hkey := List.find?_some hfind
  simp only [Bool.and_eq_true, beq_iff_eq] at hkey
  obtain ⟨σ, hσ, hmeans⟩ := h.entries e (List.mem_of_find?_eq_some hfind)
  rw [hkey.1, h.current] at hσ
  cases hσ
  exact hmeans rs hrs hkey.2.symm

/-- A document is added to those remembered. -/
theorem remember (h : s.Remembers policy means w) {rs : RuleSet} {value : Option Term}
    (hunique : ∀ rs' ∈ policy.ruleSets, rs'.path = rs.path → rs' = rs) (hmeans : means s.scope rs value) :
    (s.remember rs.path value).Remembers policy means w := by
  refine ⟨h.current, h.bounded, fun e he => ?_⟩
  rcases List.mem_cons.1 he with rfl | he
  · refine ⟨s.scope, h.current, fun rs' hrs' hpath => ?_⟩
    rw [hunique rs' hrs' hpath]
    exact hmeans
  · exact h.entries e he

/-- The scopes known after one is opened. -/
def opening (w : Scopes) (s : State) (σ : Scope) : Scopes :=
  Function.update w (s.lastScope + 1) (some (s.openScope σ).scope)

theorem later_opening (h : s.Remembers policy means w) (σ : Scope) : w.Later (opening w s σ) := by
  intro id τ hid
  have hle := h.bounded id τ hid
  rw [opening, Function.update_of_ne (by omega)]
  exact hid

theorem opened (h : s.Remembers policy means w) (σ : Scope) :
    (s.openScope σ).Remembers policy means (opening w s σ) := by
  refine ⟨Function.update_self .., fun id τ hid => ?_, fun e he => ?_⟩
  · by_cases hnew : id = s.lastScope + 1
    · exact Nat.le_of_eq hnew
    · rw [opening, Function.update_of_ne hnew] at hid
      exact Nat.le_succ_of_le (h.bounded id τ hid)
  · obtain ⟨τ, hτ, hmeans⟩ := h.entries e he
    exact ⟨τ, h.later_opening σ _ _ hτ, hmeans⟩

/-- Documents that are meant in many ways at once. -/
theorem forall_means {κ : Type} [Nonempty κ] {means : κ → Scope → RuleSet → Option Term → Prop}
    (h : ∀ x, s.Remembers policy (means x) w) : s.Remembers policy (fun σ rs v => ∀ x, means x σ rs v) w := by
  obtain ⟨x₀⟩ := ‹Nonempty κ›
  refine ⟨(h x₀).current, (h x₀).bounded, fun e he => ?_⟩
  obtain ⟨σ, hσ, _⟩ := (h x₀).entries e he
  refine ⟨σ, hσ, fun rs hrs hpath x => ?_⟩
  obtain ⟨τ, hτ, hmeans⟩ := (h x).entries e he
  cases hσ.symm.trans hτ
  exact hmeans rs hrs hpath

/-- Another known scope becomes the current one. -/
theorem switched (h : s₁.Remembers policy means v) {σ : Scope} (hσ : v σ.id = some σ) :
    { s₁ with scope := σ }.Remembers policy means v :=
  ⟨hσ, h.bounded, h.entries⟩

/-- The documents of a scope are forgotten when it is over, and with them the scope. -/
theorem closed {means' : Scope → RuleSet → Option Term → Prop} (h : s.Remembers policy means w) {σ : Scope}
    (h₁ : s₁.Remembers policy means' (opening w s σ)) :
    (s₁.closeScope (s.lastScope + 1) s.scope).Remembers policy means' w := by
  refine ⟨h.current, fun id τ hid => h₁.bounded id τ (h.later_opening σ id τ hid), fun e he => ?_⟩
  simp only [State.closeScope, List.mem_filter, bne_iff_ne] at he
  obtain ⟨τ, hτ, hmeans⟩ := h₁.entries e he.1
  rw [opening, Function.update_of_ne he.2] at hτ
  exact ⟨τ, hτ, hmeans⟩

end State.Remembers

/-! ## An evaluation beside the ideal one -/

/-- The states of an evaluation and of the ideal one, which is given all answers of built-ins. -/
structure Pairing.Idealizes (env : Env) (answers : List BuiltinAnswer) (w : Scopes) (s t : State) : Prop where
  bindings : t.bindings = s.bindings
  agrees : s.scope.Agrees t.scope
  calm : t.Calm env
  answered : t.answers = answers
  remembers : s.Remembers env.policy (env.Denotes answers) w

/-- An evaluation beside the ideal one, whose nesting is as deep as it takes. -/
def Pairing.toIdeal (env : Env) (answers : List BuiltinAnswer) : Pairing Nat where
  toVocabulary := .any
  env := env
  env' := env
  World := Scopes
  later := Scopes.Later
  rel := Idealizes env answers
  grows := BuiltinAnswer.Extends
  within a := BuiltinAnswer.Extends a answers
  escapes _ := False
  limit := Filter.atTop
  depths _ _ := True

namespace Pairing.toIdeal

variable {env : Env} {answers : List BuiltinAnswer}

theorem lawful (hreg : env.registry.Regular) : (toIdeal env answers).Lawful where
  same := rfl
  speaks := env.speaks_any
  later_refl := Scopes.Later.refl
  later_trans := Scopes.Later.trans
  grows_refl := BuiltinAnswer.Extends.refl
  grows_trans := BuiltinAnswer.Extends.trans
  grows_call := env.extends_callBuiltin
  within_between _ _ hgrow hwithin := hgrow.trans hwithin
  bindings_eq := Idealizes.bindings
  bindings_vars _ := Vocabulary.bindings_any _
  scope_agrees := Idealizes.agrees
  scope_vars _ := Vocabulary.scope_any _
  depth _ := trivial
  calm := Idealizes.calm
  setBindings _ h _ := ⟨rfl, h.agrees, ⟨h.calm.1, h.calm.2⟩, h.answered, h.remembers.congr rfl rfl rfl⟩
  scope := by
    intro w s t σ τ h hagrees _
    refine ⟨State.Remembers.opening w s σ, ?_, fun v' hv' => ⟨v', ?_, fun s₁ t₁ h₁ => ⟨?_, fun s₂ t₂ h₂ => ?_⟩⟩, ?_⟩
    · exact ⟨h.bindings, hagrees.openScope s t, ⟨h.calm.1, h.calm.2⟩, h.answered, h.remembers.opened σ⟩
    · exact (h.remembers.later_opening σ).trans hv'
    · have hcurrent := hv' _ _ (h.remembers.later_opening σ _ _ h.remembers.current)
      exact ⟨h₁.bindings, h.agrees, ⟨h₁.calm.1, h₁.calm.2⟩, h₁.answered, h₁.remembers.switched hcurrent⟩
    · exact ⟨h₂.bindings, h₁.agrees, ⟨h₂.calm.1, h₂.calm.2⟩, h₂.answered, h₂.remembers.switched h₁.remembers.current⟩
    · intro s₁ t₁ h₁
      exact ⟨h₁.bindings, h.agrees, ⟨h₁.calm.1, h₁.calm.2⟩, h₁.answered, h.remembers.closed h₁.remembers⟩
  quiet := by
    intro w s t s' t' h hs ht
    refine ⟨?_, ?_, h.calm.quiet ht, ht.answers.trans h.answered, h.remembers.quiet hs⟩
    · rw [hs.eq, ht.eq]
      exact h.bindings
    · rw [hs.eq, ht.eq]
      exact h.agrees
  regular := hreg
  calls := by
    intro w s t b args answer s' hb hdet href hst hrun hwithin
    have hlookup := hwithin _ _ _ (Env.lookup_callBuiltin hdet href hrun)
    rw [← hst.answered] at hlookup
    refine .inl ⟨t, Env.run_callBuiltin_answered hdet href hlookup, ?_, Vocabulary.varsIn_any answer⟩
    rcases Env.answer_cases hdet href hrun with ⟨_, rfl⟩ | ⟨_, _, rfl⟩
    · exact hst
    · exact ⟨hst.bindings, hst.agrees, hst.calm, hst.answered, hst.remembers.congr rfl rfl rfl⟩

/-- What holds one level deeper holds eventually. -/
theorem eventually_of_succ {q : Nat → Prop} (h : ∀ᶠ n in Filter.atTop, q (n + 1)) : ∀ᶠ n in Filter.atTop, q n := by
  obtain ⟨N, hN⟩ := Filter.eventually_atTop.1 h
  refine Filter.eventually_atTop.2 ⟨N + 1, fun n hn => ?_⟩
  obtain ⟨k, rfl⟩ : ∃ k, n = k + 1 := ⟨n - 1, by omega⟩
  exact hN k (by omega)

/-! ### Rules -/

variable {w : Scopes} {rules : RuleSemantics} {rs : RuleSet}

/-- A function entered beside one evaluated for itself. -/
theorem computes_isolated {P : Prop} {B : β → β → Prop} {m : Eval β} {m' : Nat → Eval β}
    (hreg : env.registry.Regular) (rs : RuleSet) (hm : ∀ w, (toIdeal env answers).coupling.Computes w P B m m') :
    (toIdeal env answers).coupling.Computes w P B (env.entering rs m) fun n => (m' n).isolated := by
  refine computes_entering (lawful hreg) rs (Coupling.Computes.inside ?_ (lawful hreg).coupling hm)
  intro v s t hst
  refine ⟨v, ⟨rfl, hst.agrees, ⟨hst.calm.1, hst.calm.2⟩, hst.answered, hst.remembers.congr rfl rfl rfl⟩, ?_⟩
  intro s₁ t₁ hs₁ h₁
  exact ⟨hst.bindings, h₁.agrees, ⟨h₁.calm.1, h₁.calm.2⟩, h₁.answered, h₁.remembers.congr rfl rfl rfl⟩

/-- The rules of a set, evaluated beside the ideal ones. -/
def DocumentIdeal (env : Env) (answers : List BuiltinAnswer) (rules : RuleSemantics) (rs : RuleSet) : Prop :=
  ∀ w, (toIdeal env answers).coupling.Computes w (rs ∈ env.policy.ruleSets)
    (Both (IfSome (Term.VarsIn (toIdeal env answers).coupling.names))) (env.evalDocument rules rs)
    fun n => env.evalDocument (env.idealTo n) rs

theorem DocumentIdeal.extends_entering (hdoc : DocumentIdeal env answers rules rs) (s : State) :
    BuiltinAnswer.Extends s.answers ((env.entering rs (env.evalDocument rules rs)).run s).2.answers := by
  rw [Env.run_entering]
  split
  · exact .refl _
  · split
    · exact .refl _
    · exact (hdoc fun _ => none).1 (s.entered rs.name)

/-- The document that a rule set is found to have is the one it means, in the empty environment in which it was
computed and hence in every other. -/
theorem denotes_of_entering (hdoc : DocumentIdeal env answers rules rs) (hrs : rs ∈ env.policy.ruleSets)
    (hkind : rs.kind ≠ .function) {s t s₁ : State} {v : Option Term} (hst : Idealizes env answers w s t)
    (hrun : (env.entering rs (env.evalDocument rules rs)).run s = (.ok v, s₁))
    (hwithin : BuiltinAnswer.Extends s₁.answers answers) :
    env.Denotes answers s.scope rs v ∧ s₁.Remembers env.policy (env.Denotes answers) w ∧ s₁.frame = s.frame := by
  rw [Env.run_entering] at hrun
  split at hrun
  · cases hrun
  split at hrun
  · cases hrun
  obtain ⟨hval, rfl⟩ := Prod.mk.inj hrun
  generalize hr : (env.evalDocument rules rs).run (s.entered rs.name) = r at hval hwithin ⊢
  have hinner : ∀ t' : State, t'.Calm env → t'.answers = answers → s.scope.Agrees t'.scope →
      ∃ r', (∀ᶠ n in Filter.atTop, (env.evalDocument (env.idealTo n) rs).run { t' with bindings := {} } = (.ok v, r')) ∧
        Idealizes env answers w r.2 r' ∧ r.2.frame = (s.entered rs.name).frame := by
    intro t' hcalm hanswers hagrees
    have hstart : Idealizes env answers w (s.entered rs.name) { t' with bindings := {} } :=
      ⟨rfl, hagrees, ⟨hcalm.1, hcalm.2⟩, hanswers, hst.remembers.congr rfl rfl rfl⟩
    have hfol : (toIdeal env answers).coupling.Followed
        ((env.evalDocument rules rs).run (s.entered rs.name)).1
        ((env.evalDocument rules rs).run (s.entered rs.name)).2.answers := by
      rw [hr]
      exact ⟨fun e he => by simp [hval] at he, hwithin⟩
    obtain ⟨⟨out, r'⟩, hr', hagree⟩ := (hdoc w).2 hrs w (Scopes.Later.refl w) _ _ hstart hfol
    obtain ⟨hres, hrel, hframe⟩ := hagree.resolve_right fun ⟨_, _, he⟩ => he
    rw [hr] at hres hrel hframe
    rw [hval] at hres
    cases out with
    | error e => exact hres.elim
    | ok v' =>
      obtain ⟨rfl, _⟩ := hres
      exact ⟨r', hr', hrel, hframe⟩
  obtain ⟨_, _, hremembers, hframe⟩ := hinner t hst.calm hst.answered hst.agrees
  have hscope : r.2.scope = s.scope := congrArg Frame.scope hframe
  refine ⟨fun t' hcalm hanswers hagrees => ?_, ?_, ?_⟩
  · obtain ⟨r', hr', hrel, _⟩ := hinner t' hcalm hanswers hagrees
    refine ⟨t'.returning r', eventually_of_succ (hr'.mono fun n hn => ?_), rfl, ?_, ⟨hrel.calm.1, hrel.calm.2⟩,
      hrel.answered⟩
    · simp only [Env.idealTo, RuleSet.forgetting, if_neg hkind, Eval.isolated, Eval.run_nested, hn]
    · rw [← hscope]
      exact hrel.agrees
  · exact hremembers.remembers.congr rfl rfl rfl
  · exact State.frame_exiting hframe

/-- A document that is what its rule set means. -/
theorem agree_of_denotes {s t s₁ : State} {v : Option Term} (hst : Idealizes env answers w s t)
    (hmeans : env.Denotes answers s.scope rs v) (hs₁ : s₁.Remembers env.policy (env.Denotes answers) w)
    (hframe : s₁.frame = s.frame) :
    ∃ r', (∀ᶠ n in Filter.atTop, ((env.idealTo n).document rs).run t = r') ∧
      (toIdeal env answers).coupling.Agree w (Both (IfSome (Term.VarsIn (toIdeal env answers).coupling.names))) s
        (.ok v, s₁) r' := by
  obtain ⟨t', hev, hbindings, hagrees, hcalm, hanswers⟩ := hmeans t hst.calm hst.answered hst.agrees
  refine ⟨(.ok v, t'), hev, .inl ⟨⟨rfl, Vocabulary.varsIn_any v⟩, ⟨?_, ?_, hcalm, hanswers, hs₁⟩, hframe⟩⟩
  · rw [hbindings, hst.bindings]
    exact (congrArg Frame.bindings hframe).symm
  · have hscope : s₁.scope = s.scope := congrArg Frame.scope hframe
    rw [hscope]
    exact hagrees

/-- The documents of an evaluation that remembers them or does not are the ideal ones. -/
theorem computes_recall {memoize : RuleSet → Eval (Option Term) → Eval (Option Term)} (hmemoize : RuleSet.Recalls memoize)
    (hdistinct : env.policy.Distinct) (hdoc : DocumentIdeal env answers rules rs) :
    (toIdeal env answers).coupling.Computes w (rs ∈ env.policy.ruleSets)
      (Both (IfSome (Term.VarsIn (toIdeal env answers).coupling.names))) (memoize rs (env.entering rs (env.evalDocument rules rs)))
      fun n => (env.idealTo n).document rs := by
  constructor
  · intro s
    change BuiltinAnswer.Extends _ _
    have hs := hdoc.extends_entering s
    rcases hmemoize rs (env.entering rs (env.evalDocument rules rs)) s with
      ⟨_, hrun⟩ | ⟨_, ⟨v, _, hrun⟩ | ⟨e, s₁, hm, hrun⟩ | ⟨v, s₁, s₂, hm, hrun, hs₂⟩⟩ <;> rw [hrun]
    · exact .refl _
    · exact .refl _
    · rw [hm] at hs
      exact hs
    · rw [hm] at hs
      rcases hs₂ with rfl | rfl <;> exact hs
  · intro hrs v' _ s t hst hfol
    have hst : Idealizes env answers v' s t := hst
    rcases hmemoize rs (env.entering rs (env.evalDocument rules rs)) s with
      ⟨hkind, hrun⟩ | ⟨hkind, ⟨v, hmemo, hrun⟩ | ⟨e, s₁, hm, hrun⟩ | ⟨v, s₁, s₂, hm, hrun, hs₂⟩⟩ <;> rw [hrun] at hfol ⊢
    · refine ⟨(.ok none, t), eventually_of_succ (.of_forall fun n => ?_), .inl ⟨⟨rfl, Vocabulary.varsIn_any none⟩, hst, rfl⟩⟩
      simp only [Env.idealTo, RuleSet.forgetting, if_pos hkind]
      rfl
    · exact agree_of_denotes hst (hst.remembers.recalled hrs hmemo) hst.remembers rfl
    · exact (hfol.1 e rfl).elim
    · have hwithin : BuiltinAnswer.Extends s₁.answers answers := by
        rcases hs₂ with rfl | rfl <;> exact hfol.2
      obtain ⟨hmeans, hremembers, hframe⟩ := denotes_of_entering hdoc hrs hkind hst hm hwithin
      rcases hs₂ with rfl | rfl
      · exact agree_of_denotes hst hmeans hremembers hframe
      · have hscope : s₁.scope = s.scope := congrArg Frame.scope hframe
        refine agree_of_denotes hst hmeans (hremembers.remember (hdistinct rs hrs) ?_) hframe
        rw [hscope]
        exact hmeans

theorem documentIdeal (hreg : env.registry.Regular)
    (hr : Coupling.RulesAnswer (toIdeal env answers).coupling rules env.idealTo) :
    DocumentIdeal env answers rules rs := fun _ =>
  Coupling.computes_evalDocument (lawful hreg).coupling hr rs ((lawful hreg).policyProper rs)
    (Coupling.computes_candidates (lawful hreg).coupling hr rfl rs)

/-- Rules nested to any depth are answered by the ideal rules. -/
theorem rulesAnswer {memoize : RuleSet → Eval (Option Term) → Eval (Option Term)} (hmemoize : RuleSet.Recalls memoize)
    (hdistinct : env.policy.Distinct) (hreg : env.registry.Regular) (n : Nat) :
    Coupling.RulesAnswer (toIdeal env answers).coupling (env.rulesBy memoize n) env.idealTo := by
  have hlaw : (toIdeal env answers).coupling.Lawful := (lawful hreg).coupling
  induction n with
  | zero =>
    refine ⟨fun w rs => ⟨fun s => .refl _, ?_⟩, fun w rs args => ⟨fun s => .refl _, ?_⟩⟩
    · exact fun _ _ _ _ _ _ hfol => (hfol.1 _ rfl).elim
    · exact fun _ _ _ _ _ _ hfol => (hfol.1 _ rfl).elim
  | succ n ih =>
    refine ⟨fun w rs => ?_, fun w rs args => ?_⟩
    · exact computes_recall hmemoize hdistinct (documentIdeal hreg ih)
    · have hfun := computes_isolated (w := w) hreg rs fun w =>
        Coupling.computes_evalFunction (w := w) hlaw ih rs args (fun hP => (lawful hreg).policyProper rs hP.1) And.right
      refine ⟨hfun.1, fun hP v hv s t hst hfol => ?_⟩
      obtain ⟨r', hr', hagree⟩ := hfun.2 hP v hv s t hst hfol
      exact ⟨r', eventually_of_succ hr', hagree⟩

/-- The rules of the engine are answered by the ideal rules. -/
theorem rulesAnswer_rulesTo (hdistinct : env.policy.Distinct) (hreg : env.registry.Regular) (n : Nat) :
    Coupling.RulesAnswer (toIdeal env answers).coupling (env.rulesTo n) env.idealTo := by
  rw [env.rulesTo_eq_rulesBy]
  exact rulesAnswer RuleSet.recalls_recalling hdistinct hreg n

end Pairing.toIdeal
end PolicyEngine
