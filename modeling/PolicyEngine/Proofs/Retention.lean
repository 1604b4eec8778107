import PolicyEngine.Proofs.Backtracking
import PolicyEngine.Proofs.Pairing

/-!
A document that is remembered stays remembered. Evaluation adds documents to the memory of a scope that is open and
forgets only those of scopes that it opened itself; and a document is computed only where none is remembered.
-/
namespace PolicyEngine

/-- The document that is remembered for a scope and a path. -/
def State.recalled? (scope : Nat) (path : DataPath) (s : State) : Option (Option Term) :=
  (s.memo.find? fun e => e.scope == scope && e.path == path).map MemoEntry.value

theorem State.remembered?_eq (path : DataPath) (s : State) : s.remembered? path = s.recalled? s.scope.id path := rfl

/-- A state in which documents are remembered, for scopes that were opened before. -/
structure State.Retains (scope : Nat) (entries : List MemoEntry) (s : State) : Prop where
  opened : scope ≤ s.lastScope
  earlier : ∀ e ∈ entries, e.scope ≤ scope
  recalled : ∀ e ∈ entries, s.recalled? e.scope e.path = some e.value

section Retains

variable {scope : Nat} {entries : List MemoEntry} {s s₁ : State}

theorem State.Retains.congr (h : s.Retains scope entries) (hlast : s₁.lastScope = s.lastScope) (hmemo : s₁.memo = s.memo) :
    s₁.Retains scope entries :=
  ⟨hlast ▸ h.opened, h.earlier, fun e he => by rw [recalled?, hmemo]; exact h.recalled e he⟩

theorem State.Retains.openScope (h : s.Retains scope entries) (σ : Scope) : (s.openScope σ).Retains scope entries :=
  ⟨Nat.le_succ_of_le h.opened, h.earlier, h.recalled⟩

/-- Closing a scope forgets nothing of the scopes that were opened before it. -/
theorem State.Retains.closeScope (h : s₁.Retains scope entries) {id : Nat} (hid : scope < id) (σ : Scope) :
    (s₁.closeScope id σ).Retains scope entries := by
  refine ⟨h.opened, h.earlier, fun entry hentry => ?_⟩
  have hearlier := h.earlier entry hentry
  rw [State.recalled?, State.closeScope, List.find?_filter, ← h.recalled entry hentry, State.recalled?]
  congr 2
  funext e
  rw [Bool.eq_iff_iff, decide_eq_true_iff, and_iff_right_iff_imp]
  intro hkey
  have hscope : e.scope = entry.scope := by simpa using (Bool.and_eq_true_iff.1 hkey).1
  have hne : entry.scope ≠ id := by omega
  simpa [hscope] using hne

/-- Remembering a document does not replace one that is remembered. -/
theorem State.Retains.remember (h : s₁.Retains scope entries) {path : DataPath} {value : Option Term}
    (hnew : ∀ e ∈ entries, s₁.scope.id = e.scope → path ≠ e.path) : (s₁.remember path value).Retains scope entries := by
  refine ⟨h.opened, h.earlier, fun entry hentry => ?_⟩
  have hother : (s₁.scope.id == entry.scope && path == entry.path) = false := by
    by_cases hscope : s₁.scope.id = entry.scope
    · simp [hnew entry hentry hscope]
    · simp [hscope]
  rw [State.recalled?, State.remember, List.find?_cons, hother]
  exact h.recalled entry hentry

end Retains

/-! ## An evaluation beside itself -/

/-- An evaluation beside itself, in equal states in which documents are remembered. -/
def Coupling.retaining (env : Env) (scope : Nat) (entries : List MemoEntry) : Coupling Unit where
  env := env
  env' := env
  World := Unit
  later _ _ := True
  rel _ s t := t = s ∧ s.Retains scope entries
  grows _ _ := True
  within _ := True
  follows _ := True
  escapes _ := False
  limit := ⊤
  depths := Eq
  toVocabulary := .any

namespace Coupling.retaining

variable {env : Env} {scope : Nat} {entries : List MemoEntry}

/-- Gives the frame back and forgets no document. -/
def Keeps (scope : Nat) (entries : List MemoEntry) (m : Eval β) : Prop :=
  ∀ s, s.Retains scope entries → (m.run s).2.frame = s.frame ∧ (m.run s).2.Retains scope entries

theorem Keeps.computes {P : Prop} {p : β → Prop} {m : Eval β} (hm : P → Keeps scope entries m) (hp : ∀ b, p b) (w : Unit) :
    (retaining env scope entries).Computes w P (Both p) m fun _ => m := by
  refine ⟨fun _ => trivial, fun hP _ _ s t hst _ => ?_⟩
  obtain ⟨rfl, hretains⟩ := hst
  obtain ⟨hframe, hkept⟩ := hm hP t hretains
  refine ⟨m.run t, .of_forall fun _ => rfl, .inl ⟨?_, ⟨rfl, hkept⟩, hframe⟩⟩
  cases (m.run t).1 with
  | error e => rfl
  | ok b => exact ⟨rfl, hp b⟩

theorem Keeps.of_computes {P : Prop} {p : β → Prop} {m : Eval β}
    (hm : (retaining env scope entries).Computes () P (Both p) m fun _ => m) (hP : P) : Keeps scope entries m := by
  intro s hs
  obtain ⟨_, _, hagree⟩ := hm.2 hP () trivial s s ⟨rfl, hs⟩ ⟨fun _ _ => trivial, trivial⟩
  obtain ⟨_, ⟨_, hkept⟩, hframe⟩ := hagree.resolve_right fun ⟨_, _, he⟩ => he
  exact ⟨hframe, hkept⟩

/-- A step that changes neither the frame nor the memory. -/
theorem Keeps.of_quiet {m : Eval β} (hm : ∀ s, (m.run s).2.frame = s.frame ∧
    (m.run s).2.lastScope = s.lastScope ∧ (m.run s).2.memo = s.memo) : Keeps scope entries m :=
  fun s hs => ⟨(hm s).1, hs.congr (hm s).2.1 (hm s).2.2⟩

theorem lawful : (retaining env scope entries).Lawful where
  later_refl _ := trivial
  later_trans _ _ := trivial
  grows_refl _ := trivial
  grows_trans _ _ := trivial
  within_between _ _ _ _ := trivial
  free_names _ _ := trivial
  bindings_eq h := by rw [h.1]
  bindings_vars _ := Vocabulary.bindings_any _
  scope_agrees h := by rw [h.1]; exact ⟨rfl, rfl, rfl⟩
  scope_vars _ := Vocabulary.scope_any _
  depth h := by rw [h.1]; rfl
  setBindings h _ := by
    obtain ⟨rfl, h⟩ := h
    exact ⟨rfl, h.congr rfl rfl⟩
  scope := by
    rintro w s t σ τ ⟨rfl, hretains⟩ hagrees _
    refine ⟨(), ⟨?_, hretains.openScope σ⟩, fun _ _ => ⟨(), trivial, ?_⟩, ?_⟩
    · simp only [State.openScope, hagrees.input, hagrees.data, hagrees.functions]
    · rintro s₁ _ ⟨rfl, h₁⟩
      refine ⟨⟨rfl, h₁.congr rfl rfl⟩, ?_⟩
      rintro s₂ _ ⟨rfl, h₂⟩
      exact ⟨rfl, h₂.congr rfl rfl⟩
    · rintro s₁ _ ⟨rfl, h₁⟩
      exact ⟨rfl, h₁.closeScope (Nat.lt_succ_of_le hretains.opened) _⟩
  policy := rfl
  registry := rfl
  checkpoint w := by
    have hstep : Keeps scope entries env.checkpoint := by
      refine .of_quiet fun s => ?_
      obtain ⟨timer, clock, h⟩ := env.state_checkpoint s
      rw [h]
      exact ⟨rfl, rfl, rfl⟩
    exact Computes.mono (Keeps.computes (p := fun _ => True) (fun _ => hstep) (fun _ => trivial) w) fun _ _ _ h => h.1.symm
  emit w op d d' text := by
    have hstep : Keeps scope entries (env.emit op d text) := by
      refine .of_quiet fun s => ?_
      obtain ⟨host, h, _⟩ := env.state_emit op d text s
      rw [h]
      exact ⟨rfl, rfl, rfl⟩
    refine ⟨fun _ => trivial, fun hd => ?_⟩
    cases hd
    exact (Computes.mono (Keeps.computes (P := True) (p := fun _ => True) (fun _ => hstep) (fun _ => trivial) w)
      fun _ _ _ h => h.1.symm).2 trivial
  read w path := by
    have hstep : Keeps scope entries (env.read path) := .of_quiet fun s => by rw [env.run_read]; exact ⟨rfl, rfl, rfl⟩
    exact Keeps.computes (fun _ => hstep) Vocabulary.varsIn_any w
  listKeys w path := by
    have hstep : Keeps scope entries (env.listKeys path) := .of_quiet fun s => by rw [env.run_listKeys]; exact ⟨rfl, rfl, rfl⟩
    exact Keeps.computes (fun _ => hstep) (fun _ _ _ t _ => t.varsIn_of_forall fun _ => trivial) w
  callBuiltin w b args := by
    have hstep : Keeps scope entries (env.callBuiltin b args) := by
      refine .of_quiet fun s => ?_
      obtain ⟨host, answers, h⟩ := env.state_callBuiltin b args s
      rw [h]
      exact ⟨rfl, rfl, rfl⟩
    exact Keeps.computes (fun _ => hstep) Vocabulary.varsIn_any w

/-! ## Rules -/

theorem Keeps.entering {m : Eval β} (hm : Keeps scope entries m) (rs : RuleSet) : Keeps scope entries (env.entering rs m) := by
  intro s hs
  rw [Env.run_entering]
  split
  · exact ⟨rfl, hs⟩
  · split
    · exact ⟨rfl, hs⟩
    · obtain ⟨hframe, hkept⟩ := hm (s.entered rs.name) (hs.congr rfl rfl)
      exact ⟨State.frame_exiting hframe, hkept.congr rfl rfl⟩

theorem Keeps.recalling {m : Eval (Option Term)} (hm : Keeps scope entries m) (rs : RuleSet) : Keeps scope entries (rs.recalling m) := by
  intro s hs
  rw [RuleSet.run_recalling]
  split
  · exact ⟨rfl, hs⟩
  · cases hmemo : s.remembered? rs.path with
    | some value => exact ⟨rfl, hs⟩
    | none =>
      obtain ⟨hframe, hkept⟩ := hm s hs
      rcases hrun : m.run s with ⟨e | value, s₁⟩ <;> rw [hrun] at hframe hkept
      · exact ⟨hframe, hkept⟩
      · -- nothing was remembered at this path in this scope, so the entries are others
        refine ⟨hframe, hkept.remember fun e he hid hpath => ?_⟩
        have hscope : s₁.scope = s.scope := congrArg Frame.scope hframe
        rw [State.remembered?_eq, hpath, ← hscope, hid, hs.recalled e he] at hmemo
        cases hmemo

theorem policyProper : PolicyProper (retaining env scope entries) := fun _ _ =>
  ⟨fun _ _ c _ => c.proper_of_forall (fun _ => trivial) fun _ _ _ => trivial,
    fun _ _ c _ => c.proper_of_forall (fun _ => trivial) fun _ _ _ => trivial⟩

/-- Rules forget no document at any depth of nesting. -/
theorem rulesAnswer (n : Nat) : RulesAnswer (retaining env scope entries) (env.rulesTo n) fun _ => env.rulesTo n := by
  induction n with
  | zero =>
    have hthrow : ∀ e, Keeps scope entries (throw e : Eval (Option Term)) := fun e s hs => ⟨rfl, hs⟩
    exact ⟨fun w rs => Keeps.computes (fun _ => hthrow _) Vocabulary.varsIn_any w,
      fun w rs args => Keeps.computes (fun _ => hthrow _) Vocabulary.varsIn_any w⟩
  | succ n ih =>
    refine ⟨fun w rs => Keeps.computes (fun hrs => ?_) Vocabulary.varsIn_any w,
      fun w rs args => Keeps.computes (fun hrs => ?_) Vocabulary.varsIn_any w⟩
    · have hdoc := Keeps.of_computes (computes_evalDocument lawful ih rs (policyProper rs)
        (computes_candidates lawful ih rfl rs)) hrs
      exact (hdoc.entering rs).recalling rs
    · have hfun := Keeps.of_computes (computes_evalFunction lawful ih rs args
        (P := rs ∈ env.policy.ruleSets ∧ ∀ t ∈ args, t.VarsIn (retaining env scope entries).names)
        (fun hP => policyProper rs hP.1) And.right) hrs
      exact hfun.entering rs

end Coupling.retaining

/-! ## Documents -/

/-- The document of a rule set is known: it is remembered in the current scope, or it is that of a function, which has
none. -/
def State.Knows (s : State) (rs : RuleSet) (v : Option Term) : Prop :=
  if rs.kind = .function then v = none else s.remembered? rs.path = some v

section Knows

variable {env : Env} {rs : RuleSet} {v : Option Term} {n : Nat} {s s₁ : State}

/-- Asking for a document forgets no other one. -/
theorem Env.retains_of_document {rs : RuleSet} (hrs : rs ∈ env.policy.ruleSets) {r : Except EvalError (Option Term)}
    (hrun : ((env.rulesTo n).document rs).run s = (r, s₁)) {scope : Nat} {entries : List MemoEntry}
    (hretains : s.Retains scope entries) : s₁.frame = s.frame ∧ s₁.Retains scope entries := by
  have hanswer : Coupling.RulesAnswer (.retaining env scope entries) (env.rulesTo n) fun _ => env.rulesTo n :=
    Coupling.retaining.rulesAnswer n
  have hkeeps := Coupling.retaining.Keeps.of_computes (hanswer.document () rs) hrs s hretains
  rwa [hrun] at hkeeps

theorem State.Knows.congr (h : s.Knows rs v) (hscope : s₁.scope = s.scope) (hmemo : s₁.memo = s.memo) :
    s₁.Knows rs v := by
  simpa only [Knows, remembered?, hscope, hmemo] using h

/-- What was known before the document of a rule set was asked for is known after it. -/
theorem State.Knows.document (h : s.Knows rs v) (hscope : s.scope.id ≤ s.lastScope) {rs' : RuleSet}
    (hrs' : rs' ∈ env.policy.ruleSets) {r : Except EvalError (Option Term)}
    (hrun : ((env.rulesTo n).document rs').run s = (r, s₁)) : s₁.Knows rs v := by
  rw [Knows] at h ⊢
  split at h
  · next hkind => rwa [if_pos hkind]
  · next hkind =>
    have hretains : s.Retains s.scope.id [⟨s.scope.id, rs.path, v⟩] := by
      refine ⟨hscope, ?_, ?_⟩ <;> intro e he <;> rw [List.mem_singleton.1 he]
      exact h
    obtain ⟨hframe, hkept⟩ := Env.retains_of_document hrs' hrun hretains
    have hsame : s₁.scope = s.scope := congrArg Frame.scope hframe
    rw [if_neg hkind, State.remembered?_eq, hsame]
    exact hkept.recalled _ List.mem_cons_self

end Knows

end PolicyEngine
