import Mathlib.Data.List.Forall2
import Mathlib.Data.List.Perm.Basic
import PolicyEngine.Proofs.Collections
import PolicyEngine.Proofs.Recollection

/-!
What the rules of a document derive, one rule at a time. The value of a complete document is one on which its rules
agree; a partial document gathers what its rules derive, and no rule derives what the document as a whole does not have.
So rules that succeeded in one order are followed, in any other order, by rules that stay within the same document.
-/
namespace PolicyEngine

/-! ## Values on which rules agree -/

/-- A value, if there is one, is among those found and equal to all of them. -/
structure Agreed (found : List (Option Term)) (r : Option Term) : Prop where
  agrees : ∀ t, some t ∈ found → ∃ u, r = some u ∧ (u == t) = true
  mem : ∀ t, r = some t → some t ∈ found

namespace Agreed

variable {found found' : List (Option Term)} {r r' c : Option Term} {old t : Term}

theorem perm (h : Agreed found r) (hperm : found'.Perm found) : Agreed found' r :=
  ⟨fun t ht => h.agrees t (hperm.mem_iff.1 ht), fun t ht => hperm.mem_iff.2 (h.mem t ht)⟩

/-- Two values on which the same are agreed are equal, or there is none. -/
theorem same (h : Agreed found r) (h' : Agreed found r') : Option.Rel Term.Same r' r := by
  cases r with
  | some t =>
    obtain ⟨t', rfl, ht'⟩ := h'.agrees t (h.mem t rfl)
    exact .some ht'
  | none =>
    cases r' with
    | none => exact .none
    | some t' =>
      obtain ⟨_, hr, _⟩ := h.agrees t' (h'.mem t' rfl)
      cases hr

end Agreed

section Runs

variable {env : Env} {rules : RuleSemantics} {rs : RuleSet} {ruleList : List Rule} {found r : Option Term}
  {s s₁ : State}

theorem Env.run_evalAgreeing_cons (env : Env) (rules : RuleSemantics) (rs : RuleSet) (args : Option (List Term))
    (keep : Term → Term → Term) (rule : Rule) (rest : List Rule) (found : Option Term) (s : State) :
    (env.evalAgreeing rules rs args keep (rule :: rest) found).run s =
      match (env.evalChain rules rs args rule.clauses).run s with
      | (.error e, s) => (.error e, s)
      | (.ok none, s) => (env.evalAgreeing rules rs args keep rest found).run s
      | (.ok (some value), s) =>
        match found with
        | none => (env.evalAgreeing rules rs args keep rest (some value)).run s
        | some old =>
          if old == value then (env.evalAgreeing rules rs args keep rest (some (keep old value))).run s
          else (.error (Env.valueConflict rs old value), s) := by
  rw [evalAgreeing, Eval.run_bind]
  rcases (env.evalChain rules rs args rule.clauses).run s with ⟨e | _ | value, s₁⟩
  · rfl
  · cases found <;> rfl
  · cases found with
    | none => rfl
    | some old =>
      simp only
      split <;> rfl

end Runs

/-! ## Rules one after another -/

section Results

variable {β γ : Type} {m : Eval β} {g : β → γ} {s s₁ : State}

theorem Eval.run_map_ok {c : γ} (h : (do return g (← m) : Eval γ).run s = (.ok c, s₁)) :
    ∃ b, m.run s = (.ok b, s₁) ∧ g b = c := by
  rw [Eval.run_bind] at h
  rcases hm : m.run s with ⟨e | b, s₂⟩ <;> rw [hm] at h <;> cases h
  exact ⟨b, rfl, rfl⟩

end Results

section Folds

variable {β γ : Type} {f : β → γ → Eval β} {cs : List γ} {b r : β} {s s₁ : State}

theorem Eval.run_foldlM_cons (f : β → γ → Eval β) (b : β) (c : γ) (rest : List γ) (s : State) :
    ((c :: rest).foldlM f b).run s = match (f b c).run s with
      | (.ok b, s) => (rest.foldlM f b).run s
      | (.error e, s) => (.error e, s) := by
  rw [List.foldlM_cons]
  exact Eval.run_bind _ _ _

end Folds

/-! ## The document that rules derive -/

/-- A search for what a rule derives, after its entry was noted. -/
def Env.deriveBy (env : Env) (rs : RuleSet) (search : Nat → Search β) (start : β) : Eval β := do
  let depth := (← get).depth
  env.emit .enter depth fun _ => rs.name
  Search.gather (search depth) start

theorem Env.run_deriveBy (env : Env) (rs : RuleSet) (search : Nat → Search β) (start : β) (s : State) :
    (env.deriveBy rs search start).run s =
      (Search.gather (search s.depth) start).run ((env.emit .enter s.depth fun _ => rs.name).run s).2 := by
  simp only [deriveBy, Eval.run_bind, Eval.run_get, env.run_emit]

namespace Pairing.recollecting

variable {env : Env} {f : String → List Term → Option (Option Term)} {busy : List String} {w : Scopes} {s t s₁ : State}

/-- What an ideal search gathers and is admitted, one that remembers documents follows, unless it is refused a rule
set. -/
theorem of_search {α α' : Type} {P : Prop} {A : Gathering α α'} {m : Search α} {m' : Search α'} {a b : α} {a' : α'}
    (hm : (recollecting env f busy).coupling.Simulates w P A m fun _ => m') (hP : P) (h : Recollects env f busy w s t)
    (hA : A.rel a a') (hrun : (Search.gather m a).run s = (.ok b, s₁)) (hb : A.admits b) :
    (∃ b' t₁, (Search.gather m' a').run t = (.ok b', t₁) ∧ A.rel b b' ∧ Recollects env f busy w s₁ t₁ ∧
      s₁.frame = s.frame) ∨ ∃ e, ((Search.gather m' a').run t).1 = .error e ∧ env.Refuses e :=
  Pairing.of_search (Scopes.Later.refl w) rfl (fun _ => trivial) hm hP h hA hrun hb

end Pairing.recollecting

/-- A state of an evaluation that remembers documents, under overrides and in an environment. -/
structure State.Ready (env : Env) (f : String → List Term → Option (Option Term)) (busy : List String) (w : Scopes)
    (σ : Scope) (b : Bindings) (t : State) : Prop where
  mindful : t.Mindful env f busy w
  agrees : σ.Agrees t.scope
  bindings : t.bindings = b

section Derived

variable {env : Env} {f : String → List Term → Option (Option Term)} {busy : List String} {w : Scopes} {σ : Scope}
  {bs : Bindings} {rs : RuleSet} {u u₁ t : State}

theorem State.Ready.quiet {t₁ : State} (h : t.Ready env f busy w σ bs) (hq : t.Quiet t₁) :
    t₁.Ready env f busy w σ bs := by
  have hscope : t₁.scope = t.scope := congrArg Frame.scope hq.frame
  exact ⟨h.mindful.quiet hq, hscope ▸ h.agrees, (congrArg Frame.bindings hq.frame).trans h.bindings⟩

theorem State.Ready.recollects (h : t.Ready env f busy w σ bs) (hu : u.Poised env f σ bs) :
    Pairing.Recollects env f busy w u t :=
  ⟨h.bindings.trans hu.bindings.symm, hu.agrees.symm.trans h.agrees, hu.calm, hu.answered, h.mindful⟩

/-- After a step of both evaluations the one that remembers is ready for the next. -/
theorem State.Ready.of_recollects {t₁ : State} (hu : u.Poised env f σ bs) (hframe : u₁.frame = u.frame)
    (h : Pairing.Recollects env f busy w u₁ t₁) : t₁.Ready env f busy w σ bs := by
  have hscope : u₁.scope = u.scope := congrArg Frame.scope hframe
  have hbindings : u₁.bindings = u.bindings := congrArg Frame.bindings hframe
  exact ⟨h.mindful, hu.agrees.trans (hscope ▸ h.agrees), h.bindings.trans (hbindings.trans hu.bindings)⟩

/-- What an ideal computation came to, one that remembers documents comes to as well, unless it is refused a rule
set. -/
theorem State.Ready.of_run {β : Type} {P : Prop} {p : β → Prop} {m m' : Eval β} {x : β}
    (hm : (Pairing.recollecting env f busy).coupling.Computes w P (Both p) m fun _ => m') (hP : P)
    (hu : u.Poised env f σ bs) (hrun : m.run u = (.ok x, u₁)) (ht : t.Ready env f busy w σ bs) :
    (∃ t₁, m'.run t = (.ok x, t₁) ∧ t₁.Ready env f busy w σ bs) ∨ ∃ e, (m'.run t).1 = .error e ∧ env.Refuses e :=
  (Pairing.recollecting.of_run hm hP (ht.recollects hu) hrun).imp_left fun ⟨t₁, hrun', hrel, hframe⟩ =>
    ⟨t₁, hrun', .of_recollects hu hframe hrel⟩

section Searches

variable {β : Type} {P : Prop} {admits holds : β → Prop} {search search' : Nat → Search β} {a b a' : β}

end Searches

/-- A document, or none, is the same as another or a part of it. -/
inductive PartOf : Option Term → Option Term → Prop
  | same {v v' : Option Term} (h : Option.Rel Term.Same v' v) : PartOf v' v
  | members {ms ms' : List Term} (hsorted : Term.SortedBy id ms') (h : Within Term.Same ms' ms) :
    PartOf (some (.set ms')) (some (.set ms))
  | fields {fs fs' : List (Term × Term)} (hsorted : Term.SortedBy Prod.fst fs') (h : Within Term.SameField fs' fs) :
    PartOf (some (.object fs')) (some (.object fs))

theorem same_refl (v : Option Term) : Option.Rel Term.Same v v := by
  cases v with
  | none => exact .none
  | some t => exact .some (Term.beq_refl t)

theorem same_symm {v v' : Option Term} (h : Option.Rel Term.Same v' v) : Option.Rel Term.Same v v' := by
  cases h with
  | none => exact .none
  | some h => exact .some (Term.beq_symm h)

theorem PartOf.antisymm {v v' : Option Term} (h : PartOf v' v) (h' : PartOf v v') : Option.Rel Term.Same v v' := by
  cases h with
  | same h => exact same_symm h
  | members hsorted hin =>
    cases h' with
    | same h' => exact h'
    | members hsorted' hin' => exact .some (Term.set_beq_of_within hsorted' hsorted hin' hin)
  | fields hsorted hin =>
    cases h' with
    | same h' => exact h'
    | fields hsorted' hin' => exact .some (Term.object_beq_of_within hsorted' hsorted hin' hin)

section Kinds

variable {n : Nat} {ruleList ruleList' : List Rule} {rules' : RuleSemantics}

theorem deriveMembers_eq (env : Env) (rules : RuleSemantics) (rs : RuleSet) {rule : Rule} {key : Term}
    (hkey : rule.first.head.key = some key) (members : List Term) :
    env.deriveMembers rules rs members rule =
      env.deriveBy rs (fun d => Coupling.memberSearch env rules rs d key rule.first.body) members := by
  simp only [Env.deriveMembers, hkey]
  rfl

theorem deriveFields_eq (env : Env) (rules : RuleSemantics) (rs : RuleSet) {rule : Rule} {key : Term}
    (hkey : rule.first.head.key = some key) (fields : List (Term × Term)) :
    env.deriveFields rules rs fields rule =
      env.deriveBy rs (fun d => Coupling.fieldSearch env rules rs d key rule.first.value rule.first.body) fields := by
  simp only [Env.deriveFields, hkey]
  rfl

theorem State.Poised.evalChain (hreg : env.registry.Regular) (hf : env.Settled f) (hu : u.Poised env f σ bs)
    (hrs : rs ∈ env.policy.ruleSets) {rule : Rule} (hrule : rule ∈ rs.rules) {c : Option Term}
    (hrun : (env.evalChain (env.idealTo n) rs none rule.clauses).run u = (.ok c, u₁)) : u₁.Poised env f σ bs := by
  have hsteady := Env.steady_any hreg hf.fixed
  refine hu.of_run (Coupling.computes_evalChain (Pairing.alike.lawful hsteady).coupling
    (Pairing.alike.rulesAnswer hsteady (Nat.le_refl n)) rs none rule.clauses (fun hP => ?_) fun _ => ifSome_none)
    (fun c => Coupling.computes_evalChain hf.framing (Coupling.framing.idealAnswer hf.framing n) rs none rule.clauses
      (fun hP => ?_) fun _ => ifSome_none) hrs hrun
  · exact ((Pairing.alike.lawful hsteady).policyProper rs hP).rules rule hrule
  · exact (Coupling.framing.proper rs).rules rule hrule

variable (hreg : env.registry.Regular) (hf : env.Settled f) (hrs : rs ∈ env.policy.ruleSets)
  (hlist : ∀ rule ∈ ruleList, rule ∈ rs.rules)
  (hr : Coupling.RulesAnswer (Pairing.recollecting env f busy).coupling (env.idealTo n) fun _ => rules')
  (hperm : ruleList'.Perm ruleList) (hu : u.Poised env f σ bs) (ht : t.Ready env f busy w σ bs)
include hreg hf hrs hlist hr hperm hu ht

end Kinds

end Derived

end PolicyEngine
