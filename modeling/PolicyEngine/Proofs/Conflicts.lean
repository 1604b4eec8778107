import PolicyEngine.Proofs.Reordering

/-!
Rules that contradict each other. What a rule comes to for a complete document, or for a call of its function, does not
depend on where the evaluation stands. Where rules come to different values none of these is chosen: the evaluation ends
with a conflict, unless it is refused a rule set before.
-/
namespace PolicyEngine

/-! ## Rules one after another -/

/-- An error that tells of two different values for one document or call. -/
def RuleSet.Conflicts (rs : RuleSet) (e : EvalError) : Prop :=
  ∃ first second, (first == second) = false ∧ e = Env.valueConflict rs first second

section Runs

variable {env : Env} {rules : RuleSemantics} {rs : RuleSet} {args : Option (List Term)} {keep : Term → Term → Term}
  {ruleList : List Rule} {s : State}

/-- Rules that come to known values come to one that is equal to all of them, or two of the values differ. -/
theorem run_of_known (inv : State → Prop) (known : Rule → Option Term → Prop) (refused : EvalError → Prop)
    (hkeep : ∀ old new, keep old new = old ∨ keep old new = new)
    (hchain : ∀ rule ∈ ruleList, ∀ s c, inv s → known rule c →
      (∃ s₁, (env.evalChain rules rs args rule.clauses).run s = (.ok c, s₁) ∧ inv s₁) ∨
        ∃ e, ((env.evalChain rules rs args rule.clauses).run s).1 = .error e ∧ refused e)
    {cs : List (Option Term)} (hcs : List.Forall₂ known ruleList cs) (found : Option Term) (hs : inv s) :
    (∃ r s₁, (env.evalAgreeing rules rs args keep ruleList found).run s = (.ok r, s₁) ∧
      ∀ t, some t ∈ found :: cs → ∃ u, r = some u ∧ (u == t) = true) ∨
      ∃ e, ((env.evalAgreeing rules rs args keep ruleList found).run s).1 = .error e ∧
        (rs.Conflicts e ∨ refused e) := by
  induction hcs generalizing found s with
  | nil =>
    refine .inl ⟨found, s, rfl, fun t ht => ?_⟩
    exact ⟨t, (List.mem_singleton.1 ht).symm, Term.beq_refl t⟩
  | @cons rule c rest cs hknown _ ih =>
    rw [List.forall_mem_cons] at hchain
    rw [Env.run_evalAgreeing_cons]
    rcases hchain.1 s c hs hknown with ⟨s₂, hrun, hs₂⟩ | ⟨e, he, hrefused⟩
    · rw [hrun]
      cases c with
      | none =>
        refine (ih hchain.2 _ hs₂).imp_left ?_
        rintro ⟨r, s₁, hrun, hr⟩
        refine ⟨r, s₁, hrun, fun t ht => hr t ?_⟩
        simpa using ht
      | some value =>
        cases found with
        | none =>
          refine (ih hchain.2 _ hs₂).imp_left ?_
          rintro ⟨r, s₁, hrun, hr⟩
          refine ⟨r, s₁, hrun, fun t ht => hr t ?_⟩
          simpa using ht
        | some old =>
          cases hequal : old == value with
          | false => exact .inr ⟨_, by simp only [hequal, Bool.false_eq_true, if_false], .inl ⟨old, value, hequal, rfl⟩⟩
          | true =>
            simp only [hequal, if_true]
            refine (ih hchain.2 _ hs₂).imp_left ?_
            rintro ⟨r, s₁, hrun, hr⟩
            refine ⟨r, s₁, hrun, fun t ht => ?_⟩
            obtain ⟨u, rfl, hu⟩ := hr (keep old value) List.mem_cons_self
            -- the value that is kept is equal to both
            have hboth : (u == old) = true ∧ (u == value) = true := by
              rcases hkeep old value with hold | hnew
              · rw [hold] at hu
                exact ⟨hu, Term.beq_trans hu hequal⟩
              · rw [hnew] at hu
                exact ⟨Term.beq_trans hu (Term.beq_symm hequal), hu⟩
            rcases List.mem_cons.1 ht with ht | ht
            · cases ht
              exact ⟨u, rfl, hboth.1⟩
            · rcases List.mem_cons.1 ht with ht | ht
              · cases ht
                exact ⟨u, rfl, hboth.2⟩
              · exact hr t (List.mem_cons_of_mem _ ht)
    · rcases hrun : (env.evalChain rules rs args rule.clauses).run s with ⟨e' | c', s₂⟩ <;> rw [hrun] at he <;> cases he
      exact .inr ⟨e, rfl, .inr hrefused⟩

/-- Values that one value is equal to do not differ. -/
theorem not_differ_of_agreed {cs : List (Option Term)} {r : Option Term}
    (hr : ∀ t, some t ∈ cs → ∃ u, r = some u ∧ (u == t) = true) {t t' : Term} (ht : some t ∈ cs) (ht' : some t' ∈ cs) :
    (t == t') = true := by
  obtain ⟨u, rfl, hu⟩ := hr t ht
  obtain ⟨u', hsame, hu'⟩ := hr t' ht'
  cases hsame
  exact Term.beq_trans (Term.beq_symm hu) hu'

end Runs

/-! ## What rules come to -/

section Rules

variable {env : Env} {f : String → List Term → Option (Option Term)} {busy : List String} {w : Scopes} {σ : Scope}
  {rs : RuleSet} {rule : Rule} {args : Option (List Term)} {rules' : RuleSemantics} {ruleList : List Rule}
  {cs : List (Option Term)} {x y : Term} {t : State}

/-- What a rule comes to under overrides, for its document or for operands, the other documents being what they
should be. -/
def Env.Derives (env : Env) (f : String → List Term → Option (Option Term)) (σ : Scope) (rs : RuleSet)
    (args : Option (List Term)) (rule : Rule) (c : Option Term) : Prop :=
  env.Comes f σ {} (fun n => env.evalChain (env.idealTo n) rs args rule.clauses) c

theorem ifSome_varsIn_any (args : Option (List Term)) :
    IfSome (fun args => ∀ t ∈ args, t.VarsIn Vocabulary.any.names) args :=
  fun _ _ t _ => t.varsIn_of_forall fun _ => trivial

/-- An evaluation that remembers documents comes to what a rule comes to, unless it is refused a rule set. -/
theorem Env.Derives.run (hreg : env.registry.Regular) (hf : env.Settled f)
    (hr : ∀ n, Coupling.RulesAnswer (Pairing.recollecting env f busy).coupling (env.idealTo n) fun _ => rules')
    (hrs : rs ∈ env.policy.ruleSets) (hrule : rule ∈ rs.rules) {c : Option Term}
    (h : env.Derives f σ rs args rule c) (ht : t.Ready env f busy w σ {}) :
    (∃ t₁, (env.evalChain rules' rs args rule.clauses).run t = (.ok c, t₁) ∧ t₁.Ready env f busy w σ {}) ∨
      ∃ e, ((env.evalChain rules' rs args rule.clauses).run t).1 = .error e ∧ env.Refuses e := by
  have hlaw : (Pairing.recollecting env f busy).Lawful := Pairing.recollecting.lawful hreg hf
  obtain ⟨n, u, u₁, hu, hrun⟩ := h
  refine ht.of_run (Coupling.computes_evalChain hlaw.coupling (hr n) rs args rule.clauses (fun hP => ?_)
    fun _ => ifSome_varsIn_any args) hrs hu hrun
  exact (hlaw.policyProper rs hP).rules rule hrule

/-- Rules that come to different values end in a conflict, unless the evaluation is refused a rule set. -/
theorem Env.evalAgreeing_conflict (hreg : env.registry.Regular) (hf : env.Settled f)
    (hr : ∀ n, Coupling.RulesAnswer (Pairing.recollecting env f busy).coupling (env.idealTo n) fun _ => rules')
    (hrs : rs ∈ env.policy.ruleSets) (hlist : ∀ r ∈ ruleList, r ∈ rs.rules) {keep : Term → Term → Term}
    (hkeep : ∀ old new, keep old new = old ∨ keep old new = new)
    (hcs : List.Forall₂ (env.Derives f σ rs args) ruleList cs) (hx : some x ∈ cs) (hy : some y ∈ cs)
    (hne : (x == y) = false) (ht : t.Ready env f busy w σ {}) :
    ∃ e, ((env.evalAgreeing rules' rs args keep ruleList none).run t).1 = .error e ∧
      (rs.Conflicts e ∨ env.Refuses e) := by
  rcases run_of_known (fun t => t.Ready env f busy w σ {}) (env.Derives f σ rs args) env.Refuses hkeep
    (fun rule hrule t c ht hderives => hderives.run hreg hf hr hrs (hlist rule hrule) ht) hcs none ht with
    ⟨r, t₁, _, hagreed⟩ | herror
  · rw [not_differ_of_agreed hagreed (List.mem_cons_of_mem _ hx) (List.mem_cons_of_mem _ hy)] at hne
    cases hne
  · exact herror

/-- A call for which rules of the function come to different values. -/
theorem Env.evalFunction_conflict (hreg : env.registry.Regular) (hf : env.Settled f)
    (hdistinct : env.policy.Distinct) (hrs : rs ∈ env.policy.ruleSets) {operands : List Term}
    (hcs : List.Forall₂ (env.Derives f σ rs (some operands)) rs.rules cs) (hx : some x ∈ cs) (hy : some y ∈ cs)
    (hne : (x == y) = false) (ht : t.Ready env f busy w σ {}) (n : Nat) :
    ∃ e, ((env.evalFunction (env.rulesTo n) rs operands).run t).1 = .error e ∧ (rs.Conflicts e ∨ env.Refuses e) := by
  have hr : ∀ k, Coupling.RulesAnswer (Pairing.recollecting env f busy).coupling (env.idealTo k)
      fun _ => env.rulesTo n := by
    intro k
    rw [Env.rulesTo_eq_rulesVia]
    exact Pairing.recollecting.rulesAnswer hreg hf hdistinct (env.policy.standsIn_id busy) k n
  exact Env.evalAgreeing_conflict hreg hf hr hrs (fun _ hrule => hrule) (fun _ _ => .inr rfl) hcs hx hy hne ht

end Rules

/-! ## Complete documents -/

section Documents

variable {env : Env} {f : String → List Term → Option (Option Term)} {path : DataPath} {rs : RuleSet} {s : State}
  {cs : List (Option Term)} {x y : Term}

/-- Reading a complete document for which selected rules come to different values. -/
theorem Env.readAt_conflict (hreg : env.registry.Regular) (hf : env.Settled f) (hdistinct : env.policy.Distinct)
    (hrs : env.policy.ruleSet? path = some rs) (hkind : rs.kind = .complete)
    (hmax : env.policy.ruleSets.length ≤ env.options.maxDepth) (hfailing : env.failing = [])
    (hroot : env.root.fits = true) (hs : s.Begins env f)
    (hcs : List.Forall₂ (env.Derives f s.scope rs none) (rs.rules.filter (env.selects s.scope.input)) cs)
    (hx : some x ∈ cs) (hy : some y ∈ cs) (hne : (x == y) = false) :
    ∃ e, env.readAt path s = .error e ∧ (rs.Conflicts e ∨ ∃ names, e = .recursion names) := by
  have hmem := (Policy.mem_of_ruleSet? hrs).1
  have hfunction : rs.kind ≠ .function := by
    rw [hkind]
    decide
  have hdepth : s.depth < env.options.maxDepth := by
    have hpos := List.length_pos_of_mem hmem
    rw [hs.depth]
    omega
  obtain ⟨u, hquiet, hread⟩ := Env.run_document_via RuleSet.stands_id hrs hfunction hfailing hs.data hroot hs.input
    hs.memo hs.inProgress hdepth env.policy.ruleSets.length
  rw [← Env.rulesTo_eq_rulesVia] at hread
  obtain ⟨w, hready⟩ := hs.ready hmem hquiet
  obtain ⟨e, he, hcause⟩ := Env.evalAgreeing_conflict hreg hf
    (fun n => Pairing.recollecting.rulesAnswer hreg hf hdistinct (env.policy.standsIn_id [rs.name]) n
      env.policy.ruleSets.length) hmem (fun _ hrule => (List.mem_filter.1 hrule).1) (fun _ _ => .inl rfl) hcs hx hy hne
    hready
  refine ⟨e, hread.trans ?_, hcause.imp_right fun hrefused => hrefused.eq_recursion hmax⟩
  simp only [id, Coupling.documentFrom, hkind, Eval.run_bind] at he ⊢
  rcases hrun : (env.evalAgreeing (env.rulesVia id env.policy.ruleSets.length) rs none (fun old _ => old)
    (rs.rules.filter (env.selects s.scope.input)) none).run u with ⟨e' | r, u₁⟩
  · rw [hrun] at he
    cases he
    rfl
  · rw [hrun] at he
    cases he

end Documents

/-- An engine without an index evaluates a complete document for which rules come to different values: it ends with a
conflict, unless it finds a rule set in progress already. -/
theorem Engine.evalRule_conflict {e : Engine} {f : String → List Term → Option (Option Term)} {name : String}
    {path : DataPath} {policy : Policy} {rs : RuleSet} {cs : List (Option Term)} {x y : Term} (he : e.SelfContained f)
    (hcompiled : e.Compiled) (hname : DataPath.parse? name = some path)
    (hpolicy : Policy.compile e.modules = .ok policy) (hrs : policy.ruleSet? path = some rs)
    (hkind : rs.kind = .complete) (hindexed : e.options.indexed = false)
    (hcs : List.Forall₂ ((e.snapshot policy).Derives f e.start.scope rs none) rs.rules cs)
    (hx : some x ∈ cs) (hy : some y ∈ cs) (hne : (x == y) = false) :
    ∃ err, (e.evalRule name).1.result = .error err ∧ (rs.Conflicts err ∨ ∃ names, err = .recursion names) := by
  have hall : rs.rules.filter ((e.snapshot policy).selects e.start.scope.input) = rs.rules := by
    refine List.filter_eq_self.2 fun rule _ => ?_
    have hoff : (e.snapshot policy).options.indexed = false := hindexed
    rw [Env.selects, hoff]
    rfl
  rw [Engine.evalRule_result hname hcompiled hpolicy]
  exact Env.readAt_conflict he.regular (he.settled policy _) (Policy.distinct_of_compile hpolicy) hrs hkind
    (he.depth policy hpolicy) he.inMemory he.root (he.begins policy) (hall.symm ▸ hcs) hx hy hne

end PolicyEngine
