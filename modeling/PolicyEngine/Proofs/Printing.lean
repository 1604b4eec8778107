import PolicyEngine.Proofs.Conjunction
import PolicyEngine.Proofs.Grounded
import PolicyEngine.Proofs.Queries

/-!
Printing leaves no trace in the solutions of a query. An expression that prints gathers the values of its operands,
undefined ones and several at a time included, and goes on once in the environment that it started in; it fails only if
a value cannot be gathered. So wherever it stands in the body of a query, the query has the same solutions in the same
order as without it, unless one of the two fails.
-/
namespace PolicyEngine

/-- The function that prints. -/
def Builtin.printer : Builtin :=
  { Builtin.ofContextual "print" [] .boolean Builtin.print with variadic := true, lenient := true }

/-- An expression that prints the values of some terms. -/
def Expr.printing (args : List Term) : Expr := .ofKind (.term (.call (.ref (.var "print") []) args))

/-- The function that prints is the built-in one, and under the overrides nothing stands in for it. -/
structure Env.Prints (env : Env) (σ : Scope) : Prop where
  builtin : env.registry.get? "print" = some .printer
  unmocked : (σ.functions.find? fun (n, _) => n == "print") = none

theorem Env.Prints.congr {env : Env} {σ τ : Scope} (h : env.Prints σ) (hfunctions : τ.functions = σ.functions) :
    env.Prints τ :=
  ⟨h.builtin, hfunctions ▸ h.unmocked⟩

/-! ## Searches after a computation -/

/-- Where something was computed and a continuation called after it, nothing is made up for a missing solution. -/
theorem Search.orElse_after_noting (m : Eval β) (k : Search α) (otherwise : Eval Unit) :
    Search.orElse (Search.after m fun _ => Search.noting k) otherwise = Search.after m fun _ => k := by
  funext found s
  simp only [Search.orElse, Search.after]
  rcases m.run s with ⟨e | b, s₁⟩
  · rfl
  · simp only [Search.noting]
    rcases (k found s₁) with ⟨e | flow, found', s₂⟩ <;> rfl

theorem Search.after_bind (m : Eval β) (f : β → Eval γ) (k : γ → Search α) :
    Search.after (m >>= f) k = Search.after m fun b => Search.after (f b) k := by
  funext found s
  simp only [Search.after, Eval.run_bind]
  rcases m.run s with ⟨e | b, s₁⟩ <;> rfl

theorem Search.after_pure (b : β) (k : β → Search α) : Search.after (pure b) k = k b := rfl

/-! ## The operands of a lenient call -/

namespace Env

variable (env : Env) (rules : RuleSemantics)

/-- The operands of a lenient call, each made of all values of a term. -/
def lenientOperands : List Term → Eval (List Term)
  | [] => pure []
  | t :: rest => do
    let values ← Search.gather (env.evalTerm rules t (Search.ground fun t => Search.collect (Term.insertMember t))) []
    let operands ← lenientOperands rest
    pure (lenientOperand values :: operands)

theorem evalCall_lenient {callee : Callee} (hlenient : callee.lenient = true) (args operands : List Term)
    (k : Term → Search α) (done : Search α) :
    env.evalCall rules callee none args operands k done =
      Search.after (env.lenientOperands rules args) fun values =>
        Search.afterSome (env.apply rules callee (operands.reverse ++ values)) k := by
  induction args generalizing operands with
  | nil =>
    rw [evalCall, lenientOperands, Search.after_pure, List.append_nil]
  | cons t rest ih =>
    rw [evalCall, if_neg (by simp), if_pos hlenient, lenientOperands]
    simp only [ih, Search.after_bind, List.reverse_cons, List.append_assoc]
    rfl

/-- The values gathered for an operand are ground, and so is the operand that they make. -/
theorem isGround_lenientOperand {values : List Term} (h : ∀ t ∈ values, t.isGround = true) :
    (lenientOperand values).isGround = true := by
  rw [lenientOperand.eq_def]
  split
  · rfl
  · exact h _ List.mem_cons_self
  · exact Term.hereditary_isGround.set.2 h

theorem gives_lenientOperands (args : List Term) :
    (env.lenientOperands rules args).Gives fun values => values.all Term.isGround = true := by
  induction args with
  | nil => exact .pure rfl
  | cons t rest ih =>
    have hplug : Search.Plugs (fun _ => True) (fun _ => True) fun t => t.isGround = true := fun _ _ _ _ h => h
    have hgather : (Search.gather (env.evalTerm rules t (Search.ground fun t =>
        Search.collect (Term.insertMember t))) []).Gives fun values => ∀ t ∈ values, t.isGround = true := by
      refine Eval.Ensures.gather (env.keeps_evalTerm rules t fun v => ?_) (List.forall_mem_nil _)
      exact .ground hplug (fun v hv => .collect fun values hvalues => Term.forall_insertMember hvalues hv) trivial
    refine hgather.bind fun values hvalues => ih.bind fun operands hoperands => .pure ?_
    rw [List.all_cons, isGround_lenientOperand hvalues, hoperands]
    rfl

/-- Printing succeeds, whatever the operands. -/
theorem run_printer {args : List Term} (hground : args.all Term.isGround = true) (s : State) :
    ∃ host, (env.callBuiltin .printer args).run s = (.ok (some (.bool true)), { s with host := host }) := by
  rw [run_callBuiltin, run_runBuiltin, refusal?, hground]
  exact ⟨_, rfl⟩

/-! ## Printing as a step -/

/-- Gathers the operands and prints them. -/
def printOperands (args : List Term) : Eval Unit := do
  let operands ← env.lenientOperands rules args
  let _ ← env.callBuiltin .printer operands
  return ()

/-- What the evaluation of a printing expression does before it goes on. -/
def printStep (args : List Term) : Eval Unit := do
  env.checkpoint
  let depth := (← get).depth
  env.emit .eval depth fun _ => (Expr.printing args).text
  env.printOperands rules args

theorem run_resolveFunction_print {s : State} (hprints : env.Prints s.scope) :
    (env.resolveFunction "print").run s = (.ok (.builtin .printer, none), s) := by
  have hrule : env.ruleFunction? "print" = none := by
    have hpath : DataPath.parse? "print" = none := by decide
    rw [ruleFunction?, hpath]
    rfl
  have hfunction : env.function "print" = .ok (.builtin .printer, none) := by
    rw [function, function?, hrule, hprints.builtin]
    rfl
  rw [resolveFunction, hfunction]
  simp only [Eval.run_bind, Eval.run_ofExcept, Eval.run_get, hprints.unmocked]
  rfl

/-- A printing expression gathers its operands, prints, and goes on. -/
theorem evalKind_printing {s : State} (hprints : env.Prints s.scope) (args : List Term) (k : Search α) (found : α) :
    env.evalKind rules (Expr.printing args).kind k found s =
      Search.after (env.printOperands rules args) (fun _ => k) found s := by
  have hcall : env.evalKind rules (Expr.printing args).kind k found s =
      Search.after (env.resolveFunction "print") (fun called =>
        env.evalCall rules called.1 (outputPosition called.2 args.length) args []
          (fun result => if result == .bool false then Search.exhausted else k) k) found s := by
    cases args <;> rfl
  have hlenient : env.evalKind rules (Expr.printing args).kind k found s =
      Search.after (env.lenientOperands rules args) (fun values =>
        Search.afterSome (env.callBuiltin .printer values)
          fun result => if result == .bool false then Search.exhausted else k) found s := by
    rw [hcall, Search.after, env.run_resolveFunction_print hprints]
    exact congrFun (congrFun (env.evalCall_lenient rules rfl args [] _ k) found) s
  rw [hlenient, printOperands, Search.after_bind]
  simp only [Search.after]
  rcases hrun : (env.lenientOperands rules args).run s with ⟨e | values, s₁⟩
  · rfl
  · have hground := ((env.gives_lenientOperands rules args) s trivial).2 values (congrArg Prod.fst hrun)
    obtain ⟨host, hprinted⟩ := env.run_printer hground s₁
    have htrue : (Term.bool true == .bool false) = false := by decide +kernel
    simp only [Search.afterSome, Search.after, Eval.run_bind, hprinted, htrue]
    rfl

theorem evalExpr_printing {s : State} (hprints : env.Prints s.scope) (args : List Term) (k : Search α) (found : α) :
    env.evalExpr rules (Expr.printing args) k found s =
      Search.after (env.printStep rules args) (fun _ => k) found s := by
  have hexpr : env.evalExpr rules (Expr.printing args) k = Search.after env.checkpoint fun _ =>
      Search.after get fun s => Search.after (env.emit .eval s.depth fun _ => (Expr.printing args).text) fun _ =>
        Search.orElse (env.evalKind rules (Expr.printing args).kind (Search.noting k))
          (env.emit .fail s.depth fun _ => (Expr.printing args).text) := by
    funext found s
    simp only [evalExpr, Expr.printing, Expr.ofKind, Search.after_bind]
    rfl
  rw [hexpr]
  simp only [printStep, Search.after_bind]
  simp only [Search.after, Eval.run_get]
  have hcheck := env.quiet_checkpoint s
  rcases hrun : env.checkpoint.run s with ⟨e | _, s₁⟩
  · rfl
  · rw [hrun] at hcheck
    have hemit := env.quiet_emit .eval s₁.depth (fun _ => (Expr.printing args).text) s₁
    simp only [env.run_emit] at hemit ⊢
    generalize (if env.options.tracing then
      { s₁ with host := s₁.host.emit ⟨.eval, s₁.depth, (Expr.printing args).text⟩ }
      else s₁) = s₂ at hemit ⊢
    have hscope : s₂.scope = s.scope := congrArg Frame.scope (hcheck.trans hemit).frame
    have hkind := env.evalKind_printing rules (hscope ▸ hprints) args (Search.noting k) (found, false)
    have hstep := congrFun (congrFun (Search.orElse_after_noting (env.printOperands rules args) k
      (env.emit .fail s₁.depth fun _ => (Expr.printing args).text)) found) s₂
    simp only [Search.orElse, hkind]
    exact hstep

end Env

/-! ## Printing beside an evaluation that does not print -/

namespace Pairing.alike

variable {env : Env} {f : String → List Term → Option Term} {σ : Scope} {s t t₁ : State} {n : Nat}

/-- After printing a state is alike to whatever it was alike to before. -/
theorem of_printStep (hsteady : env.Steady f .any) (hprints : env.Prints σ) (h : Alike env f .any σ s t)
    {args : List Term} (hrun : (env.printStep (env.idealTo n) args).run t = (.ok (), t₁)) :
    Alike env f .any σ s t₁ := by
  have hbody : env.evalBody (env.idealTo n) [Expr.printing args] Search.environment [] t =
      Search.environment [] t₁ := by
    have hexpr := env.evalExpr_printing (env.idealTo n) (hprints.congr h.scope'.functions) args Search.environment []
    rw [Search.after, hrun] at hexpr
    exact hexpr
  obtain ⟨_, hstate⟩ := returns_alike (n := n) hsteady [Expr.printing args] h [] (congrArg Step.outcome hbody)
  rwa [hbody] at hstate

/-- A search is simulated by another after printing as well as without it. -/
theorem simulates_printing (hsteady : env.Steady f .any) (hprints : env.Prints σ) (args : List Term) {α α' : Type}
    {A : Gathering α α'} {k : Search α} {k' : Search α'}
    (hk : (alike env f .any).coupling.Simulates σ True A k fun _ => k') :
    (alike env f .any).coupling.Simulates σ True A k
      fun _ => env.evalExpr (env.idealTo n) (Expr.printing args) k' := by
  refine ⟨hk.1, ?_⟩
  rintro _ _ rfl found found' s t hrel hst hfol hadmits
  have hst : Alike env f .any σ s t := hst
  have hexpr := env.evalExpr_printing (env.idealTo n) (hprints.congr hst.scope'.functions) args k' found'
  rcases hrun : (env.printStep (env.idealTo n) args).run t with ⟨e | _, t₁⟩
  · rw [Search.after, hrun] at hexpr
    exact ⟨_, .of_forall fun _ => hexpr, .inr ⟨e, rfl, trivial⟩⟩
  · rw [Search.after, hrun] at hexpr
    have hprinted : Alike env f .any σ s t₁ := of_printStep hsteady hprints hst hrun
    obtain ⟨r', hr', hmatch⟩ := hk.2 trivial σ rfl found found' s t₁ hrel hprinted hfol hadmits
    exact ⟨r', hr'.mono fun _ hi => hexpr.trans hi, hmatch⟩

end Pairing.alike

/-! ## Solutions -/

/-- What a solution says of some variables. -/
def Solution.restrict (names : List String) (solution : Solution) : Solution :=
  ⟨solution.bindings.filter fun (name, _) => names.contains name⟩

section Names

variable {x name : String} {names names' : List String}

theorem mem_insertName : x ∈ insertName name names ↔ x = name ∨ x ∈ names := by
  induction names with
  | nil => simp [insertName]
  | cons n rest ih =>
    rw [insertName]
    split
    · simp
    · next heq =>
      rw [Std.LawfulEqCmp.compare_eq_iff_eq] at heq
      simp [heq]
    · rw [List.mem_cons, ih, List.mem_cons]
      tauto

theorem mem_sortNames : x ∈ sortNames names ↔ x ∈ names := by
  induction names with
  | nil => rfl
  | cons n rest ih => rw [sortNames, List.foldr_cons, mem_insertName, List.mem_cons, ← ih, sortNames]

/-- Names in order, each once. -/
def SortedNames (names : List String) : Prop := names.Pairwise fun x y => compare x y = .lt

theorem SortedNames.insertName (h : SortedNames names) (name : String) : SortedNames (insertName name names) := by
  induction names with
  | nil => exact List.pairwise_singleton _ _
  | cons n rest ih =>
    rw [SortedNames, List.pairwise_cons] at h
    rw [PolicyEngine.insertName]
    split
    · next hlt =>
      refine List.pairwise_cons.2 ⟨?_, List.pairwise_cons.2 h⟩
      rintro x (_ | ⟨_, hx⟩)
      · exact hlt
      · exact Std.TransCmp.lt_trans hlt (h.1 x hx)
    · next heq =>
      rw [Std.LawfulEqCmp.compare_eq_iff_eq] at heq
      subst heq
      exact List.pairwise_cons.2 h
    · next hgt =>
      refine List.pairwise_cons.2 ⟨fun x hx => ?_, ih h.2⟩
      rcases mem_insertName.1 hx with rfl | hx
      · exact Std.OrientedCmp.lt_of_gt hgt
      · exact h.1 x hx

theorem sortedNames_sortNames (names : List String) : SortedNames (sortNames names) := by
  induction names with
  | nil => exact .nil
  | cons n rest ih => exact SortedNames.insertName ih n

/-- Names in order are determined by which they are. -/
theorem SortedNames.ext (h : SortedNames names) (h' : SortedNames names') (hmem : ∀ x, x ∈ names ↔ x ∈ names') :
    names = names' := by
  have hirrefl : Std.Irrefl fun x y : String => compare x y = .lt := ⟨fun x hx => by simp at hx⟩
  have hantisymm : Std.Antisymm fun x y : String => compare x y = .lt :=
    ⟨fun x y hx hy => absurd (Std.TransCmp.lt_trans hx hy) (hirrefl.irrefl x)⟩
  exact List.Pairwise.eq_of_mem_iff h h' hmem

end Names

/-- Of more names in order, the ones among fewer of them. -/
theorem Query.filter_vars {body body' : Body} (h : ∀ x ∈ body.flatMap exprVars, x ∈ body'.flatMap exprVars) :
    (vars body').filter (fun x => (vars body).contains x) = vars body := by
  have hsorted : ∀ body, SortedNames (vars body) := fun body => (sortedNames_sortNames _).filter _
  refine SortedNames.ext ((hsorted body').filter _) (hsorted body) fun x => ?_
  simp only [List.mem_filter, List.contains_iff_mem, vars, mem_sortNames]
  constructor
  · exact And.right
  · exact fun hx => ⟨⟨h x hx.1, hx.2⟩, hx⟩

theorem Query.restrict_solution {names names' : List String} (h : names'.filter (fun x => names.contains x) = names)
    (b : Bindings) : (solution names' b).restrict names = solution names b := by
  rw [solution, solution, Solution.restrict, Solution.mk.injEq]
  conv => rhs; rw [← h]
  rw [List.filter_filterMap, List.filterMap_filter]
  congr 1
  funext x
  by_cases hx : x ∈ names <;> by_cases hground : (b.plug (.var x)).isGround = true <;> simp [hx, hground]

/-! ## Queries -/

/-- The solutions of the first evaluation are what those of the second one say of some variables. -/
def Query.Restricting (names : List String) (found found' : Array Solution) : Prop :=
  found'.toList.map (Solution.restrict names) = found.toList

/-- Callers that take the values of some variables and of more of them. -/
theorem Coupling.simulates_takeAll {ι : Type} {C : Coupling ι} {w : C.World} {P : Prop} (h : C.Lawful)
    {names names' : List String} (hnames : names'.filter (fun x => names.contains x) = names) :
    C.Simulates w P (Query.Restricting names) (Search.handing names Query.takeAll)
      fun _ => Search.handing names' Query.takeAll := by
  refine ⟨fun _ _ => ⟨h.grows_refl _, fun _ => trivial⟩, ?_⟩
  rintro _ _ _ found found' s t hrel hst _ _
  refine ⟨_, .of_forall fun _ => rfl, .inl ⟨rfl, ⟨?_, fun _ => trivial⟩, ?_, rfl⟩⟩
  · simp only [Search.handing, Query.takeAll, Query.Restricting, Array.toList_push, List.map_append, List.map_cons,
      List.map_nil, h.bindings_eq hst, Query.restrict_solution hnames]
    rw [show found'.toList.map (Solution.restrict names) = found.toList from hrel]
  · simpa only [Search.handing, Query.takeAll, Bool.or_false] using hst

namespace Pairing.alike

variable {env : Env} {f : String → List Term → Option Term} {σ : Scope} {s t : State} {n : Nat}

/-- A query is simulated by the one that also prints, its solutions by those that say more. -/
theorem simulates_evalQueryBy_printing (hsteady : env.Steady f .any) (hprints : env.Prints σ) (before after : Body)
    (args : List Term) :
    (alike env f .any).coupling.Simulates σ True (Query.Restricting (Query.vars (before ++ after)))
      (env.evalQueryBy (env.idealTo n) (before ++ after) Query.takeAll)
      fun _ => env.evalQueryBy (env.idealTo n) (before ++ Expr.printing args :: after) Query.takeAll := by
  have hlaw : (alike env f .any).coupling.Lawful := (lawful hsteady).coupling
  have hnames : (Query.vars (before ++ Expr.printing args :: after)).filter
      (fun x => (Query.vars (before ++ after)).contains x) = Query.vars (before ++ after) := by
    refine Query.filter_vars fun x hx => ?_
    simp only [List.flatMap_append, List.flatMap_cons, List.mem_append] at hx ⊢
    exact hx.imp_right .inr
  refine (Coupling.computes_enterQuery hlaw).after hlaw fun depth depth' =>
    Coupling.Simulates.guard ?_ fun _ => trivial
  rw [env.evalBody_append, env.evalBody_append]
  refine simulates_evalBody hsteady (Vocabulary.body_any env before) ?_
  refine simulates_printing hsteady hprints args (simulates_evalBody hsteady (Vocabulary.body_any env after) ?_)
  exact ((hlaw.emit σ .exit depth depth' _).guard fun _ => trivial).after hlaw fun _ _ =>
    Coupling.simulates_takeAll hlaw hnames

/-- With ideal rules a query that prints has the solutions of the query without that, unless it fails. -/
theorem evalQuery_printing (hsteady : env.Steady f .any) (hprints : env.Prints σ) (before after : Body)
    (args : List Term) (h : Alike env f .any σ s t) {flow flow' : Flow}
    (hs : (env.evalQueryBy (env.idealTo n) (before ++ after) Query.takeAll #[] s).outcome = .ok flow)
    (ht : (env.evalQueryBy (env.idealTo n) (before ++ Expr.printing args :: after) Query.takeAll #[] t).outcome =
      .ok flow') :
    Query.Restricting (Query.vars (before ++ after))
      (env.evalQueryBy (env.idealTo n) (before ++ after) Query.takeAll #[] s).found
      (env.evalQueryBy (env.idealTo n) (before ++ Expr.printing args :: after) Query.takeAll #[] t).found := by
  obtain ⟨r', hr', hmatch⟩ := (simulates_evalQueryBy_printing hsteady hprints before after args).2 trivial σ rfl #[] #[]
    s t rfl h ⟨fun _ he => Except.absurd_error hs he, trivial⟩ trivial
  have hr' : env.evalQueryBy (env.idealTo n) (before ++ Expr.printing args :: after) Query.takeAll #[] t = r' :=
    Filter.eventually_top.1 hr' ()
  rw [hr'] at ht ⊢
  rcases hmatch with ⟨_, ⟨hrel, _⟩, _⟩ | ⟨e, he, _⟩
  · exact hrel
  · cases he.symm.trans ht

end Pairing.alike

section Queries

variable {env : Env} {f : String → List Term → Option Term} {s : State}

/-- The solutions of a query are those with ideal rules, given the answers of built-ins at its end. -/
theorem Env.evalQuery_ideal (hreg : env.registry.Regular) (hdistinct : env.policy.Distinct) (hf : env.Fixed f)
    (hcalm : s.Calm env) (hmemo : s.memo = []) (hscope : s.scope.id ≤ s.lastScope)
    (hanswers : BuiltinAnswer.By f s.answers) {body : Body} {flow : Flow}
    (hok : (env.evalQuery body Query.takeAll #[] s).outcome = .ok flow) :
    ∃ answers, BuiltinAnswer.By f answers ∧ ∀ᶠ n in Filter.atTop,
      (env.evalQueryBy (env.idealTo n) body Query.takeAll #[] { s with answers := answers }).outcome = .ok flow ∧
      (env.evalQueryBy (env.idealTo n) body Query.takeAll #[] { s with answers := answers }).found =
        (env.evalQuery body Query.takeAll #[] s).found := by
  have hdeliver : ∀ solution found, (Query.takeAll solution found).1.cancel = false := fun _ _ => rfl
  have hby : BuiltinAnswer.By f (env.evalQuery body Query.takeAll #[] s).state.answers :=
    hf.by_search hanswers rfl trivial fun hlaw => Coupling.simulates_evalQueryBy hlaw
      (Coupling.framing.rulesAnswer hlaw (env.policy.ruleSets.length + 1)) body
      (fun _ => Vocabulary.body_any env body) hdeliver
  have hsim : ∀ answers w, (Pairing.toIdeal env answers).coupling.Simulates w True { rel := Eq }
      (env.evalQuery body Query.takeAll) fun n => env.evalQueryBy (env.idealTo n) body Query.takeAll :=
    fun _ _ => Coupling.simulates_evalQueryBy (Pairing.toIdeal.lawful hreg).coupling
      (Pairing.toIdeal.rulesAnswer_rulesTo hdistinct hreg _) body (fun _ => Vocabulary.body_any env body) hdeliver
  obtain ⟨r', hout, hfound, hev⟩ := Pairing.toIdeal.of_search hsim hcalm (.of_empty hmemo hscope) rfl trivial hok
  refine ⟨_, hby, hev.mono fun n hn => ?_⟩
  rw [show env.evalQueryBy (env.idealTo n) body Query.takeAll #[] _ = r' from hn]
  exact ⟨hout, hfound.symm⟩

/-- A query that prints has the solutions of the query without that, in the same order, unless one of them fails. -/
theorem Env.evalQuery_printing {modules : List Module} (hcompile : Policy.compile modules = .ok env.policy)
    (hreg : env.registry.Regular) (hf : env.Fixed f) (hprints : env.Prints s.scope) (hcalm : s.Calm env)
    (hmemo : s.memo = []) (hscope : s.scope.id ≤ s.lastScope) (hanswers : BuiltinAnswer.By f s.answers)
    (before after : Body) (args : List Term) {flow flow' : Flow}
    (hok : (env.evalQuery (before ++ after) Query.takeAll #[] s).outcome = .ok flow)
    (hok' : (env.evalQuery (before ++ Expr.printing args :: after) Query.takeAll #[] s).outcome = .ok flow') :
    Query.Restricting (Query.vars (before ++ after)) (env.evalQuery (before ++ after) Query.takeAll #[] s).found
      (env.evalQuery (before ++ Expr.printing args :: after) Query.takeAll #[] s).found := by
  have hdistinct := Policy.distinct_of_compile hcompile
  obtain ⟨answers, hby, hev⟩ := Env.evalQuery_ideal hreg hdistinct hf hcalm hmemo hscope hanswers hok
  obtain ⟨answers', hby', hev'⟩ := Env.evalQuery_ideal hreg hdistinct hf hcalm hmemo hscope hanswers hok'
  obtain ⟨n, ⟨hout, hfound⟩, hout', hfound'⟩ := (hev.and hev').exists
  have hcalm : ∀ answers, { s with answers := answers }.Calm env := fun _ => ⟨hcalm.1, hcalm.2⟩
  have halike : Pairing.Alike env f .any s.scope { s with answers := answers } { s with answers := answers' } :=
    ⟨rfl, Vocabulary.bindings_any _, Vocabulary.scope_any _, .refl _, .refl _, hcalm _, hcalm _, hby, hby'⟩
  rw [← hfound, ← hfound']
  exact Pairing.alike.evalQuery_printing (Env.steady_any hreg hf) hprints before after args halike hout hout'

end Queries

/-- Where printing stands in the body of a query makes no difference to its solutions: if the query has solutions with
it and without it, they are the same in the same order, but for the variables that occur only in what is printed. -/
theorem Engine.evalQuery_printing {e : Engine} {f : String → List Term → Option Term} (hcompiled : e.Compiled)
    (hunlimited : e.Unlimited) (hreg : e.registry.Regular) (hprint : e.registry.get? "print" = some .printer)
    (hf : ∀ policy txn, (e.env policy txn).Fixed f) (before after : Body) (args : List Term)
    {solutions solutions' : List Solution} (h : (e.evalQuery (before ++ after)).1.result = .ok solutions)
    (h' : (e.evalQuery (before ++ Expr.printing args :: after)).1.result = .ok solutions') :
    solutions'.map (Solution.restrict (Query.vars (before ++ after))) = solutions := by
  have hquery : ∀ body, (e.evalQuery body).1.result =
      let result := (e.run none (fun err => (.error err, #[])) fun env s =>
        let r := env.evalQuery body Query.takeAll #[] s
        ((r.outcome.map fun _ => (), r.found), r.state)).1.result
      result.1.map fun _ => result.2.toList := fun _ => rfl
  rw [hquery] at h h'
  cases hpolicy : Policy.compile e.modules with
  | error cause =>
    rcases e.run_cases hcompiled with ⟨err, hrun⟩ | ⟨policy, _, _, hok, _⟩
    · rw [hrun _ e.options] at h
      cases h
    · cases hpolicy.symm.trans hok
  | ok policy =>
    rw [e.run_compiled hcompiled hpolicy] at h h'
    obtain ⟨_, hmap, rfl⟩ := Except.map_eq_ok h
    obtain ⟨_, hmap', rfl⟩ := Except.map_eq_ok h'
    obtain ⟨flow, hout, _⟩ := Except.map_eq_ok hmap
    obtain ⟨flow', hout', _⟩ := Except.map_eq_ok hmap'
    exact Env.evalQuery_printing hpolicy hreg (hf policy _) ⟨hprint, rfl⟩ (hunlimited.calm_start policy _ _) rfl
      (Nat.le_refl 0) (List.forall_mem_nil _) before after args hout hout'

end PolicyEngine
