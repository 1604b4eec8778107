import PolicyEngine.Proofs.Recollection

/-!
Policies that differ in the rules of some documents. Where every rule set of one policy stands in the place of one of
another, with the same path and kind, evaluation against the first is evaluation against the second with other meanings
of its rule sets: nothing else of a policy is looked at.
-/
namespace PolicyEngine

/-- What stands in the place of a rule set defines the same kind of document at the same path. Functions stand for
themselves. -/
structure RuleSet.Stands (stand : RuleSet → RuleSet) : Prop where
  path : ∀ rs, (stand rs).path = rs.path
  kind : ∀ rs, (stand rs).kind = rs.kind
  function : ∀ rs, rs.kind = .function → stand rs = rs

/-- The policy in which other rule sets stand in the places of its own. -/
def Policy.standing (stand : RuleSet → RuleSet) (policy : Policy) : Policy := ⟨policy.ruleSets.map stand⟩

def Env.standing (stand : RuleSet → RuleSet) (env : Env) : Env := { env with policy := env.policy.standing stand }

/-- The meaning of rules where documents are those of the rule sets in their places. -/
def RuleSemantics.via (stand : RuleSet → RuleSet) (rules : RuleSemantics) : RuleSemantics where
  document rs := rules.document (stand rs)
  function := rules.function

/-! ## Rule sets by path -/

namespace Policy

variable {stand : RuleSet → RuleSet} (h : RuleSet.Stands stand) (policy : Policy) (path : DataPath)
include h

theorem ruleSet?_standing : (policy.standing stand).ruleSet? path = (policy.ruleSet? path).map stand := by
  simp only [ruleSet?, standing, List.find?_map]
  congr 2
  funext rs
  simp [h.path]

theorem covering?_standing : (policy.standing stand).covering? path = (policy.covering? path).map stand := by
  have hupTo : ∀ n, coveringUpTo path (policy.standing stand) n = (coveringUpTo path policy n).map stand := by
    intro n
    induction n with
    | zero => exact ruleSet?_standing h policy []
    | succ n ih =>
      simp only [coveringUpTo, ruleSet?_standing h, ih]
      cases policy.ruleSet? (path.take (n + 1)) <;> rfl
  exact hupTo path.length

theorem below_standing : (policy.standing stand).below path = (policy.below path).map stand := by
  have hlt : (fun rs : RuleSet => (compare rs.path path).isLT) ∘ stand = fun rs => (compare rs.path path).isLT := by
    funext rs
    simp [h.path]
  have hbegins : (fun rs : RuleSet => path.isPrefixOf rs.path) ∘ stand = fun rs => path.isPrefixOf rs.path := by
    funext rs
    simp [h.path]
  have hlonger : (fun rs : RuleSet => decide (path.length < rs.path.length)) ∘ stand =
      fun rs => decide (path.length < rs.path.length) := by
    funext rs
    simp [h.path]
  simp only [below, standing, List.dropWhile_map, List.takeWhile_map, List.filter_map, hlt, hbegins, hlonger]

theorem overlaps_standing : (policy.standing stand).overlaps path = policy.overlaps path := by
  simp only [overlaps, hasBelow_eq, covering?_standing h, below_standing h, Option.isSome_map, List.isEmpty_map]

end Policy

/-! ## Documents and calls -/

namespace Env

section Leaves

variable {stand : RuleSet → RuleSet} (h : RuleSet.Stands stand) (env : Env) (rules : RuleSemantics)
include h

theorem layRules_via (path : DataPath) (sets : List RuleSet) (doc : Term) :
    layRules rules path (sets.map stand) doc = layRules (rules.via stand) path sets doc := by
  induction sets generalizing doc with
  | nil => rfl
  | cons rs rest ih => simp only [List.map_cons, layRules, h.kind, h.path, ih, RuleSemantics.via]

theorem baseDocument_standing (path : DataPath) :
    (env.standing stand).baseDocument rules path = env.baseDocument (rules.via stand) path := by
  have hpolicy : (env.standing stand).policy = env.policy.standing stand := rfl
  simp only [baseDocument, hpolicy, Policy.covering?_standing h, Policy.below_standing h]
  cases env.policy.covering? path with
  | some rs => simp only [Option.map_some, h.path, RuleSemantics.via]
  | none =>
    simp only [Option.map_none]
    refine congrArg (env.read (StorePath.ofKeys path) >>= ·) (funext fun stored => ?_)
    cases env.policy.below path with
    | nil => rfl
    | cons rs rest => simp only [← layRules_via h, List.map_cons]

theorem document_standing (path : DataPath) :
    (env.standing stand).document rules path = env.document (rules.via stand) path := by
  simp only [document, baseDocument_standing h]

theorem arrive_standing (c : Cursor) : (env.standing stand).arrive rules c = env.arrive (rules.via stand) c := by
  cases c with
  | value v => rfl
  | child parent segment key => rfl
  | data path => exact document_standing h env rules path

theorem settle_standing (operand : Term) (c : Cursor) :
    (env.standing stand).settle rules operand c = env.settle (rules.via stand) operand c := by
  have hpolicy : (env.standing stand).policy = env.policy.standing stand := rfl
  cases c with
  | value v => rfl
  | child parent segment key => rfl
  | data path =>
    simp only [settle, document_standing h, hpolicy, Policy.overlaps_standing h, Policy.ruleSet?_standing h,
      Option.isSome_map]

theorem ruleFunction?_standing (name : String) : (env.standing stand).ruleFunction? name = env.ruleFunction? name := by
  have hpolicy : (env.standing stand).policy = env.policy.standing stand := rfl
  simp only [ruleFunction?, hpolicy]
  cases DataPath.parse? name with
  | none => rfl
  | some path =>
    simp only [Option.bind_some, Policy.ruleSet?_standing h]
    cases env.policy.ruleSet? path with
    | none => rfl
    | some rs =>
      by_cases hkind : rs.kind = .function
      · rw [Option.map_some, h.function rs hkind]
      · simp [Option.filter, h.kind, hkind]

theorem function?_standing (name : String) : (env.standing stand).function? name = env.function? name := by
  simp only [function?, ruleFunction?_standing h]
  rfl

theorem resolveFunction_standing (name : String) :
    (env.standing stand).resolveFunction name = env.resolveFunction name := by
  simp only [resolveFunction, function, function?_standing h]

theorem overrideTarget_standing (target : Term) :
    (env.standing stand).overrideTarget target = env.overrideTarget target := by
  have hpolicy : (env.standing stand).policy = env.policy.standing stand := rfl
  have hregistry : (env.standing stand).registry = env.registry := rfl
  simp only [overrideTarget, hpolicy, hregistry, Policy.ruleSet?_standing h, Option.any_map, h.kind]

theorem mockedBy?_standing (target : OverrideTarget) (replacement : Term) :
    (env.standing stand).mockedBy? target replacement = env.mockedBy? target replacement := by
  simp only [mockedBy?, function?_standing h]

end Leaves

theorem apply_standing (stand : RuleSet → RuleSet) (env : Env) (rules : RuleSemantics) (callee : Callee)
    (args : List Term) : (env.standing stand).apply rules callee args = env.apply (rules.via stand) callee args := by
  cases callee <;> rfl

/-! ## Searches -/

section Searches

variable {stand : RuleSet → RuleSet} (env : Env) (rules : RuleSemantics)

/-- A term has the same values, holds in the same environments and generates the same ones. Calls do the last two in
ways of their own. -/
structure TermStands (stand : RuleSet → RuleSet) (t : Term) : Prop where
  values : ∀ {α : Type} (k : Term → Search α),
    (env.standing stand).evalTerm rules t k = env.evalTerm (rules.via stand) t k
  holds : ∀ {α : Type} (k : Search α),
    (env.standing stand).evalKind rules (.term t) k = env.evalKind (rules.via stand) (.term t) k
  generates : ∀ {α : Type} (k : Search α),
    (env.standing stand).evalKind rules (.someDecl [t]) k = env.evalKind (rules.via stand) (.someDecl [t]) k

variable {env rules}

theorem TermStands.search {t : Term} (ht : TermStands env rules stand t) (α : Type) :
    (env.standing stand).evalTerm (α := α) rules t = env.evalTerm (rules.via stand) t :=
  funext ht.values

theorem TermStands.of_not_call {t : Term} (ht : ∀ operator arguments, t ≠ .call operator arguments)
    (hvalues : ∀ {α : Type} (k : Term → Search α),
      (env.standing stand).evalTerm rules t k = env.evalTerm (rules.via stand) t k) : TermStands env rules stand t := by
  cases t with
  | call operator arguments => exact absurd rfl (ht operator arguments)
  | _ => exact ⟨hvalues, fun k => by simp only [evalKind, hvalues], fun k => by simp only [evalKind]⟩

theorem TermStands.of_call (h : RuleSet.Stands stand) {operator : Term} {arguments : List Term}
    (hterms : ∀ t ∈ arguments, TermStands env rules stand t)
    (hcall : ∀ {α : Type} (callee : Callee) (output : Option Nat) (k : Term → Search α) (done : Search α),
      (env.standing stand).evalCall rules callee output arguments [] k done =
        env.evalCall (rules.via stand) callee output arguments [] k done) :
    TermStands env rules stand (.call operator arguments) := by
  refine ⟨fun k => ?_, fun k => ?_, fun k => ?_⟩
  · simp only [evalTerm, resolveFunction_standing h, hcall]
  · simp only [Coupling.evalKind_call, resolveFunction_standing h]
    split
    · rfl
    · split
      · next x y _ =>
        simp only [List.forall_mem_cons] at hterms
        simp only [hterms.1.values, hterms.2.1.values]
      · simp only [hcall]
  · simp only [Coupling.evalKind_generator]
    split
    · next value domain _ =>
      simp only [List.forall_mem_cons] at hterms
      rw [hterms.2.1.values]
      rfl
    · next key value domain _ =>
      simp only [List.forall_mem_cons] at hterms
      rw [hterms.2.2.1.values]
      rfl
    · rfl

/-- Symbols that are not a generator are hidden, whatever the policy is. -/
theorem evalKind_symbols {symbols : List Term} (hsymbols : ∀ operator arguments, symbols ≠ [.call operator arguments])
    (k : Search α) :
    (env.standing stand).evalKind rules (.someDecl symbols) k = env.evalKind (rules.via stand) (.someDecl symbols) k := by
  rw [evalKind, evalKind]
  all_goals
    rintro operator arguments rfl
    exact hsymbols operator arguments rfl

-- by recursion on the text, as the searches themselves
mutual
theorem termStands (h : RuleSet.Stands stand) : ∀ t : Term, TermStands env rules stand t
  | .var name => .of_not_call nofun fun k => by simp only [evalTerm, arrive_standing h]
  | .ref head operands => .of_not_call nofun fun k => by
    simp only [evalTerm, (termStands h head).values, walk_standing h operands]
  | .call operator arguments => .of_call h (termStands_all h arguments) fun callee output k done =>
    evalCall_standing h arguments callee output [] k done
  | .arrayCompr term body => .of_not_call nofun fun k => by
    simp only [evalTerm, evalBody_standing h body, (termStands h term).values]
  | .setCompr term body => .of_not_call nofun fun k => by
    simp only [evalTerm, evalBody_standing h body, (termStands h term).values]
  | .objectCompr key value body => .of_not_call nofun fun k => by
    simp only [evalTerm, evalBody_standing h body, (termStands h key).values, (termStands h value).values]
  | .array items => .of_not_call nofun fun k => by simp only [evalTerm, evalTerms_standing h items]
  | .set members => .of_not_call nofun fun k => by simp only [evalTerm, evalTerms_standing h members]
  | .object fields => .of_not_call nofun fun k => by simp only [evalTerm, evalFields_standing h fields]
  | .null => .of_not_call nofun fun k => by simp only [evalTerm]
  | .bool _ => .of_not_call nofun fun k => by simp only [evalTerm]
  | .number _ => .of_not_call nofun fun k => by simp only [evalTerm]
  | .string _ => .of_not_call nofun fun k => by simp only [evalTerm]
theorem termStands_all (h : RuleSet.Stands stand) : ∀ ts : List Term, ∀ t ∈ ts, TermStands env rules stand t
  | [] => nofun
  | t :: rest => List.forall_mem_cons.2 ⟨termStands h t, termStands_all h rest⟩
theorem evalTerms_standing (h : RuleSet.Stands stand) : ∀ {α : Type} (ts : List Term) (k : List Term → Search α),
    (env.standing stand).evalTerms rules ts k = env.evalTerms (rules.via stand) ts k
  | _, [], k => by simp only [evalTerms]
  | _, t :: rest, k => by simp only [evalTerms, (termStands h t).values, evalTerms_standing h rest]
theorem evalFields_standing (h : RuleSet.Stands stand) : ∀ {α : Type} (fs : List (Term × Term)) (k : List (Term × Term) → Search α),
    (env.standing stand).evalFields rules fs k = env.evalFields (rules.via stand) fs k
  | _, [], k => by simp only [evalFields]
  | _, (key, value) :: rest, k => by
    simp only [evalFields, (termStands h key).values, (termStands h value).values, evalFields_standing h rest]
theorem walk_standing (h : RuleSet.Stands stand) : ∀ {α : Type} (operands : List Term) (c : Cursor) (k : Term → Search α),
    (env.standing stand).walk rules c operands k = env.walk (rules.via stand) c operands k
  | _, [], c, k => by simp only [walk, arrive_standing h]
  | _, operand :: rest, c, k => by
    have hsteps : (env.standing stand).checkpoint = env.checkpoint ∧ (env.standing stand).read = env.read ∧
      (env.standing stand).listKeys = env.listKeys := ⟨rfl, rfl, rfl⟩
    simp only [walk, settle_standing h, (termStands h operand).values, walk_standing h rest, hsteps]
theorem evalCall_standing (h : RuleSet.Stands stand) : ∀ {α : Type} (arguments : List Term) (callee : Callee) (output : Option Nat)
    (operands : List Term) (k : Term → Search α) (done : Search α),
    (env.standing stand).evalCall rules callee output arguments operands k done =
      env.evalCall (rules.via stand) callee output arguments operands k done
  | _, [], callee, output, operands, k, done => by simp only [evalCall, apply_standing]
  | _, t :: rest, callee, output, operands, k, done => by
    simp only [evalCall, apply_standing, (termStands h t).values, evalCall_standing h rest]
theorem evalKind_standing (h : RuleSet.Stands stand) : ∀ {α : Type} (kind : ExprKind) (k : Search α),
    (env.standing stand).evalKind rules kind k = env.evalKind (rules.via stand) kind k
  | _, .term t, k => (termStands h t).holds k
  | _, .someDecl [t], k => (termStands h t).generates k
  | _, .someDecl [], k => evalKind_symbols (by simp) k
  | _, .someDecl (_ :: _ :: _), k => evalKind_symbols (by simp) k
  | _, .every key value domain body, k => by
    have hsteps : (env.standing stand).checkpoint = env.checkpoint := rfl
    simp only [evalKind, (termStands h domain).search, evalBody_standing h body, hsteps]
theorem evalOverrides_standing (h : RuleSet.Stands stand) : ∀ (overrides : List (Term × Term)) (scope : Scope),
    (env.standing stand).evalOverrides rules overrides scope = env.evalOverrides (rules.via stand) overrides scope
  | [], scope => by simp only [evalOverrides]
  | (target, replacement) :: rest, scope => by
    simp only [evalOverrides, overrideTarget_standing h, mockedBy?_standing h, (termStands h replacement).search,
      evalOverrides_standing h rest]
theorem evalExpr_standing (h : RuleSet.Stands stand) : ∀ {α : Type} (e : Expr) (k : Search α),
    (env.standing stand).evalExpr rules e k = env.evalExpr (rules.via stand) e k
  | _, .mk kind negated overrides index, k => by
    have hsteps : (env.standing stand).checkpoint = env.checkpoint ∧ (env.standing stand).emit = env.emit := ⟨rfl, rfl⟩
    simp only [evalExpr, evalKind_standing h kind, evalOverrides_standing h overrides, hsteps]
theorem evalBody_standing (h : RuleSet.Stands stand) : ∀ {α : Type} (body : Body) (k : Search α),
    (env.standing stand).evalBody rules body k = env.evalBody (rules.via stand) body k
  | _, [], k => by simp only [evalBody]
  | _, e :: rest, k => by simp only [evalBody, evalExpr_standing h e, evalBody_standing h rest]
end

end Searches

/-! ## Rules -/

section Rules

variable {stand : RuleSet → RuleSet} (h : RuleSet.Stands stand) (env : Env) (rules : RuleSemantics) (rs : RuleSet)
include h

end Rules
end Env
end PolicyEngine
