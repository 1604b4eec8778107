import PolicyEngine.Proofs.References
import PolicyEngine.Proofs.Selection
import PolicyEngine.Proofs.Subsets

/-!
Expressions whose constraints do not hold. An index passes a rule over when a constraint of its body does not hold. Under
any overrides of documents, and unless functions stand in for the built-in tests, the expression that sets the constraint
goes on with nothing then: its operands do not unify, or the test fails.
-/
namespace PolicyEngine

open Term (Same)

/-! ## Terms that do not unify -/

theorem Term.isVar_of_isGround {t : Term} (h : t.isGround = true) : t.isVar = false := by
  cases t <;> first | rfl | cases h

theorem Term.not_anyNeedsEval {ts : List Term} (h : ∀ t ∈ ts, t.needsEval = false) : Term.anyNeedsEval ts = false := by
  induction ts with
  | nil => rfl
  | cons t rest ih =>
    rw [List.forall_mem_cons] at h
    rw [Term.anyNeedsEval, h.1, ih h.2]
    rfl

theorem Constraint.ground_of_isIndexValue {v : Term} (h : Constraint.isIndexValue v = true) :
    v.isGround = true ∧ v.needsEval = false := by
  cases v with
  | array items =>
    have hitems : ∀ t ∈ items, t.isGround = true ∧ t.needsEval = false :=
      fun t ht => Term.ground_of_isScalar (List.all_eq_true.1 h t ht)
    exact ⟨Term.hereditary_isGround.array.2 fun t ht => (hitems t ht).1,
      Term.not_anyNeedsEval fun t ht => (hitems t ht).2⟩
  | _ => exact Term.ground_of_isScalar h

namespace Bindings

variable {b b' : Bindings} {x y : Term} {n : Nat}

/-- A scalar and a term without variables unify if they are equal. -/
theorem same_of_unifyTo_scalar (hx : x.isGround = true) (hy : y.isGround = true)
    (hscalar : x.isScalar = true ∨ y.isScalar = true) (h : unifyTo n x y b = some b') : Same x y := by
  have hkind : x.isCollection = true → x.rank ≠ y.rank := by
    rcases hscalar with hs | hs
    · cases x <;> cases hs <;> simp [Term.isCollection]
    · cases y <;> cases hs <;> cases x <;> simp [Term.isCollection, Term.rank]
  have hvarx := Term.isVar_of_isGround hx
  have hvary := Term.isVar_of_isGround hy
  have hderefx : b.deref x = x := deref_of_not_isVar hvarx
  have hderefy : b.deref y = y := deref_of_not_isVar hvary
  cases n with
  | zero => cases h
  | succ n =>
    rw [unifyTo_others (hderefx.symm ▸ hvarx) (hderefy.symm ▸ hvary) (by rwa [hderefx, hderefy]), hderefx,
      hderefy] at h
    split at h
    · next hsame => exact hsame
    · cases h

/-- Lists unified pairwise, of which one has nothing but scalars, are equal. -/
theorem forall₂_of_unifyTo {xs ys : List Term} (hx : ∀ t ∈ xs, t.isGround = true) (hy : ∀ t ∈ ys, t.isGround = true)
    (hlength : xs.length = ys.length) (hscalar : (∀ t ∈ xs, t.isScalar = true) ∨ ∀ t ∈ ys, t.isScalar = true)
    (h : (xs.zip ys).foldlM (fun b p => unifyTo n p.1 p.2 b) b = some b') : List.Forall₂ Same xs ys := by
  induction xs generalizing ys b with
  | nil => cases ys <;> first | exact .nil | cases hlength
  | cons x rest ih =>
    cases ys with
    | nil => cases hlength
    | cons y rest' =>
      simp only [List.forall_mem_cons] at hx hy hscalar
      obtain ⟨b₁, hfirst, hrest⟩ := Option.bind_eq_some_iff.1 h
      refine .cons (same_of_unifyTo_scalar hx.1 hy.1 (hscalar.imp And.left And.left) hfirst) ?_
      exact ih hx.2 hy.2 (Nat.succ.inj hlength) (hscalar.imp And.right And.right) hrest

/-- A value of an index unifies with those terms without variables that are equal to it. -/
theorem same_of_unify (hx : x.isGround = true) (hy : y.isGround = true)
    (hvalue : Constraint.isIndexValue x = true ∨ Constraint.isIndexValue y = true) (h : b.unify x y = some b') :
    Same x y := by
  by_cases hscalar : x.isScalar = true ∨ y.isScalar = true
  · exact same_of_unifyTo_scalar hx hy hscalar h
  rw [not_or] at hscalar
  have hvarx := Term.isVar_of_isGround hx
  have hvary := Term.isVar_of_isGround hy
  have hderefx : b.deref x = x := deref_of_not_isVar hvarx
  have hderefy : b.deref y = y := deref_of_not_isVar hvary
  have harray : ∀ {t : Term}, Constraint.isIndexValue t = true → ¬t.isScalar = true →
      ∃ items, t = .array items ∧ ∀ i ∈ items, i.isScalar = true := by
    intro t ht hns
    cases t with
    | array items => exact ⟨items, rfl, List.all_eq_true.1 ht⟩
    | _ => exact absurd ht hns
  rw [unify] at h
  generalize x.size + y.size + b.size = n at h
  cases n with
  | zero => cases h
  | succ n =>
    by_cases harrays : ∃ xs ys, x = .array xs ∧ y = .array ys
    · obtain ⟨xs, ys, rfl, rfl⟩ := harrays
      rw [unifyTo_arrays hderefx hderefy] at h
      split at h
      · next hlength =>
        refine Term.same_array.2 (forall₂_of_unifyTo (Term.hereditary_isGround.array.1 hx)
          (Term.hereditary_isGround.array.1 hy) (by simpa using hlength) ?_ h)
        exact hvalue.imp List.all_eq_true.1 List.all_eq_true.1
      · cases h
    · have hkind : x.isCollection = true → x.rank ≠ y.rank := by
        rcases hvalue with hv | hv
        · obtain ⟨xs, rfl, -⟩ := harray hv hscalar.1
          cases y <;> first | exact absurd ⟨_, _, rfl, rfl⟩ harrays | simp [Term.rank]
        · obtain ⟨ys, rfl, -⟩ := harray hv hscalar.2
          cases x <;> first | exact absurd ⟨_, _, rfl, rfl⟩ harrays | simp [Term.rank]
      rw [unifyTo_others (hderefx.symm ▸ hvarx) (hderefy.symm ▸ hvary) (by rwa [hderefx, hderefy]), hderefx,
        hderefy] at h
      split at h
      · next hsame => exact hsame
      · cases h

end Bindings

/-! ## Expressions that never go on -/

namespace Search

/-- From a state a search ends without a solution or with an error, whatever it was to go on with. -/
def Barren (search : Search α → Search α) (s : State) : Prop :=
  ∃ s', (∀ k found, search k found s = exhausted found s') ∨ ∃ e, ∀ k found, search k found s = raise e found s'

variable {s : State}

theorem Barren.of_eq {search search' : Search α → Search α} {s' : State} (h : Barren search' s')
    (heq : ∀ k found, search k found s = search' k found s') : Barren search s := by
  obtain ⟨s'', hend | ⟨e, hend⟩⟩ := h
  · exact ⟨s'', .inl fun k found => (heq k found).trans (hend k found)⟩
  · exact ⟨s'', .inr ⟨e, fun k found => (heq k found).trans (hend k found)⟩⟩

theorem Barren.after {m : Eval β} {next : β → Search α → Search α}
    (h : ∀ b s', m.run s = (.ok b, s') → Barren (next b) s') :
    Barren (fun k => Search.after m fun b => next b k) s := by
  rcases hrun : m.run s with ⟨e | b, s'⟩
  · refine ⟨s', .inr ⟨e, fun k found => ?_⟩⟩
    simp only [Search.after, hrun]
    rfl
  · refine (h b s' hrun).of_eq fun k found => ?_
    simp only [Search.after, hrun]

/-- A search that passes on one value at most is barren if what follows is for that value. -/
theorem Passes.barren {m : (Term → Search α) → Search α} {r : Except EvalError (Option Term)} (h : Passes m s r)
    (next : Term → Search α → Search α) (hnext : ∀ v s', r = .ok (some v) → Barren (next v) s') :
    Barren (fun k => m fun v => next v k) s := by
  obtain ⟨s', -, hrun⟩ := h
  rcases r with e | _ | v
  · exact ⟨s', .inr ⟨e, fun k found => hrun _ found⟩⟩
  · exact ⟨s', .inl fun k found => hrun _ found⟩
  · exact (hnext v s' rfl).of_eq fun k found => hrun _ found

theorem barren_unifying {x y : Term} (h : s.bindings.unify x y = none) : Barren (α := α) (unifying x y) s := by
  refine ⟨s, .inl fun k found => ?_⟩
  have hnone : Bindings.unify x y s.bindings = none := h
  simp only [unifying, extending, hnone]
  rfl

/-- Where a search does not go on a computation follows, and does not go on either. -/
theorem Barren.orElse {search : Search (α × Bool) → Search (α × Bool)} (h : Barren search s)
    (otherwise : Eval Unit) : Barren (fun k => Search.orElse (search (noting k)) otherwise) s := by
  obtain ⟨s', hend | ⟨e, hend⟩⟩ := h
  · rcases hrun : otherwise.run s' with ⟨e | _, s''⟩
    · refine ⟨s'', .inr ⟨e, fun k found => ?_⟩⟩
      simp only [Search.orElse, hend, exhausted, hrun]
      rfl
    · refine ⟨s'', .inl fun k found => ?_⟩
      simp only [Search.orElse, hend, exhausted, hrun]
  · refine ⟨s', .inr ⟨e, fun k found => ?_⟩⟩
    simp only [Search.orElse, hend, raise]

end Search

/-! ## Built-in tests -/

/-- The functions that constraints come from are the built-in ones, and under the overrides nothing stands in for
them. -/
structure Env.Tests (env : Env) (σ : Scope) : Prop where
  equal : env.registry.get? "equal" = some (.ofPure "equal" [.any, .any] .boolean (Builtin.comparison Ordering.isEq))
  member : env.registry.get? "internal.member_2" =
    some (.ofPure "internal.member_2" [.any, .any] .boolean Builtin.member2)
  equal_unmocked : (σ.functions.find? fun (n, _) => n == "equal") = none
  member_unmocked : (σ.functions.find? fun (n, _) => n == "internal.member_2") = none

namespace Env

variable {α : Type} (env : Env) (rules : RuleSemantics) {s : State} {σ : Scope} {name : String} {x y : Term}

/-- A built-in function of two operands. -/
def twofold (name : String) (run : List Term → BuiltinResult) : Builtin := .ofPure name [.any, .any] .boolean run

theorem run_resolveFunction_builtin {run : List Term → BuiltinResult} (hpath : DataPath.parse? name = none)
    (hget : env.registry.get? name = some (twofold name run))
    (hunmocked : (s.scope.functions.find? fun (n, _) => n == name) = none) :
    (env.resolveFunction name).run s = (.ok (.builtin (twofold name run), some 2), s) := by
  have hrule : env.ruleFunction? name = none := by
    rw [ruleFunction?, hpath]
    rfl
  have hfunction : env.function name = .ok (.builtin (twofold name run), some 2) := by
    rw [function, function?, hrule, hget]
    rfl
  rw [resolveFunction, hfunction]
  simp only [Eval.run_bind, Eval.run_ofExcept, Eval.run_get, hunmocked]
  rfl

theorem run_twofold {run : List Term → BuiltinResult} {answer : Option Term} (hx : x.isGround = true)
    (hy : y.isGround = true) (hanswer : run [x, y] = .ok answer) (s : State) :
    (env.callBuiltin (twofold name run) [x, y]).run s = (.ok answer, s) := by
  have href : refusal? (twofold name run) [x, y] = none := by
    simp only [refusal?, List.all_cons, List.all_nil, hx, hy]
    rfl
  rw [run_callBuiltin, href]
  show (env.runBuiltin _ _).run s = _
  rw [run_runBuiltin]
  simp only [Builtin.invoke, twofold, Builtin.ofPure, hanswer]
  rfl

/-- What follows the operands of a test. -/
def testing (b : Builtin) (x y : Term) (k : Search α) : Search α :=
  Search.afterSome (env.callBuiltin b [x, y]) fun result => if result == .bool false then Search.exhausted else k

theorem evalKind_test {operator : Term} {run : List Term → BuiltinResult} (hop : operator.refName? = some name)
    (hname : (name == "eq" || name == "assign") = false)
    (hrun : (env.resolveFunction name).run s = (.ok (.builtin (twofold name run), some 2), s)) (k : Search α)
    (found : α) :
    env.evalKind rules (.term (.call operator [x, y])) k found s =
      env.evalTerm rules x (fun x => env.evalTerm rules y fun y => env.testing (twofold name run) x y k) found s := by
  have hcall : env.evalKind rules (.term (.call operator [x, y])) k found s =
      Search.after (env.resolveFunction name) (fun called =>
        env.evalCall rules called.1 (outputPosition called.2 2) [x, y] []
          (fun result => if result == .bool false then Search.exhausted else k) k) found s := by
    rw [evalKind, hop]
    simp only [hname]
    rfl
  rw [hcall, Search.after_ok hrun]
  simp only [evalCall]
  rfl

theorem evalKind_eq {operator : Term} (hop : operator.refName? = some "eq") (k : Search α) :
    env.evalKind rules (.term (.call operator [x, y])) k =
      env.evalTerm rules x fun x => env.evalTerm rules y fun y => Search.unifying x y k := by
  rw [evalKind, hop]
  rfl

variable {env}

theorem barren_testing {run : List Term → BuiltinResult} (hx : x.isGround = true)
    (hy : y.isGround = true) (hanswer : run [x, y] = .ok (some (.bool false))) (s : State) :
    Search.Barren (α := α) (env.testing (twofold name run) x y) s := by
  refine ⟨s, .inl fun k found => ?_⟩
  have hfalse : (Term.bool false == .bool false) = true := by decide +kernel
  simp only [testing, Search.afterSome, Search.after, env.run_twofold hx hy hanswer, hfalse]
  rfl

end Env

/-! ## Constraints that do not hold -/

theorem Expr.call?_eq_some {e : Expr} {name : String} {args : List Term} (h : e.call? = some (name, args)) :
    ∃ operator, e.kind = .term (.call operator args) ∧ operator.refName? = some name := by
  unfold Expr.call? at h
  split at h
  · next operator _ hkind =>
    obtain ⟨_, hname, hpair⟩ := Option.map_eq_some_iff.1 h
    cases hpair
    exact ⟨operator, hkind, hname⟩
  · cases h

namespace Constraint

variable {overlaps : DataPath → Bool} {e : Expr} {c : Constraint}

/-- An equality is set on one of two operands. -/
theorem equals_cases {x y : Term}
    (h : (if isIndexRef overlaps x && isIndexValue y then some (Constraint.equals x y)
      else if isIndexRef overlaps y && isIndexValue x then some (Constraint.equals y x) else none) = some c) :
    isIndexRef overlaps x = true ∧ isIndexValue y = true ∧ c = .equals x y ∨
      isIndexRef overlaps y = true ∧ isIndexValue x = true ∧ c = .equals y x := by
  split at h
  · next hxy =>
    cases h
    rw [Bool.and_eq_true] at hxy
    exact .inl ⟨hxy.1, hxy.2, rfl⟩
  · split at h
    · next hyx =>
      cases h
      rw [Bool.and_eq_true] at hyx
      exact .inr ⟨hyx.1, hyx.2, rfl⟩
    · cases h

/-- A constraint is set by a plain call of two operands, one of which is a reference and the other a value. -/
theorem ofExpr?_eq_some (h : ofExpr? overlaps e = some c) :
    ∃ operator x y index, e = .mk (.term (.call operator [x, y])) false [] index ∧
      ((operator.refName? = some "eq" ∨ operator.refName? = some "equal") ∧
          (isIndexRef overlaps x = true ∧ isIndexValue y = true ∧ c = .equals x y ∨
            isIndexRef overlaps y = true ∧ isIndexValue x = true ∧ c = .equals y x) ∨
        operator.refName? = some "internal.member_2" ∧ x.isScalar = true ∧ isIndexRef overlaps y = true ∧
          c = .member y x) := by
  obtain ⟨kind, negated, overrides, index⟩ := e
  rw [ofExpr?] at h
  split at h
  · cases h
  · next hplain =>
    obtain ⟨rfl, rfl⟩ : negated = false ∧ overrides = [] := by
      simpa [Expr.negated, Expr.overrides] using hplain
    split at h
    · next x y heq =>
      obtain ⟨operator, rfl, hname⟩ := Expr.call?_eq_some heq
      exact ⟨operator, x, y, index, rfl, .inl ⟨.inl hname, equals_cases h⟩⟩
    · next x y heq =>
      obtain ⟨operator, rfl, hname⟩ := Expr.call?_eq_some heq
      exact ⟨operator, x, y, index, rfl, .inl ⟨.inr hname, equals_cases h⟩⟩
    · next x y heq =>
      obtain ⟨operator, rfl, hname⟩ := Expr.call?_eq_some heq
      split at h
      · next hxy =>
        cases h
        rw [Bool.and_eq_true] at hxy
        exact ⟨operator, x, y, index, rfl, .inr ⟨hname, hxy.1, hxy.2, rfl⟩⟩
      · cases h
    · cases h

end Constraint

/-- A member that is found is a member. -/
theorem Builtin.exists_of_isMember {x xs : Term} (h : isMember x xs = true) : ∃ m ∈ xs.contents, Same m x := by
  cases xs with
  | array items => exact List.any_eq_true.1 h
  | set members =>
    obtain ⟨m, hm⟩ := Option.isSome_iff_exists.1 h
    exact ⟨m, (Builtin.same_of_findMember? hm).1, (Builtin.same_of_findMember? hm).2.symm⟩
  | object fields =>
    obtain ⟨f, hf, hsame⟩ := List.any_eq_true.1 h
    exact ⟨f.2, List.mem_map_of_mem hf, hsame⟩
  | _ => cases h

namespace Env

variable {α : Type} {env : Env} (rules : RuleSemantics) {operator x y : Term} {e : Expr} {c : Constraint} {s : State}

/-! ### Two operands -/

/-- An equation and a test of equality do the same first, and go on with nothing where a value of an index is asked for
and another one found. -/
theorem exists_comparing (htests : env.Tests s.scope)
    (hop : operator.refName? = some "eq" ∨ operator.refName? = some "equal") :
    ∃ compare : Term → Term → Search α → Search α,
      (∀ k found, env.evalKind rules (.term (.call operator [x, y])) k found s =
        env.evalTerm rules x (fun x => env.evalTerm rules y fun y => compare x y k) found s) ∧
      ∀ v w s', v.isGround = true → w.isGround = true →
        Constraint.isIndexValue v = true ∨ Constraint.isIndexValue w = true → ¬Same v w →
          Search.Barren (compare v w) s' := by
  rcases hop with hop | hop
  · refine ⟨Search.unifying, fun k found => by rw [env.evalKind_eq rules hop], fun v w s' hv hw hvalue hne => ?_⟩
    refine Search.barren_unifying (Option.eq_none_iff_forall_ne_some.2 fun b hb => hne ?_)
    exact Bindings.same_of_unify hv hw hvalue hb
  · have hrun := env.run_resolveFunction_builtin (by decide) htests.equal htests.equal_unmocked
    refine ⟨env.testing _, env.evalKind_test rules hop (by decide) hrun, fun v w s' hv hw _ hne => ?_⟩
    refine barren_testing hv hw ?_ s'
    have hdiffers : (v.cmp w).isEq = false := by
      rw [Bool.eq_false_iff]
      exact fun heq => hne (Term.beq_iff_cmp.2 (by simpa using heq))
    rw [Builtin.comparison, hdiffers]
    rfl

/-- A test of membership goes on with nothing where the collection has no such member. -/
theorem exists_seeking (htests : env.Tests s.scope) (hop : operator.refName? = some "internal.member_2") :
    ∃ seek : Term → Term → Search α → Search α,
      (∀ k found, env.evalKind rules (.term (.call operator [x, y])) k found s =
        env.evalTerm rules x (fun x => env.evalTerm rules y fun y => seek x y k) found s) ∧
      ∀ v w s', v.isGround = true → w.isGround = true → (∀ m ∈ w.contents, ¬Same m v) →
        Search.Barren (seek v w) s' := by
  have hrun := env.run_resolveFunction_builtin (by decide) htests.member htests.member_unmocked
  refine ⟨env.testing _, env.evalKind_test rules hop (by decide) hrun, fun v w s' hv hw hnone => ?_⟩
  refine barren_testing hv hw ?_ s'
  have hmember : Builtin.isMember v w = false := by
    rw [Bool.eq_false_iff]
    intro h
    obtain ⟨m, hm, hsame⟩ := Builtin.exists_of_isMember h
    exact hnone m hm hsame
  rw [Builtin.member2, hmember]
  rfl

/-! ### The expression -/

/-- The stored document is from JSON, and no variables are left in the others. -/
structure Legible (env : Env) (σ : Scope) : Prop where
  stored : env.root.IsJson
  input : ∀ doc, σ.input = some doc → doc.isGround = true
  data : ∀ o ∈ σ.data, o.2.isGround = true

/-- What constraints are evaluated under: documents that can be read, built-in tests, and no variables with the names of
documents. -/
structure Regular (env : Env) (s : State) : Prop where
  legible : env.Legible s.scope
  tests : env.Tests s.scope
  names : ∀ x, isRoot x = true → s.bindings.lookup x = none

theorem Regular.of_quiet {s' : State} (h : env.Regular s) (hquiet : s.Quiet s') : env.Regular s' := by
  have hscope : s'.scope = s.scope := congrArg Frame.scope hquiet.frame
  have hbindings : s'.bindings = s.bindings := congrArg Frame.bindings hquiet.frame
  exact ⟨hscope ▸ h.legible, hscope ▸ h.tests, hbindings ▸ h.names⟩

/-- Where a constraint does not hold, what its expression asks finds nothing. -/
theorem barren_evalKind (hsep : Policy.Separate env.policy.ruleSets) (hfailing : env.failing = [])
    (hregular : env.Regular s) (hc : Constraint.ofExpr? env.policy.overlaps e = some c)
    (hplain : c.reference.isPlainRef = true) (hfails : ¬c.Holds (env.plainValue s.scope)) :
    Search.Barren (α := α) (env.evalKind rules e.kind) s := by
  obtain ⟨hlegible, htests, hnames⟩ := hregular
  have hreference : ∀ {r : Term}, Constraint.isIndexRef env.policy.overlaps r = true → r.isPlainRef = true →
      ∃ found, Search.Passes (α := α) (env.evalTerm rules r) s found ∧ ∀ w, found = .ok (some w) →
        env.plainValue s.scope r = some w ∧ w.isGround = true := by
    intro r hr hplain
    obtain ⟨found, hpasses, hfound⟩ := passes_evalTerm (α := α) rules hsep hlegible.stored hfailing hr hplain hnames
    refine ⟨found, hpasses, fun w hw => ?_⟩
    have hvalue := hfound _ hw
    refine ⟨by rw [plainValue, if_pos hplain, hvalue]; rfl, ?_⟩
    exact valueUnder_inherits Term.hereditary_isGround hlegible.stored.isGround hlegible.input hlegible.data hvalue
  have heval : ∀ {v : Term}, Constraint.isIndexValue v = true → ∀ k : Term → Search α, env.evalTerm rules v k = k v :=
    fun hv k => env.evalTerm_ground rules (Constraint.ground_of_isIndexValue hv).1 (Constraint.ground_of_isIndexValue hv).2 k
  obtain ⟨operator, x, y, index, rfl, ⟨hop, ⟨hx, hy, rfl⟩ | ⟨hy, hx, rfl⟩⟩ | ⟨hop, hx, hy, rfl⟩⟩ :=
    Constraint.ofExpr?_eq_some hc
  · obtain ⟨compare, hrun, hcompare⟩ := exists_comparing (α := α) (x := x) (y := y) rules htests hop
    obtain ⟨found, hpasses, hfound⟩ := hreference hx hplain
    refine (hpasses.barren (fun w => compare w y) fun w s' hw => ?_).of_eq fun k found => ?_
    · exact hcompare w y s' (hfound w hw).2 (Constraint.ground_of_isIndexValue hy).1 (.inr hy)
        fun hsame => hfails ⟨w, (hfound w hw).1, hsame⟩
    · refine (hrun k found).trans ?_
      simp only [heval hy]
  · obtain ⟨compare, hrun, hcompare⟩ := exists_comparing (α := α) (x := x) (y := y) rules htests hop
    obtain ⟨found, hpasses, hfound⟩ := hreference hy hplain
    refine (hpasses.barren (fun w => compare x w) fun w s' hw => ?_).of_eq fun k found => ?_
    · exact hcompare x w s' (Constraint.ground_of_isIndexValue hx).1 (hfound w hw).2 (.inl hx)
        fun hsame => hfails ⟨w, (hfound w hw).1, Same.symm hsame⟩
    · refine (hrun k found).trans ?_
      rw [heval hx]
  · have hvalue : Constraint.isIndexValue x = true := by
      cases x <;> first | exact hx | cases hx
    obtain ⟨seek, hrun, hseek⟩ := exists_seeking (α := α) (x := x) (y := y) rules htests hop
    obtain ⟨found, hpasses, hfound⟩ := hreference hy hplain
    refine (hpasses.barren (fun w => seek x w) fun w s' hw => ?_).of_eq fun k found => ?_
    · exact hseek x w s' (Constraint.ground_of_isIndexValue hvalue).1 (hfound w hw).2
        fun m hm hsame => hfails ⟨w, (hfound w hw).1, m, hm, hsame⟩
    · refine (hrun k found).trans ?_
      rw [heval hvalue]

/-- An expression without negation and overrides notes that it is evaluated, and that nothing was found. -/
theorem evalExpr_plain (kind : ExprKind) (index : Nat) (k : Search α) :
    env.evalExpr rules (.mk kind false [] index) k =
      Search.after env.checkpoint fun _ => Search.after get fun s =>
        Search.after (env.emit .eval s.depth fun _ => (Expr.mk kind false [] index).text) fun _ =>
          Search.orElse (env.evalKind rules kind (Search.noting k))
            (env.emit .fail s.depth fun _ => (Expr.mk kind false [] index).text) := by
  funext found s
  rw [evalExpr]
  simp only [List.isEmpty_nil, if_true, Bool.false_eq_true, if_false, Search.after, Eval.run_bind, Eval.run_get]
  rcases env.checkpoint.run s with ⟨e | _, s₁⟩
  · rfl
  · simp only
    rcases (env.emit .eval s₁.depth fun _ => (Expr.mk kind false [] index).text).run s₁ with ⟨e | _, s₂⟩ <;> rfl

/-- An expression whose constraint does not hold goes on with nothing, whatever follows it. -/
theorem barren_evalExpr (hsep : Policy.Separate env.policy.ruleSets) (hfailing : env.failing = [])
    (hregular : env.Regular s) (hc : Constraint.ofExpr? env.policy.overlaps e = some c)
    (hplain : c.reference.isPlainRef = true) (hfails : ¬c.Holds (env.plainValue s.scope)) :
    Search.Barren (α := α) (env.evalExpr rules e) s := by
  obtain ⟨operator, x, y, index, rfl, -⟩ := Constraint.ofExpr?_eq_some hc
  rw [show env.evalExpr (α := α) rules _ = _ from funext (evalExpr_plain rules _ index)]
  refine .after fun _ s₁ hcheck => .after fun t s₂ hget => .after fun _ s₃ hemit => .orElse ?_ _
  cases hget
  have hquiet : s.Quiet s₃ := by
    have hfirst := env.quiet_checkpoint s
    have hsecond := env.quiet_emit .eval s₁.depth
      (fun _ => (Expr.mk (.term (.call operator [x, y])) false [] index).text) s₁
    rw [hcheck] at hfirst
    rw [hemit] at hsecond
    exact hfirst.trans hsecond
  have hscope : s₃.scope = s.scope := congrArg Frame.scope hquiet.frame
  exact barren_evalKind rules hsep hfailing (hregular.of_quiet hquiet) hc hplain (hscope ▸ hfails)

/-! ## Rules that are passed over -/

theorem selectsBy_iff {value : Term → Option Term} (hvalue : ∀ r r', Same r r' → value r = value r') (rule : Rule) :
    env.selectsBy value rule = true ↔ RuleIndex.Due env.policy.overlaps value rule := by
  have hrel : ∀ r r', Same r r' → Option.Rel Same (value r) (value r') := by
    intro r r' h
    rw [hvalue r r' h]
    cases value r' with
    | none => exact .none
    | some w => exact .some (.refl w)
  have hweight := Constraint.weight_eq value
  rw [selectsBy, beq_iff_eq, Constraint.score, (Constraint.sum_map_eq_length fun c _ => (hweight c).1).2,
    RuleIndex.Due, ← Constraint.forall_ofRule_iff hrel]
  exact forall₂_congr fun c _ => (hweight c).2

/-- Under overrides the candidates of a rule set are the rules whose constraints hold of what their references stand for,
unless the overrides cannot be laid. -/
theorem settles_candidates_overlaid (hfailing : env.failing = []) (hindexed : env.options.indexed = true) {rs : RuleSet}
    (hplain : ∀ rule ∈ rs.rules, ∀ c ∈ Constraint.ofRule env.policy.overlaps rule, c.reference.isPlainRef = true)
    (s : State) :
    (env.candidates rules rs).Settles EvalError.IsUnsettable
      (rs.rules.filter (env.selectsBy (env.plainValue s.scope))) s := by
  refine settles_candidates (fun t => t.scope = s.scope) rules hindexed ?_ (fun _ _ => plainValue_congr) rs
    (fun rule hrule c hc t ht => ?_) rfl
  · exact fun ht hquiet => (congrArg Frame.scope hquiet.frame).trans ht
  · exact settles_resolve rules hfailing (Constraint.isIndexRef_ofRule hc) (hplain rule hrule c hc)
      (ht ▸ ⟨rfl, rfl, rfl⟩)

/-- A rule that is no candidate has no `else`, and there is an expression in its body that goes on with nothing. -/
theorem exists_barren_of_passed_over (hsep : Policy.Separate env.policy.ruleSets) (hfailing : env.failing = [])
    {σ : Scope} {rule : Rule}
    (hplain : ∀ e ∈ rule.first.body, ∀ c, Constraint.ofExpr? env.policy.overlaps e = some c →
      c.reference.isPlainRef = true)
    (h : env.selectsBy (env.plainValue σ) rule = false) :
    rule.otherwise = [] ∧ ∃ e ∈ rule.first.body, ∀ s, s.scope = σ → env.Regular s →
      Search.Barren (α := α) (env.evalExpr rules e) s := by
  rw [Bool.eq_false_iff, ne_eq, selectsBy_iff fun _ _ => plainValue_congr, RuleIndex.Due, not_or, not_not] at h
  obtain ⟨hotherwise, hbody⟩ := h
  simp only [not_forall, exists_prop] at hbody
  obtain ⟨e, he, c, hc, hfails⟩ := hbody
  refine ⟨hotherwise, e, he, fun s hs hregular => ?_⟩
  exact barren_evalExpr rules hsep hfailing hregular hc (hplain e he c hc) (hs ▸ hfails)

-- a rule for the admin is passed over when the input is about another user
example :
    (({} : Env).selectsBy (Env.plainValue {} { input := some (.object [(.string "user", .string "bob")]) })
      ⟨{ head := { name := .var "allow", keys := [] },
         body := [.ofKind (.term (.call (.ref (.var "equal") [])
           [.ref (.var "input") [.string "user"], .string "admin"]))] }, []⟩) = false := by
  decide +kernel

end Env
end PolicyEngine
