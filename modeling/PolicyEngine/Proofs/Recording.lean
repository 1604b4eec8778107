import PolicyEngine.Engine
import PolicyEngine.Proofs.Following
import PolicyEngine.Proofs.Steps

/-!
The recorded evaluator is the evaluator. Built-ins, the store and the trace leave an evaluation where it stands, so each
function of the evaluator is followed by its recorded form: over the text of a policy by induction on the text, and
over rules by induction on the levels to which they are nested.
-/
namespace PolicyEngine

/-! ## Steps that stay -/

theorem Builtin.not_refusal_of_checkTypes {name : String} {position : Nat} {types : List OperandType}
    {args : List Term} {e : EvalError} (h : checkTypes name position types args = .error e) : ¬e.IsRefusal := by
  induction types generalizing position args with
  | nil => cases h
  | cons type types ih =>
    cases args with
    | nil => cases h
    | cons t ts =>
      simp only [checkTypes] at h
      split at h
      · exact ih h
      · cases h
        exact id

theorem Builtin.not_refusal_of_checkOperands {b : Builtin} {args : List Term} {e : EvalError}
    (h : b.checkOperands args = .error e) : ¬e.IsRefusal := by
  simp only [checkOperands] at h
  split at h
  · split at h
    · cases h
      exact id
    · exact not_refusal_of_checkTypes h
  · exact not_refusal_of_checkTypes h

namespace Env

variable (env : Env)

theorem stays_checkpoint : env.checkpoint.Stays := by
  intro s
  rw [run_checkpoint]
  split
  · exact ⟨.refl s, fun e he => by
      cases he
      exact id⟩
  · refine ⟨⟨rfl, rfl, rfl⟩, fun e he => ?_⟩
    dsimp only at he
    cases htick : (s.timer.tick Clock.read s.clock).1 <;> rw [htick] at he <;> cases he
    exact id

theorem stays_emit (op : TraceOp) (depth : Nat) (text : Unit → String) : (env.emit op depth text).Stays := by
  intro s
  rw [run_emit]
  refine ⟨?_, not_refusal_ok⟩
  dsimp only
  split
  · exact ⟨rfl, rfl, rfl⟩
  · exact .refl s

theorem stays_read (path : StorePath) : (env.read path).Stays := by
  intro s
  rw [run_read]
  refine ⟨⟨rfl, rfl, rfl⟩, fun e he => ?_⟩
  dsimp only at he
  split at he <;> cases he
  exact id

theorem stays_listKeys (path : StorePath) : (env.listKeys path).Stays := by
  intro s
  rw [run_listKeys]
  refine ⟨⟨rfl, rfl, rfl⟩, fun e he => ?_⟩
  dsimp only at he
  split at he <;> cases he
  exact id

theorem not_refusal_of_builtinResult {b : Builtin} {args : List Term} {r : BuiltinResult} {e : EvalError}
    (h : env.builtinResult b args r = .error e) : ¬e.IsRefusal := by
  cases r with
  | ok value => cases h
  | error cause =>
    simp only [builtinResult, failedCall] at h
    split at h
    · cases h
    · split at h <;> cases h
      exact id

theorem stays_runBuiltin (b : Builtin) (args : List Term) : (env.runBuiltin b args).Stays := by
  intro s
  rw [run_runBuiltin]
  exact ⟨⟨rfl, rfl, rfl⟩, fun e he => env.not_refusal_of_builtinResult he⟩

theorem not_refusal_of_refusal? {b : Builtin} {args : List Term} {e : EvalError}
    (h : refusal? b args = some (.error e)) : ¬e.IsRefusal := by
  simp only [refusal?] at h
  split at h
  · cases h
  · split at h
    · cases h
    · split at h
      · next hcheck =>
        cases h
        exact Builtin.not_refusal_of_checkOperands hcheck
      · cases h

theorem stays_callBuiltin (b : Builtin) (args : List Term) : (env.callBuiltin b args).Stays := by
  intro s
  have hrun := env.stays_runBuiltin b args s
  rw [run_callBuiltin]
  cases hrefusal : refusal? b args with
  | some r =>
    refine ⟨.refl s, fun e he => not_refusal_of_refusal? (hrefusal.trans ?_)⟩
    exact congrArg some he
  | none =>
    dsimp only
    split
    · exact hrun
    · cases s.answered? b.name args with
      | some answer => exact ⟨.refl s, not_refusal_ok⟩
      | none =>
        rcases hresult : (env.runBuiltin b args).run s with ⟨e | answer, s₁⟩ <;> rw [hresult] at hrun
        · exact hrun
        · exact ⟨⟨hrun.1.context, hrun.1.memo, hrun.1.lastScope⟩, not_refusal_ok⟩

end Env

theorem stays_setIn (value doc : Term) (path : List String) : (setIn value doc path).Stays := by
  refine .ofExcept fun e he => ?_
  cases hset : Term.setPath value doc path <;> rw [hset] at he <;> cases he
  exact id

theorem Env.stays_layOverrides (path : DataPath) (overrides : List (DataPath × Term)) (doc : Option Term) :
    (Env.layOverrides path overrides doc).Stays := by
  induction overrides generalizing doc with
  | nil => exact .pure doc
  | cons override rest ih => exact (stays_setIn _ _ _).bind fun doc => ih (some doc)

theorem Scope.stays_override (target : Env.OverrideTarget) (value : Term) (σ : Scope) :
    (σ.override target value).Stays := by
  cases target with
  | input path => exact (stays_setIn _ _ _).bind fun _ => .pure _
  | data path => exact .pure _
  | function name => exact .pure _

theorem Env.stays_rootCursor (name : String) : (Env.rootCursor name).Stays := by
  simp only [Env.rootCursor]
  split
  · exact .get fun s => .pure _
  · exact .pure _

namespace Env

variable (env : Env)

theorem not_refusal_of_function {name : String} {e : EvalError} (h : env.function name = .error e) :
    ¬e.IsRefusal := by
  simp only [function] at h
  split at h <;> cases h
  exact id

theorem stays_resolveFunction (name : String) : (env.resolveFunction name).Stays := by
  refine (Eval.Stays.ofExcept fun e he => env.not_refusal_of_function he).bind fun found => .get fun s => ?_
  split
  · exact .pure _
  · exact .pure _
  · exact (Eval.Stays.ofExcept fun e he => env.not_refusal_of_function he).bind fun _ => .pure _

theorem not_refusal_of_overrideTarget {target : Term} {e : EvalError} (h : env.overrideTarget target = .error e) :
    ¬e.IsRefusal := by
  simp only [overrideTarget] at h
  split at h
  · cases h
    exact id
  · split at h
    · cases h
      exact id
    · split at h
      · cases h
      · split at h <;> cases h
      · split at h <;> cases h
        exact id

theorem stays_acceptValue (rs : RuleSet) (value : Term) : (Env.acceptValue rs value).Stays := by
  intro found
  cases found with
  | none => exact Search.Stays.accept _ none
  | some old =>
    simp only [acceptValue]
    split
    · exact Search.Stays.accept id (some old)
    · exact Search.Stays.raise (by exact id) (some old)

end Env

theorem Search.Stays.addUnique {conflict : Term → Term → Term → EvalError} {note : Eval Unit}
    (hc : ∀ key old new, ¬(conflict key old new).IsRefusal) (hn : note.Stays) (key value : Term) :
    (Search.addUnique conflict note key value).Stays := by
  refine .ground (fun value => .ground (fun key fields => ?_) key) value
  cases (Term.findField? key fields).filter fun old => !(old == value) with
  | some old => exact Search.Stays.raise (hc _ _ _) fields
  | none => exact Search.Stays.after hn (fun _ => .collect _) fields

namespace Course

variable {env : Env} {n : Nat} {wrules : RuleSemantics} {rules : PolicyEngine.RuleSemantics} {α β γ : Type}

/-- The rule sets of the policy are followed. -/
structure RuleSemantics.Follows (env : Env) (n : Nat) (wrules : RuleSemantics) (rules : PolicyEngine.RuleSemantics) :
    Prop where
  document : ∀ rs ∈ env.policy.ruleSets, Eval.Follows env n (wrules.document rs) (rules.document rs)
  function : ∀ rs ∈ env.policy.ruleSets, ∀ args, Eval.Follows env n (wrules.function rs args) (rules.function rs args)

/-! ## Documents and calls -/

theorem Eval.Follows.first {w : (Term → Search (Option Term)) → Search (Option Term)}
    {search : (Term → PolicyEngine.Search (Option Term)) → PolicyEngine.Search (Option Term)}
    (h : ∀ c₀ {wk : Term → Search (Option Term)} {k : Term → PolicyEngine.Search (Option Term)},
      (∀ t, Search.Follows env n c₀ (wk t) (k t)) → Search.Follows env n c₀ (w wk) (search k)) :
    Eval.Follows env n (Search.first w) (PolicyEngine.Search.first search) :=
  .gather (fun c₀ => h c₀ fun t => .leaf (.ground (fun _ => .accept _) t)) none

section Documents

variable (hr : RuleSemantics.Follows env n wrules rules)
include hr

theorem follows_layRules (path : DataPath) {sets : List RuleSet} (hsets : ∀ rs ∈ sets, rs ∈ env.policy.ruleSets)
    (doc : Term) : Eval.Follows env n (layRules wrules path sets doc) (Env.layRules rules path sets doc) := by
  induction sets generalizing doc with
  | nil => exact .pure doc
  | cons rs rest ih =>
    rw [List.forall_mem_cons] at hsets
    simp only [layRules, Env.layRules]
    split
    · exact ih hsets.2 doc
    · refine (hr.document rs hsets.1).bind fun value => ?_
      cases value with
      | none => exact ih hsets.2 doc
      | some value => exact (Eval.Follows.step (stays_setIn _ _ _)).bind fun doc => ih hsets.2 doc

theorem follows_baseDocument (path : DataPath) :
    Eval.Follows env n (baseDocument env wrules path) (env.baseDocument rules path) := by
  simp only [baseDocument, Env.baseDocument]
  cases hc : env.policy.covering? path with
  | some rs => exact (hr.document rs (Coupling.mem_of_coveringUpTo hc)).bind fun doc => .pure _
  | none =>
    refine (Eval.Follows.step (env.stays_read _)).bind fun stored => ?_
    cases hsets : env.policy.below path with
    | nil => exact .pure stored
    | cons rs rest =>
      have hmem : ∀ r ∈ rs :: rest, r ∈ env.policy.ruleSets := fun r hm => Coupling.mem_of_mem_below (hsets ▸ hm)
      exact (follows_layRules hr path hmem _).bind fun doc => .pure _

theorem follows_document (path : DataPath) :
    Eval.Follows env n (document env wrules path) (env.document rules path) := by
  refine .get fun c => ?_
  dsimp only
  cases Scope.covering? path c.state.scope.data with
  | some found => exact .step (Env.stays_layOverrides _ _ _)
  | none => exact (follows_baseDocument hr path).bind fun doc => .step (Env.stays_layOverrides _ _ _)

theorem follows_resolve (reference : Term) :
    Eval.Follows env n (resolve env wrules reference) (env.resolve rules reference) := by
  -- the two texts match on the root by themselves, so each is unfolded in an equation of its own
  have hrecorded := resolve.eq_def env wrules reference
  have hplain := Env.resolve.eq_def env rules reference
  cases hchain : RefChain.ofTerm? reference with
  | none =>
    simp only [hchain] at hrecorded hplain
    rw [hrecorded, hplain]
    exact .pure none
  | some chain =>
    simp only [hchain] at hrecorded hplain
    split at hrecorded
    · next hroot =>
      simp only [hroot] at hplain
      rw [hrecorded, hplain]
      exact .get fun c => .pure _
    · next hroot =>
      simp only [hroot] at hplain
      rw [hrecorded, hplain]
      exact (follows_document hr _).bind fun base => .pure _
    · next hinput hdata =>
      split at hplain
      · exact absurd ‹_› hinput
      · exact absurd ‹_› hdata
      · rw [hrecorded, hplain]
        exact .pure _

theorem follows_arrive (c : Cursor) : Eval.Follows env n (arrive env wrules c) (env.arrive rules c) := by
  cases c with
  | value v => exact .pure _
  | data path => exact follows_document hr path
  | child parent segment key =>
    refine (Eval.Follows.step (env.stays_read _)).bind fun found => ?_
    cases found with
    | some v => exact .pure _
    | none =>
      refine (Eval.Follows.step (env.stays_read _)).bind fun found => ?_
      rcases found with _ | doc
      · exact .pure none
      · cases doc <;> exact .pure _

theorem follows_settle (operand : Term) (c : Cursor) :
    Eval.Follows env n (settle env wrules operand c) (env.settle rules operand c) := by
  cases c with
  | value v => exact .pure _
  | child parent segment key => exact .pure _
  | data path =>
    refine .get fun c => ?_
    have hwhole := (follows_document hr path).bind (f := fun doc => Pure.pure (doc.map Footing.value))
      fun doc => .pure _
    dsimp only
    split
    · split
      · exact hwhole
      · exact .pure _
    · split
      · exact hwhole
      · cases c.state.bindings.plug operand with
        | string key => exact .pure _
        | _ => exact hwhole

end Documents
/-- What is called is in the policy if rules define it. -/
def Known (env : Env) (callee : Callee) : Prop := ∀ rs, callee = .rules rs → rs ∈ env.policy.ruleSets

theorem known_of_function {name : String} {found : Callee × Option Nat} (h : env.function name = .ok found) :
    Known env found.1 := by
  rintro rs hrs
  rcases Coupling.function_cases h with ⟨b, hb, _⟩ | ⟨rs', hrs', hmem⟩
  · rw [hrs] at hb
    cases hb
  · rw [hrs] at hrs'
    cases hrs'
    exact hmem

theorem known_of_resolveFunction {name : String} {s : State} {found : Callee × Option Nat}
    (h : ((env.resolveFunction name).run s).1 = .ok found) : Known env found.1 := by
  simp only [Env.resolveFunction, Eval.run_bind, Eval.run_ofExcept] at h
  cases hf : env.function name with
  | error e =>
    rw [hf] at h
    cases h
  | ok resolved =>
    simp only [hf, Eval.run_get] at h
    split at h
    · cases h
      exact known_of_function hf
    · cases h
      exact fun _ he => by cases he
    · next target _ =>
      simp only [Eval.run_bind, Eval.run_ofExcept] at h
      cases ht : env.function target with
      | error e =>
        rw [ht] at h
        cases h
      | ok other =>
        rw [ht] at h
        cases h
        exact fun rs hrs => known_of_function ht rs hrs

theorem follows_apply (hr : RuleSemantics.Follows env n wrules rules) {callee : Callee} (hc : Known env callee)
    (args : List Term) : Eval.Follows env n (apply env wrules callee args) (env.apply rules callee args) := by
  cases callee with
  | builtin b => exact .step (env.stays_callBuiltin b args)
  | rules rs =>
    simp only [apply, Env.apply]
    split
    · exact hr.function rs (hc rs rfl) args
    · exact .pure none
  | constant v => exact .pure _

/-! ## Terms and bodies -/

-- the searches unfold along the text that they are about
attribute [simp] evalTerm evalTerms evalFields walk evalCall evalKind evalOverrides evalExpr evalBody

section

variable (env n wrules rules)

/-- The search for the values of a term is followed, whatever follows its continuation. -/
def OfTerm (t : Term) : Prop :=
  ∀ {α : Type} (c₀ : Course) {wk : Term → Search α} {k : Term → PolicyEngine.Search α},
    (∀ v, Search.Follows env n c₀ (wk v) (k v)) →
      Search.Follows env n c₀ (evalTerm env wrules t wk) (env.evalTerm rules t k)

/-- The same of a term and, since calls are also evaluated as expressions, of the arguments of a call. -/
def OfTerms (t : Term) : Prop :=
  OfTerm env n wrules rules t ∧
    ∀ operator arguments, t = .call operator arguments → ∀ a ∈ arguments, OfTerm env n wrules rules a

def OfBody (body : Body) : Prop :=
  ∀ {α : Type} (c₀ : Course) {wk : Search α} {k : PolicyEngine.Search α}, Search.Follows env n c₀ wk k →
    Search.Follows env n c₀ (evalBody env wrules body wk) (env.evalBody rules body k)

def OfKind (kind : ExprKind) : Prop :=
  ∀ {α : Type} (c₀ : Course) {wk : Search α} {k : PolicyEngine.Search α}, Search.Follows env n c₀ wk k →
    Search.Follows env n c₀ (evalKind env wrules kind wk) (env.evalKind rules kind k)

def OfExpr (e : Expr) : Prop :=
  ∀ {α : Type} (c₀ : Course) {wk : Search α} {k : PolicyEngine.Search α}, Search.Follows env n c₀ wk k →
    Search.Follows env n c₀ (evalExpr env wrules e wk) (env.evalExpr rules e k)

end

variable {c₀ : Course}

theorem follows_evalTerms {ts : List Term} (hts : ∀ t ∈ ts, OfTerm env n wrules rules t)
    {wk : List Term → Search α} {k : List Term → PolicyEngine.Search α}
    (hk : ∀ vs, Search.Follows env n c₀ (wk vs) (k vs)) :
    Search.Follows env n c₀ (evalTerms env wrules ts wk) (env.evalTerms rules ts k) := by
  induction ts generalizing wk k with
  | nil =>
    simp only [evalTerms, Env.evalTerms]
    exact hk []
  | cons t rest ih =>
    rw [List.forall_mem_cons] at hts
    simp only [evalTerms, Env.evalTerms]
    exact hts.1 c₀ fun v => ih hts.2 fun vs => hk (v :: vs)

theorem follows_evalFields {fs : List (Term × Term)}
    (hfs : ∀ f ∈ fs, OfTerm env n wrules rules f.1 ∧ OfTerm env n wrules rules f.2)
    {wk : List (Term × Term) → Search α} {k : List (Term × Term) → PolicyEngine.Search α}
    (hk : ∀ fields, Search.Follows env n c₀ (wk fields) (k fields)) :
    Search.Follows env n c₀ (evalFields env wrules fs wk) (env.evalFields rules fs k) := by
  induction fs generalizing wk k with
  | nil =>
    simp only [evalFields, Env.evalFields]
    exact hk []
  | cons f rest ih =>
    obtain ⟨key, value⟩ := f
    rw [List.forall_mem_cons] at hfs
    simp only [evalFields, Env.evalFields]
    exact hfs.1.1 c₀ fun x => hfs.1.2 c₀ fun y => ih hfs.2 fun fields => hk ((x, y) :: fields)

theorem follows_walk (hr : RuleSemantics.Follows env n wrules rules) {operands : List Term}
    (hts : ∀ t ∈ operands, OfTerm env n wrules rules t) (c : Cursor) {wk : Term → Search α}
    {k : Term → PolicyEngine.Search α} (hk : ∀ v, Search.Follows env n c₀ (wk v) (k v)) :
    Search.Follows env n c₀ (walk env wrules c operands wk) (env.walk rules c operands k) := by
  induction operands generalizing c with
  | nil =>
    simp only [walk, Env.walk]
    exact .afterSome (follows_arrive hr c) hk
  | cons operand rest ih =>
    rw [List.forall_mem_cons] at hts
    simp only [walk, Env.walk]
    refine .afterSome (follows_settle hr operand c) fun footing => ?_
    cases footing with
    | data path => exact ih hts.2 (.data path)
    | value v =>
      refine hts.1 c₀ fun key => .withBindings fun b => ?_
      split
      · cases v.lookup (b.plug key) with
        | some v => exact ih hts.2 (.value v)
        | none => exact .exhausted
      · refine .each (fun entry => .after (.step env.stays_checkpoint) fun _ => ?_) v.entries
        exact .unifying _ _ (ih hts.2 (.value entry.2))
    | stored path =>
      refine hts.1 c₀ fun key => .withBindings fun b => ?_
      split
      · cases PathSegment.ofTerm? (b.plug key) with
        | some segment => exact ih hts.2 _
        | none =>
          refine .afterSome (.step ?_) fun v => ih hts.2 (.value v)
          exact (env.stays_read path).bind fun _ => .pure _
      · refine .afterSome (.step (env.stays_listKeys path)) fun names => .each (fun name => ?_) names
        refine .after (.step env.stays_checkpoint) fun _ => .unifying _ _ ?_
        cases PathSegment.ofTerm? name with
        | some segment => exact ih hts.2 _
        | none => exact ih hts.2 _

theorem follows_evalCall (hr : RuleSemantics.Follows env n wrules rules) {callee : Callee} (hc : Known env callee)
    (output : Option Nat) {arguments : List Term} (hts : ∀ t ∈ arguments, OfTerm env n wrules rules t)
    (operands : List Term) {wk : Term → Search α} {k : Term → PolicyEngine.Search α}
    (hk : ∀ v, Search.Follows env n c₀ (wk v) (k v)) {wdone : Search α} {done : PolicyEngine.Search α}
    (hdone : Search.Follows env n c₀ wdone done) :
    Search.Follows env n c₀ (evalCall env wrules callee output arguments operands wk wdone)
      (env.evalCall rules callee output arguments operands k done) := by
  induction arguments generalizing operands with
  | nil =>
    simp only [evalCall, Env.evalCall]
    exact .afterSome (follows_apply hr hc _) hk
  | cons t rest ih =>
    rw [List.forall_mem_cons] at hts
    simp only [evalCall, Env.evalCall]
    split
    · refine .afterSome (follows_apply hr hc _) fun result => hts.1 c₀ fun v => ?_
      exact .unifying v result hdone
    · split
      · refine .after (.gather (fun c => hts.1 c fun v => ?_) []) fun values => ih hts.2 _
        exact .leaf (.ground (fun _ => .collect _) v)
      · exact hts.1 c₀ fun v => ih hts.2 _

theorem ofTerm_var (hr : RuleSemantics.Follows env n wrules rules) (x : String) :
    OfTerm env n wrules rules (.var x) := by
  intro α c₀ wk k hk
  simp only [evalTerm, Env.evalTerm]
  refine .withBindings fun b => ?_
  cases b.deref (.var x) with
  | var y =>
    dsimp only
    split
    · exact .afterSome (.step (Env.stays_rootCursor y)) fun c => .afterSome (follows_arrive hr c) hk
    · exact hk _
  | _ => exact hk _

theorem ofTerm_ref (hr : RuleSemantics.Follows env n wrules rules) {head : Term} {operands : List Term}
    (hh : OfTerm env n wrules rules head) (hts : ∀ t ∈ operands, OfTerm env n wrules rules t) :
    OfTerm env n wrules rules (.ref head operands) := by
  intro α c₀ wk k hk
  simp only [evalTerm, Env.evalTerm]
  refine .withBindings fun b => ?_
  cases b.root? head with
  | some name => exact .afterSome (.step (Env.stays_rootCursor name)) fun c => follows_walk hr hts c hk
  | none =>
    refine hh c₀ fun v => ?_
    cases v with
    | var _ => exact .exhausted
    | _ => exact follows_walk hr hts _ hk

theorem ofTerm_call (hr : RuleSemantics.Follows env n wrules rules) {operator : Term} {arguments : List Term}
    (hts : ∀ t ∈ arguments, OfTerm env n wrules rules t) : OfTerm env n wrules rules (.call operator arguments) := by
  intro α c₀ wk k hk
  simp only [evalTerm, Env.evalTerm]
  cases operator.refName? with
  | none => exact .raise id
  | some name =>
    exact .afterSuch (.step (env.stays_resolveFunction name)) (fun s found h => known_of_resolveFunction h)
      fun found hc => follows_evalCall hr hc none hts [] hk .exhausted

theorem ofTerm_arrayCompr {term : Term} {body : Body} (ht : OfTerm env n wrules rules term)
    (hb : OfBody env n wrules rules body) : OfTerm env n wrules rules (.arrayCompr term body) := by
  intro α c₀ wk k hk
  simp only [evalTerm, Env.evalTerm]
  refine .after (.gather (fun c => hb c (ht c fun v => ?_)) #[]) fun items => hk _
  exact .leaf (.ground (fun _ => .collect _) v)

theorem ofTerm_setCompr {term : Term} {body : Body} (ht : OfTerm env n wrules rules term)
    (hb : OfBody env n wrules rules body) : OfTerm env n wrules rules (.setCompr term body) := by
  intro α c₀ wk k hk
  simp only [evalTerm, Env.evalTerm]
  refine .after (.gather (fun c => hb c (ht c fun v => ?_)) []) fun members => hk _
  exact .leaf (.ground (fun _ => .collect _) v)

theorem ofTerm_objectCompr {key value : Term} {body : Body} (hkey : OfTerm env n wrules rules key)
    (hvalue : OfTerm env n wrules rules value) (hb : OfBody env n wrules rules body) :
    OfTerm env n wrules rules (.objectCompr key value body) := by
  intro α c₀ wk k hk
  simp only [evalTerm, Env.evalTerm]
  refine .after (.gather (fun c => hb c (hkey c fun key => hvalue c fun value => ?_)) []) fun fields => hk _
  exact .leaf (.addUnique (fun _ _ _ => id) (.pure ()) key value)

theorem ofTerm_array {items : List Term} (hts : ∀ t ∈ items, OfTerm env n wrules rules t) :
    OfTerm env n wrules rules (.array items) := by
  intro α c₀ wk k hk
  simp only [evalTerm, Env.evalTerm]
  split
  · exact follows_evalTerms hts fun vs => hk _
  · exact .withBindings fun b => hk _

theorem ofTerm_set {members : List Term} (hts : ∀ t ∈ members, OfTerm env n wrules rules t) :
    OfTerm env n wrules rules (.set members) := by
  intro α c₀ wk k hk
  simp only [evalTerm, Env.evalTerm]
  split
  · exact follows_evalTerms hts fun vs => hk _
  · exact .withBindings fun b => hk _

theorem ofTerm_object {fields : List (Term × Term)}
    (hfs : ∀ f ∈ fields, OfTerm env n wrules rules f.1 ∧ OfTerm env n wrules rules f.2) :
    OfTerm env n wrules rules (.object fields) := by
  intro α c₀ wk k hk
  simp only [evalTerm, Env.evalTerm]
  split
  · exact follows_evalFields hfs fun fs => hk _
  · exact .withBindings fun b => hk _

theorem ofTerm_scalar {t : Term} (ht : t.isScalar = true) : OfTerm env n wrules rules t := by
  intro α c₀ wk k hk
  cases t with
  | null | bool _ | number _ | string _ =>
    simp only [evalTerm, Env.evalTerm]
    exact hk _
  | _ => cases ht

theorem OfTerms.of_not_call {t : Term} (ht : OfTerm env n wrules rules t)
    (hn : ∀ operator arguments, t ≠ .call operator arguments := by simp) : OfTerms env n wrules rules t :=
  ⟨ht, fun operator arguments he => absurd he (hn operator arguments)⟩

/-! ### Expressions -/

theorem evalKind_call (operator : Term) (arguments : List Term) (k : Search α) :
    evalKind env wrules (.term (.call operator arguments)) k =
      match operator.refName? with
      | none => Search.leaf (.raise (.internal (.invalidOperator operator)))
      | some name =>
        match name == "eq" || name == "assign", arguments with
        | true, [x, y] => evalTerm env wrules x fun x => evalTerm env wrules y fun y => Search.unifying x y k
        | _, arguments => Search.after (step (env.resolveFunction name)) fun (callee, arity) =>
          evalCall env wrules callee (Env.outputPosition arity arguments.length) arguments []
            (fun result => if result == .bool false then Search.leaf .exhausted else k) k :=
  evalKind.eq_def ..

theorem ofKind_call (hr : RuleSemantics.Follows env n wrules rules) {operator : Term} {arguments : List Term}
    (hts : ∀ t ∈ arguments, OfTerm env n wrules rules t) :
    OfKind env n wrules rules (.term (.call operator arguments)) := by
  intro α c₀ wk k hk
  have hrecorded : evalKind env wrules (.term (.call operator arguments)) wk = _ := evalKind_call operator arguments wk
  have hplain := Coupling.evalKind_call env rules operator arguments k
  cases hoperator : operator.refName? with
  | none =>
    simp only [hoperator] at hrecorded hplain
    rw [hrecorded, hplain]
    exact .raise id
  | some name =>
    have hcall : Search.Follows env n c₀
        (.after (step (env.resolveFunction name)) fun called =>
          evalCall env wrules called.1 (Env.outputPosition called.2 arguments.length) arguments []
            (fun result => if result == .bool false then .leaf .exhausted else wk) wk)
        (.after (env.resolveFunction name) fun called =>
          env.evalCall rules called.1 (Env.outputPosition called.2 arguments.length) arguments []
            (fun result => if result == .bool false then .exhausted else k) k) := by
      refine .afterSuch (.step (env.stays_resolveFunction name)) (fun s found h => known_of_resolveFunction h)
        fun found hc => follows_evalCall hr hc _ hts [] (fun v => ?_) hk
      split
      · exact .exhausted
      · exact hk
    simp only [hoperator] at hrecorded hplain
    split at hrecorded
    · next x y hname =>
      simp only [hname] at hplain
      rw [hrecorded, hplain]
      simp only [List.forall_mem_cons] at hts
      exact hts.1 c₀ fun x => hts.2.1 c₀ fun y => .unifying x y hk
    · next hother =>
      split at hplain
      · exact absurd rfl (hother _ _ ‹_›)
      · rw [hrecorded, hplain]
        exact hcall

theorem ofKind_term (hr : RuleSemantics.Follows env n wrules rules) {t : Term} (ht : OfTerms env n wrules rules t) :
    OfKind env n wrules rules (.term t) := by
  cases t with
  | call operator arguments => exact ofKind_call hr (ht.2 operator arguments rfl)
  | _ =>
    intro α c₀ wk k hk
    simp only [evalKind, Env.evalKind]
    refine ht.1 c₀ fun v => ?_
    cases v with
    | bool b => cases b with
      | false => exact .exhausted
      | true => exact hk
    | var _ => exact .exhausted
    | _ => exact hk

theorem evalKind_generator (operator : Term) (arguments : List Term) (k : Search α) :
    evalKind env wrules (.someDecl [.call operator arguments]) k =
      match operator.refName?, arguments with
      | some "internal.member_2", [value, domain] => evalTerm env wrules domain fun domain =>
        Search.each domain.entries fun entry => Search.after (step env.checkpoint) fun _ =>
          Search.extending (Bindings.bindEntry none value entry) k
      | some "internal.member_3", [key, value, domain] => evalTerm env wrules domain fun domain =>
        Search.each domain.entries fun entry => Search.after (step env.checkpoint) fun _ =>
          Search.extending (Bindings.bindEntry (some key) value entry) k
      | _, arguments => Search.leaf (.raise (.internal (.invalidGenerator (.call operator arguments)))) :=
  evalKind.eq_def ..

theorem ofKind_generator {operator : Term} {arguments : List Term}
    (hts : ∀ t ∈ arguments, OfTerm env n wrules rules t) :
    OfKind env n wrules rules (.someDecl [.call operator arguments]) := by
  intro α c₀ wk k hk
  have hrecorded : evalKind env wrules (.someDecl [.call operator arguments]) wk = _ :=
    evalKind_generator operator arguments wk
  have hplain := Coupling.evalKind_generator env rules operator arguments k
  have heach : ∀ (key : Option Term) (value : Term) {domain : Term}, OfTerm env n wrules rules domain →
      Search.Follows env n c₀
        (evalTerm env wrules domain fun domain => Search.each domain.entries fun entry =>
          Search.after (step env.checkpoint) fun _ => Search.extending (Bindings.bindEntry key value entry) wk)
        (env.evalTerm rules domain fun domain => .each domain.entries fun entry =>
          .after env.checkpoint fun _ => .extending (Bindings.bindEntry key value entry) k) :=
    fun key value domain hdomain => hdomain c₀ fun v =>
      .each (fun entry => .after (.step env.stays_checkpoint) fun _ => hk.extending _) v.entries
  split at hrecorded
  · next value domain hname =>
    simp only [hname] at hplain
    rw [hrecorded, hplain]
    simp only [List.forall_mem_cons] at hts
    exact heach none value hts.2.1
  · next key value domain hname =>
    simp only [hname] at hplain
    rw [hrecorded, hplain]
    simp only [List.forall_mem_cons] at hts
    exact heach (some key) value hts.2.2.1
  · next htwo hthree =>
    split at hplain
    · exact absurd rfl (htwo _ _ ‹_›)
    · exact absurd rfl (hthree _ _ _ ‹_›)
    · rw [hrecorded, hplain]
      exact .raise id

theorem ofKind_someDecl {symbols : List Term} (hts : ∀ t ∈ symbols, OfTerms env n wrules rules t) :
    OfKind env n wrules rules (.someDecl symbols) := by
  intro α c₀ wk k hk
  by_cases hs : ∃ operator arguments, symbols = [.call operator arguments]
  · obtain ⟨operator, arguments, rfl⟩ := hs
    exact ofKind_generator ((hts _ List.mem_cons_self).2 operator arguments rfl) c₀ hk
  · rw [Env.evalKind, evalKind]
    · exact hk.extending _
    all_goals
      rintro operator arguments rfl
      exact hs ⟨operator, arguments, rfl⟩

theorem ofKind_every {key : Option Term} {value domain : Term} {body : Body} (hd : OfTerm env n wrules rules domain)
    (hb : OfBody env n wrules rules body) : OfKind env n wrules rules (.every key value domain body) := by
  intro α c₀ wk k hk
  simp only [evalKind, Env.evalKind]
  refine .after (.first hd) fun found => ?_
  cases found with
  | none => exact hk
  | some domain =>
    refine .after (.forAll (fun entry => ?_) domain.entries) fun holds => ?_
    · refine (Eval.Follows.step env.stays_checkpoint).bind fun _ => .extending (.gather (fun c => ?_) false)
      exact hb c (.accept _)
    · cases holds with
      | true => exact hk
      | false => exact .exhausted

theorem follows_evalOverrides {overrides : List (Term × Term)}
    (hts : ∀ o ∈ overrides, OfTerm env n wrules rules o.2) (σ : Scope) :
    Eval.Follows env n (evalOverrides env wrules overrides σ) (env.evalOverrides rules overrides σ) := by
  induction overrides generalizing σ with
  | nil =>
    simp only [evalOverrides, Env.evalOverrides]
    exact .pure _
  | cons o rest ih =>
    obtain ⟨target, replacement⟩ := o
    rw [List.forall_mem_cons] at hts
    simp only [evalOverrides, Env.evalOverrides]
    cases htarget : env.overrideTarget target with
    | error e => exact .throw (env.not_refusal_of_overrideTarget htarget)
    | ok target =>
      dsimp only
      cases env.mockedBy? target replacement with
      | some mocked => exact ih hts.2 _
      | none =>
        refine (Eval.Follows.first hts.1).bind fun value => ?_
        cases value with
        | none => exact .pure none
        | some value => exact (Eval.Follows.step (Scope.stays_override _ _ _)).bind fun σ => ih hts.2 σ

/-- An expression without its overrides. -/
def evalSigned (env : Env) (wrules : RuleSemantics) (negated : Bool) (kind : ExprKind) (k : Search α) : Search α :=
  if negated then
    Search.after (Search.gather (evalKind env wrules kind (Search.leaf (.accept fun _ => true))) false) fun holds =>
      if holds then Search.leaf .exhausted else k
  else evalKind env wrules kind k

theorem evalExpr_eq (kind : ExprKind) (negated : Bool) (overrides : List (Term × Term)) (index : Nat) (k : Search α) :
    evalExpr env wrules (.mk kind negated overrides index) k =
      Search.after (step do
          env.checkpoint
          let depth := (← get).depth
          env.emit .eval depth fun _ => (Expr.mk kind negated overrides index).text
          pure depth) fun depth =>
        Search.orElse
          (if overrides.isEmpty then evalSigned env wrules negated kind (Search.noting k)
          else Search.afterSome (do evalOverrides env wrules overrides (← get).state.scope) fun scope =>
            Search.inScope scope (evalSigned env wrules negated kind) (Search.noting k))
          (step (env.emit .fail depth fun _ => (Expr.mk kind negated overrides index).text)) := by
  rw [evalExpr]
  rfl

theorem follows_evalSigned {kind : ExprKind} (hkind : OfKind env n wrules rules kind) (negated : Bool)
    {wk : Search α} {k : PolicyEngine.Search α} (hk : Search.Follows env n c₀ wk k) :
    Search.Follows env n c₀ (evalSigned env wrules negated kind wk) (Coupling.evalSigned env rules negated kind k) := by
  unfold evalSigned Coupling.evalSigned
  cases negated with
  | false => exact hkind c₀ hk
  | true =>
    refine .after (.gather (fun c => hkind c (.accept _)) false) fun holds => ?_
    cases holds with
    | true => exact .exhausted
    | false => exact hk

theorem ofExpr_mk {kind : ExprKind} {negated : Bool} {overrides : List (Term × Term)} {index : Nat}
    (hkind : OfKind env n wrules rules kind) (hts : ∀ o ∈ overrides, OfTerm env n wrules rules o.2) :
    OfExpr env n wrules rules (.mk kind negated overrides index) := by
  intro α c₀ wk k hk
  rw [Coupling.evalExpr_eq, evalExpr_eq]
  refine .after (.step ?_) fun depth => .orElse ?_ (.step (env.stays_emit _ _ _))
  · exact env.stays_checkpoint.bind fun _ => .get fun s => (env.stays_emit _ _ _).bind fun _ => .pure _
  · split
    · exact follows_evalSigned hkind negated hk.noting
    · unfold Coupling.evalOverriding
      refine .afterSome (.get fun c => follows_evalOverrides hts _) fun σ => ?_
      exact .inScope σ (fun c _ _ h => follows_evalSigned hkind negated h) hk.noting

theorem ofBody_nil : OfBody env n wrules rules [] := by
  intro α c₀ wk k hk
  simp only [evalBody, Env.evalBody]
  exact hk

theorem ofBody_cons {e : Expr} {rest : Body} (he : OfExpr env n wrules rules e)
    (hrest : OfBody env n wrules rules rest) : OfBody env n wrules rules (e :: rest) := by
  intro α c₀ wk k hk
  simp only [evalBody, Env.evalBody]
  exact he c₀ (hrest c₀ hk)

/-! ### The whole text -/

-- by recursion on the text, as the searches themselves
mutual
theorem ofTerms (hr : RuleSemantics.Follows env n wrules rules) : ∀ t : Term, OfTerms env n wrules rules t
  | .var x => .of_not_call (ofTerm_var hr x)
  | .ref head operands => .of_not_call (ofTerm_ref hr (ofTerms hr head).1 (ofTerms_all hr operands))
  | .call _ arguments =>
    ⟨ofTerm_call hr (ofTerms_all hr arguments), fun _ _ he => by
      cases he
      exact ofTerms_all hr arguments⟩
  | .arrayCompr term body => .of_not_call (ofTerm_arrayCompr (ofTerms hr term).1 (ofBody hr body))
  | .setCompr term body => .of_not_call (ofTerm_setCompr (ofTerms hr term).1 (ofBody hr body))
  | .objectCompr key value body =>
    .of_not_call (ofTerm_objectCompr (ofTerms hr key).1 (ofTerms hr value).1 (ofBody hr body))
  | .array items => .of_not_call (ofTerm_array (ofTerms_all hr items))
  | .set members => .of_not_call (ofTerm_set (ofTerms_all hr members))
  | .object fields => .of_not_call (ofTerm_object (ofTerms_fields hr fields))
  | .null => .of_not_call (ofTerm_scalar rfl)
  | .bool _ => .of_not_call (ofTerm_scalar rfl)
  | .number _ => .of_not_call (ofTerm_scalar rfl)
  | .string _ => .of_not_call (ofTerm_scalar rfl)
theorem ofTerms_all (hr : RuleSemantics.Follows env n wrules rules) :
    ∀ ts : List Term, ∀ t ∈ ts, OfTerm env n wrules rules t
  | [] => List.forall_mem_nil _
  | t :: rest => List.forall_mem_cons.2 ⟨(ofTerms hr t).1, ofTerms_all hr rest⟩
theorem ofTerms_symbols (hr : RuleSemantics.Follows env n wrules rules) :
    ∀ ts : List Term, ∀ t ∈ ts, OfTerms env n wrules rules t
  | [] => List.forall_mem_nil _
  | t :: rest => List.forall_mem_cons.2 ⟨ofTerms hr t, ofTerms_symbols hr rest⟩
theorem ofTerms_fields (hr : RuleSemantics.Follows env n wrules rules) :
    ∀ fs : List (Term × Term), ∀ f ∈ fs, OfTerm env n wrules rules f.1 ∧ OfTerm env n wrules rules f.2
  | [] => List.forall_mem_nil _
  | (k, v) :: rest => List.forall_mem_cons.2 ⟨⟨(ofTerms hr k).1, (ofTerms hr v).1⟩, ofTerms_fields hr rest⟩
theorem ofKind (hr : RuleSemantics.Follows env n wrules rules) : ∀ kind : ExprKind, OfKind env n wrules rules kind
  | .term t => ofKind_term hr (ofTerms hr t)
  | .someDecl symbols => ofKind_someDecl (ofTerms_symbols hr symbols)
  | .every _ _ domain body => ofKind_every (ofTerms hr domain).1 (ofBody hr body)
theorem ofExpr (hr : RuleSemantics.Follows env n wrules rules) : ∀ e : Expr, OfExpr env n wrules rules e
  | .mk kind _ overrides _ => ofExpr_mk (ofKind hr kind) fun o ho => (ofTerms_fields hr overrides o ho).2
theorem ofBody (hr : RuleSemantics.Follows env n wrules rules) : ∀ body : Body, OfBody env n wrules rules body
  | [] => ofBody_nil
  | e :: rest => ofBody_cons (ofExpr hr e) (ofBody hr rest)
end

/-! ## Rules -/

theorem hits_cons (found : Term → List (Term × List Nat) → List Nat) (resolve : Term → Eval (Option Term))
    (reference : Term) (buckets : List (Term × List Nat)) (rest : IndexTable) :
    (ExceptT.mk (RuleIndex.hits found (fun r => (resolve r).run) ((reference, buckets) :: rest)) : Eval (List Nat)) =
      resolve reference >>= fun value =>
        ExceptT.mk (RuleIndex.hits found (fun r => (resolve r).run) rest) >>= fun later =>
          pure ((value.map (found · buckets)).getD [] ++ later) := by
  refine Eval.ext fun c => ?_
  simp only [run_bind, ExceptT.run_mk, RuleIndex.hits]
  rcases (resolve reference).run c with ⟨e | value, c₁⟩
  · rfl
  · dsimp only
    rcases RuleIndex.hits found (fun r => (resolve r).run) rest c₁ with ⟨e | later, c₂⟩ <;> rfl

theorem candidates_eq (index : RuleIndex) (resolve : Term → Eval (Option Term)) :
    (ExceptT.mk (index.candidates fun r => (resolve r).run) : Eval (List Nat)) =
      ExceptT.mk (RuleIndex.hits RuleIndex.equalsHits (fun r => (resolve r).run) index.equals) >>= fun byEquality =>
        ExceptT.mk (RuleIndex.hits RuleIndex.memberHits (fun r => (resolve r).run) index.members) >>=
          fun byMembership => pure ((index.counts.zipIdx.filter fun (count, i) =>
            (byEquality ++ byMembership).count i == count).map Prod.snd) := by
  refine Eval.ext fun c => ?_
  simp only [run_bind, ExceptT.run_mk, RuleIndex.candidates]
  rcases RuleIndex.hits RuleIndex.equalsHits (fun r => (resolve r).run) index.equals c with ⟨e | byEquality, c₁⟩
  · rfl
  · dsimp only
    rcases RuleIndex.hits RuleIndex.memberHits (fun r => (resolve r).run) index.members c₁ with ⟨e | later, c₂⟩ <;> rfl

section

variable (hr : RuleSemantics.Follows env n wrules rules)
include hr

theorem follows_evalClause (rs : RuleSet) (args : Option (List Term)) (clause : Clause) :
    Eval.Follows env n (evalClause env wrules rs args clause) (env.evalClause rules rs args clause) := by
  refine .get fun c => ?_
  refine (Eval.Follows.step (env.stays_emit _ _ _)).bind fun _ => .gather (fun c₀ => ?_) none
  have hvalue : ∀ (exit : Nat) (v : Term), Search.Follows env n c₀
      (.leaf (.ground (fun value => .after (env.emit .exit exit fun _ => rs.name) fun _ => Env.acceptValue rs value) v))
      (.ground (fun value => .after (env.emit .exit exit fun _ => rs.name) fun _ => Env.acceptValue rs value) v) :=
    fun exit v => .leaf (.ground (fun value => .after (env.stays_emit _ _ _) fun _ => Env.stays_acceptValue rs value) v)
  have hbody := ofBody hr clause.body c₀ (((ofTerms hr clause.value).1 c₀ (hvalue c.state.depth)).endingWith
    (if clause.value.isGround && !clause.value.needsEval then .stop else .more))
  cases args with
  | none => exact hbody
  | some args => exact hbody.extending _

theorem follows_evalChain (rs : RuleSet) (args : Option (List Term)) (clauses : List Clause) :
    Eval.Follows env n (evalChain env wrules rs args clauses) (env.evalChain rules rs args clauses) := by
  induction clauses with
  | nil => exact .pure none
  | cons clause rest ih =>
    refine (follows_evalClause hr rs args clause).bind fun value => ?_
    cases value with
    | none => exact ih
    | some value => exact .pure _

theorem follows_evalAgreeing (rs : RuleSet) (args : Option (List Term)) (keep : Term → Term → Term)
    (ruleList : List Rule) (found : Option Term) :
    Eval.Follows env n (evalAgreeing env wrules rs args keep ruleList found)
      (env.evalAgreeing rules rs args keep ruleList found) := by
  induction ruleList generalizing found with
  | nil => exact .pure found
  | cons rule rest ih =>
    refine (follows_evalChain hr rs args rule.clauses).bind fun value => ?_
    cases value with
    | none => exact ih found
    | some value =>
      cases found with
      | none => exact ih (some value)
      | some old =>
        dsimp only
        split
        · exact ih _
        · exact .throw id

theorem follows_deriveMembers (rs : RuleSet) (members : List Term) (rule : Rule) :
    Eval.Follows env n (deriveMembers env wrules rs members rule) (env.deriveMembers rules rs members rule) := by
  simp only [deriveMembers, Env.deriveMembers]
  cases rule.first.head.key with
  | none => exact .pure members
  | some key =>
    refine .get fun c => (Eval.Follows.step (env.stays_emit _ _ _)).bind fun _ => .gather (fun c₀ => ?_) members
    refine ofBody hr rule.first.body c₀ ((ofTerms hr key).1 c₀ fun v => ?_)
    exact .leaf (.ground (fun _ => .after (env.stays_emit _ _ _) fun _ => .collect _) v)

theorem follows_deriveFields (rs : RuleSet) (fields : List (Term × Term)) (rule : Rule) :
    Eval.Follows env n (deriveFields env wrules rs fields rule) (env.deriveFields rules rs fields rule) := by
  simp only [deriveFields, Env.deriveFields]
  cases rule.first.head.key with
  | none => exact .pure fields
  | some key =>
    refine .get fun c => (Eval.Follows.step (env.stays_emit _ _ _)).bind fun _ => .gather (fun c₀ => ?_) fields
    refine ofBody hr rule.first.body c₀ ((ofTerms hr key).1 c₀ fun key => ?_)
    refine (ofTerms hr rule.first.value).1 c₀ fun value => ?_
    exact .leaf (.addUnique (fun _ _ _ => id) (env.stays_emit _ _ _) key value)

theorem follows_hits (found : Term → List (Term × List Nat) → List Nat) (table : IndexTable) :
    Eval.Follows env n (ExceptT.mk (RuleIndex.hits found (fun r => (resolve env wrules r).run) table))
      (ExceptT.mk (RuleIndex.hits found (fun r => (env.resolve rules r).run) table)) := by
  induction table with
  | nil => exact .pure []
  | cons entry rest ih =>
    rw [hits_cons, Coupling.hits_cons]
    exact (follows_resolve hr entry.1).bind fun value => ih.bind fun later => .pure _

theorem follows_candidates (rs : RuleSet) :
    Eval.Follows env n (candidates env wrules rs) (env.candidates rules rs) := by
  simp only [candidates, Env.candidates]
  split
  · exact .pure _
  · rw [candidates_eq, Coupling.candidates_eq]
    refine Eval.Follows.bind ?_ fun positions => .pure _
    exact (follows_hits hr _ _).bind fun byEquality => (follows_hits hr _ _).bind fun byMembership => .pure _

theorem follows_evalDocument (rs : RuleSet) :
    Eval.Follows env n (evalDocument env wrules rs) (env.evalDocument rules rs) := by
  have hcandidates := follows_candidates hr rs
  simp only [evalDocument, Env.evalDocument]
  cases rs.kind with
  | complete =>
    refine hcandidates.bind fun ruleList => (follows_evalAgreeing hr rs none _ ruleList none).bind fun value => ?_
    cases value with
    | some value => exact .pure _
    | none =>
      cases rs.default with
      | some rule => exact follows_evalClause hr rs none rule.first
      | none => exact .pure none
  | partialSet =>
    refine hcandidates.bind fun ruleList => ?_
    exact (Eval.Follows.foldlM (follows_deriveMembers hr rs) ruleList []).bind fun members => .pure _
  | partialObject =>
    refine hcandidates.bind fun ruleList => ?_
    exact (Eval.Follows.foldlM (follows_deriveFields hr rs) ruleList []).bind fun fields => .pure _
  | function => exact .pure none

theorem follows_evalFunction (rs : RuleSet) (args : List Term) :
    Eval.Follows env n (evalFunction env wrules rs args) (env.evalFunction rules rs args) :=
  follows_evalAgreeing hr rs (some args) _ rs.rules none

end

/-! ## Nesting -/

theorem follows_recalling (rs : RuleSet) {w : Eval (Option Term)} {m : PolicyEngine.Eval (Option Term)}
    (hm : Eval.Follows env n w m) : Eval.Follows env n (recalling rs w) (rs.recalling m) := by
  simp only [recalling, RuleSet.recalling]
  split
  · exact .pure none
  · refine .get fun c => ?_
    cases c.state.remembered? rs.path with
    | some value => exact .pure value
    | none =>
      refine hm.bind fun value => Eval.Follows.bind ?_ fun _ => .pure value
      refine ⟨fun c _ => rfl, fun c _ => ?_⟩
      exact ⟨.single (.remember rs.path value), rfl, rfl, fun _ he => by cases he⟩

theorem run_entering (rs : RuleSet) (w : Eval β) (c : Course) :
    (entering env rs w).run c =
      if c.state.inProgress.contains rs.name then
        (.error (.recursion (c.state.inProgress ++ [rs.name])), c.refuse (.recursion (c.state.inProgress ++ [rs.name])))
      else if env.options.maxDepth ≤ c.state.depth then
        (.error (.internal (.depthExceeded rs.name)), c.refuse (.internal (.depthExceeded rs.name)))
      else
        let r := w.run (c.go (c.state.entered rs.name))
        (r.1, r.2.go (c.state.exiting r.2.state)) := rfl

theorem follows_entering {rs : RuleSet} (hrs : rs ∈ env.policy.ruleSets) {w : Eval β} {m : PolicyEngine.Eval β}
    (hm : Eval.Follows env n w m) : Eval.Follows env (n + 1) (entering env rs w) (env.entering rs m) := by
  have hlevel : ∀ {c : Course}, c.state.AtLevel env (n + 1) → rs.name ∉ c.state.inProgress →
      (c.state.entered rs.name).AtLevel env n := by
    intro c hc hfree
    refine ⟨hc.nested.entered hrs hfree, ?_⟩
    have h := hc.level
    simp only [State.entered, List.length_append, List.length_singleton]
    omega
  constructor
  · intro c hc
    rw [Env.run_entering, run_entering]
    split
    · rfl
    · next hfree =>
      split
      · rfl
      · have h := hm.erases (c.go (c.state.entered rs.name)) (hlevel hc (by simpa using hfree))
        rw [state_go] at h
        simp only [Eval.run_inside, h]
        rfl
  · intro c hc
    rw [run_entering]
    split
    · next hmem =>
      refine ⟨.single (.refuseCircle (by simpa using hmem)), rfl, rfl, fun e he _ => ?_⟩
      cases he
      exact ⟨_, now_mem _, rfl⟩
    · next hfree =>
      have hfree : rs.name ∉ c.state.inProgress := by simpa using hfree
      split
      · next hdeep =>
        refine ⟨.single (.refuseDepth hrs hfree hdeep), rfl, rfl, fun e he _ => ?_⟩
        cases he
        exact ⟨_, now_mem _, rfl⟩
      · have h := hm.comes (c.go (c.state.entered rs.name)) (hlevel hc hfree)
        have hexit := State.exiting_eq h.inProgress h.depth
        dsimp only
        rw [hexit]
        have henter : c.Moves env (c.go (c.state.entered rs.name)) := .enter hrs hfree
        constructor
        · exact ((Relation.ReflTransGen.single henter).trans h.runs).tail (.leave h.inProgress h.depth)
        · exact congrArg (fun σ => Context.mk σ c.state.inProgress c.state.depth) (congrArg Context.scope h.context)
        · exact h.opened
        · exact fun e he hrefusal => (h.refused e he hrefusal).later fun m hm => List.mem_cons_of_mem _ hm

theorem follows_rulesTo (n : Nat) : RuleSemantics.Follows env n (rulesTo env n) (env.rulesTo n) := by
  induction n with
  | zero =>
    constructor
    · exact fun rs _ => ⟨fun c hc => absurd hc.pos (lt_irrefl 0), fun c hc => absurd hc.pos (lt_irrefl 0)⟩
    · exact fun rs _ args => ⟨fun c hc => absurd hc.pos (lt_irrefl 0), fun c hc => absurd hc.pos (lt_irrefl 0)⟩
  | succ n ih =>
    constructor
    · exact fun rs hrs => follows_recalling rs (follows_entering hrs (follows_evalDocument ih rs))
    · exact fun rs hrs args => follows_entering hrs (follows_evalFunction ih rs args)

theorem follows_rules : RuleSemantics.Follows env (env.policy.ruleSets.length + 1) (Course.rules env) env.rules :=
  follows_rulesTo _

/-! ## Queries -/

theorem follows_evalQuery (env : Env) (body : Body) (deliver : Solution → α → Reply × α) (c₀ : Course) :
    Search.Follows env (env.policy.ruleSets.length + 1) c₀ (evalQuery env body deliver)
      (env.evalQuery body deliver) := by
  refine .after (.step ?_) fun depth => ofBody follows_rules body c₀ (.leaf ?_)
  · exact .get fun s => (env.stays_emit _ _ _).bind fun _ => .pure _
  · exact .after (env.stays_emit _ _ _) fun _ found s => ⟨⟨rfl, rfl, rfl⟩, not_refusal_ok⟩

theorem follows_evalPath (env : Env) (path : DataPath) :
    Eval.Follows env (env.policy.ruleSets.length + 1) (evalPath env path) (env.evalPath path) :=
  follows_document follows_rules path

/-! ## Evaluations of an engine -/

/-- Nothing is in progress when an evaluation starts, and rules may be nested as deep as there are rule sets. -/
theorem atLevel_start (e : Engine) (env : Env) : e.start.AtLevel env (env.policy.ruleSets.length + 1) := by
  constructor
  · exact State.nested_of_empty rfl rfl
  · rw [show e.start.inProgress = [] from rfl, List.length_nil, Nat.zero_add]

variable (e : Engine) (policy : Policy) (txn : Transaction)

/-- The recorded evaluation of a query is its evaluation, and it goes by moves. -/
theorem evalQuery_recorded (body : Body) (deliver : Solution → α → Reply × α) (first : α) :
    let r := evalQuery (e.env policy txn) body deliver first (start e.start)
    (e.env policy txn).evalQuery body deliver first e.start = r.erase ∧
      (start e.start).Comes (e.env policy txn) r.outcome r.course := by
  have h := follows_evalQuery (e.env policy txn) body deliver (start e.start)
  have hlevel := atLevel_start e (e.env policy txn)
  exact ⟨h.erases first _ (.refl _ _) hlevel, h.comes first _ (.refl _ _) hlevel⟩

/-- The recorded evaluation of a document is its evaluation, and it goes by moves. -/
theorem evalPath_recorded (path : DataPath) :
    let r := (evalPath (e.env policy txn) path).run (start e.start)
    ((e.env policy txn).evalPath path).run e.start = (r.1, r.2.state) ∧
      (start e.start).Comes (e.env policy txn) r.1 r.2 := by
  have h := follows_evalPath (e.env policy txn) path
  have hlevel := atLevel_start e (e.env policy txn)
  exact ⟨h.erases (start e.start) hlevel, h.comes (start e.start) hlevel⟩

end Course
end PolicyEngine
