import PolicyEngine.Proofs.Ensuring
import PolicyEngine.Proofs.Plain

/-!
Clean states: no comprehension is in the environment, and the documents of the scope, the documents remembered and the
answers kept are plain. The primitive steps of an evaluation, the documents and the calls lead from clean states to
clean ones, and what they find is plain wherever it is ground. What built-ins leave with the host is left open: it may
be anything that calls with plain operands leave.
-/
namespace PolicyEngine

/-- The overrides in force hold plain values. -/
structure Scope.Plain (σ : Scope) : Prop where
  input : IfSome Term.Plain σ.input
  data : ∀ d ∈ σ.data, d.2.Plain
  values : ∀ f ∈ σ.functions, ∀ v, f.2 = .value v → v.Plain

structure State.Clean (seen : Host → Prop) (s : State) : Prop where
  bindings : s.bindings.Holds Term.ComprFree
  scope : s.scope.Plain
  memo : ∀ e ∈ s.memo, IfSome Term.Plain e.value
  answers : ∀ a ∈ s.answers, (∀ t ∈ a.operands, t.Plain) ∧ IfSome Term.Plain a.result
  host : seen s.host

/-- Stored documents are plain, built-ins answer plain operands with plain values, and such calls and the events of the
trace leave with the host only what is allowed there. -/
structure Env.Clean (seen : Host → Prop) (env : Env) : Prop where
  root : env.root.Plain
  builtins : ∀ b, env.registry.Callable b → ∀ context args host, (∀ t ∈ args, t.Plain) → seen host →
    seen (b.invoke context args host).2 ∧ ∀ v, (b.invoke context args host).1 = .ok (some v) → v.Plain
  events : ∀ event host, seen host → seen (host.emit event)

/-- From clean states a computation leads to clean ones, and to results with a property. -/
abbrev Eval.Yields (seen : Host → Prop) (p : β → Prop) (m : Eval β) : Prop := m.Ensures (State.Clean seen) p

/-- From clean states a search leads to clean ones, and what it accumulates keeps a property. -/
abbrev Search.Tidy (seen : Host → Prop) (A : α → Prop) (search : Search α) : Prop :=
  search.Ensures (State.Clean seen) A

variable {seen : Host → Prop}

namespace State.Clean

variable {s : State}

theorem setBindings (h : s.Clean seen) {b : Bindings} (hb : b.Holds Term.ComprFree) :
    { s with bindings := b }.Clean seen :=
  ⟨hb, h.scope, h.memo, h.answers, h.host⟩

theorem undo (h : s.Clean seen) (n : Nat) : { s with bindings := s.bindings.undo n }.Clean seen :=
  h.setBindings (h.bindings.undo n)

theorem setScope (h : s.Clean seen) {σ : Scope} (hσ : σ.Plain) : { s with scope := σ }.Clean seen :=
  ⟨h.bindings, hσ, h.memo, h.answers, h.host⟩

theorem openScope (h : s.Clean seen) {σ : Scope} (hσ : σ.Plain) : (s.openScope σ).Clean seen :=
  ⟨h.bindings, ⟨hσ.input, hσ.data, hσ.values⟩, h.memo, h.answers, h.host⟩

theorem closeScope (h : s.Clean seen) (id : Nat) {σ : Scope} (hσ : σ.Plain) : (s.closeScope id σ).Clean seen :=
  ⟨h.bindings, hσ, fun e he => h.memo e (List.mem_filter.1 he).1, h.answers, h.host⟩

theorem remember (h : s.Clean seen) (path : DataPath) {value : Option Term} (hv : IfSome Term.Plain value) :
    (s.remember path value).Clean seen :=
  ⟨h.bindings, h.scope, List.forall_mem_cons.2 ⟨hv, h.memo⟩, h.answers, h.host⟩

theorem remembered? (h : s.Clean seen) {path : DataPath} {value : Option Term}
    (hr : s.remembered? path = some value) : IfSome Term.Plain value := by
  obtain ⟨e, he, rfl⟩ := Option.map_eq_some_iff.1 hr
  exact h.memo e (List.mem_of_find?_eq_some he)

end State.Clean

/-! ## Combinators -/

theorem Eval.Yields.extending {β : Type} {p : β → Prop} {m : Eval β} {f : Bindings → Option Bindings}
    (hf : Bindings.Extends Term.ComprFree f) {b : β} (hb : p b) (hm : m.Yields seen p) :
    (Eval.extending f b m).Yields seen p := by
  intro s hs
  rw [Eval.run_extending]
  cases hext : f s.bindings with
  | none => exact ⟨hs, by rintro _ ⟨⟩; exact hb⟩
  | some c =>
    obtain ⟨hclean, hp⟩ := hm _ (hs.setBindings (hf _ _ hs.bindings hext).1)
    exact ⟨hclean.undo _, hp⟩

namespace Search.Tidy

variable {α : Type} {A : α → Prop}

theorem extending {f : Bindings → Option Bindings} (hf : Bindings.Extends Term.ComprFree f) {k : Search α}
    (hk : k.Tidy seen A) : (Search.extending f k).Tidy seen A := by
  intro found s hs hA
  rw [Search.extending]
  cases hext : f s.bindings with
  | none => exact ⟨hs, hA⟩
  | some b =>
    obtain ⟨hclean, hfound⟩ := hk found _ (hs.setBindings (hf _ _ hs.bindings hext).1) hA
    exact ⟨hclean.undo _, hfound⟩

theorem enclosed {σ : Scope} (hσ : σ.Plain) {k : Search α} (hk : k.Tidy seen A) :
    (Coupling.enclosed σ k).Tidy seen A := by
  intro found s hs hA
  obtain ⟨hend, hfound⟩ := hk found _ (hs.setScope hσ) hA
  exact ⟨hend.setScope hs.scope, hfound⟩

theorem inScope {σ : Scope} (hσ : σ.Plain) {search : Search α → Search α} {k : Search α}
    (hs : ∀ τ : Scope, τ.Plain → (search (Coupling.enclosed τ k)).Tidy seen A) :
    (Search.inScope σ search k).Tidy seen A := by
  intro found s hclean hA
  obtain ⟨hend, hfound⟩ := hs s.scope hclean.scope found _ (hclean.openScope hσ) hA
  exact ⟨hend.closeScope _ hclean.scope, hfound⟩

end Search.Tidy

/-- In clean states a term without comprehensions is plain once it is ground. -/
theorem State.Clean.plugs : Search.Plugs (State.Clean seen) Term.ComprFree Term.Plain := fun _ _ hs ht =>
  (hs.bindings.plug Term.pervasive_comprFree ht).plain

/-! ## Primitive steps -/

namespace Env

variable {env : Env}

theorem yields_checkpoint (env : Env) : env.checkpoint.Yields seen fun _ => True := by
  intro s hs
  obtain ⟨timer, clock, h⟩ := env.state_checkpoint s
  rw [h]
  exact ⟨⟨hs.bindings, hs.scope, hs.memo, hs.answers, hs.host⟩, fun _ _ => trivial⟩

theorem Clean.yields_emit (h : env.Clean seen) (op : TraceOp) (depth : Nat) (text : Unit → String) :
    (env.emit op depth text).Yields seen fun _ => True := by
  intro s hs
  rw [env.run_emit]
  split
  · exact ⟨⟨hs.bindings, hs.scope, hs.memo, hs.answers, h.events _ _ hs.host⟩, fun _ _ => trivial⟩
  · exact ⟨hs, fun _ _ => trivial⟩

theorem Clean.yields_read (h : env.Clean seen) (path : StorePath) :
    (env.read path).Yields seen (IfSome Term.Plain) := by
  intro s hs
  rw [env.run_read]
  refine ⟨⟨hs.bindings, hs.scope, hs.memo, hs.answers, hs.host⟩, fun r hr t ht => ?_⟩
  dsimp only at hr
  split at hr <;> cases hr
  exact Term.hereditary_plain.at? h.root ht

theorem Clean.yields_listKeys (h : env.Clean seen) (path : StorePath) :
    (env.listKeys path).Yields seen (IfSome fun ts => ∀ t ∈ ts, t.Plain) := by
  intro s hs
  rw [env.run_listKeys]
  refine ⟨⟨hs.bindings, hs.scope, hs.memo, hs.answers, hs.host⟩, fun r hr ts hts => ?_⟩
  dsimp only at hr
  split at hr <;> cases hr
  obtain ⟨doc, hdoc, hkeys⟩ := Option.bind_eq_some_iff.1 hts
  exact Term.hereditary_plain.childKeys? (Term.hereditary_plain.at? h.root hdoc) hkeys

theorem Clean.yields_runBuiltin (h : env.Clean seen) {b : Builtin} (hb : env.registry.Callable b) {args : List Term}
    (hargs : ∀ t ∈ args, t.Plain) : (env.runBuiltin b args).Yields seen (IfSome Term.Plain) := by
  intro s hs
  obtain ⟨hhost, hvalue⟩ := h.builtins b hb ⟨b.name, env.time, s.depth, env.options.tracing⟩ args s.host hargs hs.host
  rw [run_runBuiltin]
  refine ⟨⟨hs.bindings, hs.scope, hs.memo, hs.answers, hhost⟩, fun r hr v hv => ?_⟩
  subst hv
  dsimp only at hr
  cases hresult : (b.invoke ⟨b.name, env.time, s.depth, env.options.tracing⟩ args s.host).1 with
  | ok value =>
    rw [hresult] at hr
    cases hr
    exact hvalue v hresult
  | error e =>
    rw [hresult] at hr
    simp only [builtinResult, failedCall] at hr
    split at hr
    · cases hr
      exact .scalar rfl
    · split at hr <;> cases hr

/-- A built-in is run for plain operands only. -/
theorem Clean.yields_callBuiltin (h : env.Clean seen) {b : Builtin} (hb : env.registry.Callable b) {args : List Term}
    (hargs : ∀ t ∈ args, t.ComprFree) : (env.callBuiltin b args).Yields seen (IfSome Term.Plain) := by
  intro s hs
  rw [run_callBuiltin]
  cases hrefusal : refusal? b args with
  | some r =>
    refine ⟨hs, fun answer hanswer => ?_⟩
    rw [eq_none_of_refusal (hrefusal.trans (congrArg some hanswer))]
    exact ifSome_none
  | none =>
    have hplain : ∀ t ∈ args, t.Plain := fun t ht => (hargs t ht).plain (List.all_eq_true.1 (ground_of_refusal hrefusal) t ht)
    have hrun := h.yields_runBuiltin hb hplain s hs
    dsimp only
    split
    · exact hrun
    · split
      · next answer hanswer =>
        obtain ⟨a, ha, rfl⟩ := Option.map_eq_some_iff.1 hanswer
        refine ⟨hs, fun _ hr => ?_⟩
        cases hr
        exact (hs.answers a (List.mem_of_find?_eq_some ha)).2
      · generalize (env.runBuiltin b args).run s = r at hrun ⊢
        rcases r with ⟨e | answer, s₁⟩
        · exact ⟨hrun.1, nofun⟩
        · have hanswer := hrun.2 answer rfl
          refine ⟨⟨hrun.1.bindings, hrun.1.scope, hrun.1.memo, ?_, hrun.1.host⟩, fun _ hr => ?_⟩
          · exact List.forall_mem_cons.2 ⟨⟨hplain, hanswer⟩, hrun.1.answers⟩
          · cases hr
            exact hanswer

end Env

/-! ## Documents -/

theorem yields_setIn {value doc : Term} (hv : value.Plain) (hd : doc.Plain) (path : List String) :
    (setIn value doc path).Yields seen Term.Plain := by
  refine .ofExcept fun t ht => ?_
  cases hset : Term.setPath value doc path with
  | error e =>
    rw [hset] at ht
    cases ht
  | ok u =>
    rw [hset] at ht
    cases ht
    exact Term.hereditary_plain.setPath hv hd hset

theorem Env.yields_layOverrides (path : DataPath) {overrides : List (DataPath × Term)} {doc : Option Term}
    (ho : ∀ d ∈ overrides, d.2.Plain) (hd : IfSome Term.Plain doc) :
    (Env.layOverrides path overrides doc).Yields seen (IfSome Term.Plain) := by
  induction overrides generalizing doc with
  | nil => exact .pure hd
  | cons d rest ih =>
    obtain ⟨p, value⟩ := d
    rw [List.forall_mem_cons] at ho
    refine (yields_setIn ho.1 ?_ _).bind fun doc hdoc => ih ho.2 (ifSome_some hdoc)
    cases doc with
    | none => exact Term.hereditary_plain.emptyObject
    | some t => exact hd t rfl

/-- Documents of rules are plain, and functions defined by rules answer plain operands with plain values. -/
structure RuleSemantics.Plain (seen : Host → Prop) (policy : Policy) (rules : RuleSemantics) : Prop where
  document : ∀ rs ∈ policy.ruleSets, (rules.document rs).Yields seen (IfSome Term.Plain)
  function : ∀ rs ∈ policy.ruleSets, ∀ args : List Term, (∀ t ∈ args, t.Plain) →
    (rules.function rs args).Yields seen (IfSome Term.Plain)

namespace Env.Clean

variable {env : Env} {rules : RuleSemantics}

theorem yields_layRules (hr : rules.Plain seen env.policy) (path : DataPath) {sets : List RuleSet} {doc : Term}
    (hsets : ∀ rs ∈ sets, rs ∈ env.policy.ruleSets) (hd : doc.Plain) :
    (Env.layRules rules path sets doc).Yields seen Term.Plain := by
  induction sets generalizing doc with
  | nil => exact .pure hd
  | cons rs rest ih =>
    rw [List.forall_mem_cons] at hsets
    simp only [Env.layRules]
    split
    · exact ih hsets.2 hd
    · refine (hr.document rs hsets.1).bind fun value hvalue => ?_
      cases value with
      | none => exact ih hsets.2 hd
      | some value => exact (yields_setIn (hvalue value rfl) hd _).bind fun doc hdoc => ih hsets.2 hdoc

theorem yields_baseDocument (h : env.Clean seen) (hr : rules.Plain seen env.policy) (path : DataPath) :
    (env.baseDocument rules path).Yields seen (IfSome Term.Plain) := by
  simp only [Env.baseDocument]
  split
  · next rs hc =>
    refine (hr.document rs (Coupling.mem_of_coveringUpTo hc)).bind fun doc hdoc => .pure fun t ht => ?_
    obtain ⟨d, hd, ht⟩ := Option.bind_eq_some_iff.1 ht
    exact Term.hereditary_plain.lookupKeys (hdoc d hd) ht
  · refine (h.yields_read _).bind fun stored hstored => ?_
    split
    · exact .pure hstored
    · refine (yields_layRules hr path (fun rs hmem => Coupling.mem_of_mem_below hmem) ?_).bind
        fun doc hdoc => .pure (ifSome_some hdoc)
      split
      · exact hstored _ rfl
      · exact Term.hereditary_plain.emptyObject

theorem yields_document (h : env.Clean seen) (hr : rules.Plain seen env.policy) (path : DataPath) :
    (env.document rules path).Yields seen (IfSome Term.Plain) := by
  refine .get fun s hs => ?_
  dsimp only
  split
  · next doc later hc =>
    obtain ⟨hdoc, hlater⟩ := Term.hereditary_plain.covering? hc hs.scope.data
    exact yields_layOverrides path (fun d hd => hlater d (List.mem_filter.1 hd).1) hdoc
  · refine (h.yields_baseDocument hr path).bind fun doc hdoc => ?_
    exact yields_layOverrides path (fun d hd => hs.scope.data d (List.mem_filter.1 hd).1) hdoc

end Env.Clean

/-! ## References -/

/-- No comprehension is in what a cursor holds. -/
def Cursor.ComprFree : Cursor → Prop
  | .value v => v.ComprFree
  | .child _ _ key => key.ComprFree
  | .data _ => True

def Footing.ComprFree : Footing → Prop
  | .value v => v.ComprFree
  | .stored _ | .data _ => True

theorem Env.yields_rootCursor (name : String) : (Env.rootCursor name).Yields seen (IfSome Cursor.ComprFree) := by
  simp only [Env.rootCursor]
  split
  · refine .get fun s hs => .pure fun c hc => ?_
    obtain ⟨t, ht, rfl⟩ := Option.map_eq_some_iff.1 hc
    exact (hs.scope.input t ht).comprFree
  · exact .pure (ifSome_some trivial)

namespace Env.Clean

variable {env : Env} {rules : RuleSemantics}

theorem yields_arrive (h : env.Clean seen) (hr : rules.Plain seen env.policy) {c : Cursor} (hc : c.ComprFree) :
    (env.arrive rules c).Yields seen (IfSome Term.ComprFree) := by
  cases c with
  | value v => exact .pure (ifSome_some hc)
  | data path => exact (h.yields_document hr path).mono fun doc hdoc t ht => (hdoc t ht).comprFree
  | child parent segment key =>
    simp only [Env.arrive]
    refine (h.yields_read _).bind fun found hfound => ?_
    split
    · exact .pure fun t ht => (hfound t ht).comprFree
    · refine (h.yields_read _).bind fun found _ => ?_
      split
      · refine .pure fun t ht => ?_
        split at ht <;> cases ht
        exact hc
      · exact .pure ifSome_none

theorem yields_settle (h : env.Clean seen) (hr : rules.Plain seen env.policy) (operand : Term) {c : Cursor}
    (hc : c.ComprFree) : (env.settle rules operand c).Yields seen (IfSome Footing.ComprFree) := by
  cases c with
  | value v => exact .pure (ifSome_some hc)
  | child parent segment key => exact .pure (ifSome_some trivial)
  | data path =>
    have hwhole : (do return (← env.document rules path).map Footing.value : Eval (Option Footing)).Yields seen
        (IfSome Footing.ComprFree) := by
      refine (h.yields_document hr path).bind fun doc hdoc => .pure fun f hf => ?_
      obtain ⟨t, ht, rfl⟩ := Option.map_eq_some_iff.1 hf
      exact (hdoc t ht).comprFree
    refine .get fun s _ => ?_
    dsimp only
    split
    · split
      · exact hwhole
      · exact .pure (ifSome_some trivial)
    · split
      · exact hwhole
      · split
        · exact .pure (ifSome_some trivial)
        · exact hwhole

end Env.Clean

/-! ## Calls -/

/-- What a call runs belongs to the registry or to the policy, or is plain. -/
def Callee.Clean (env : Env) : Callee → Prop
  | .builtin b => env.registry.Callable b
  | .rules rs => rs ∈ env.policy.ruleSets
  | .constant v => v.Plain

namespace Env

variable {env : Env} {rules : RuleSemantics}

theorem yields_function (env : Env) (name : String) :
    (Eval.ofExcept (env.function name)).Yields seen fun r => r.1.Clean env := by
  refine .ofExcept fun (callee, arity) hf => ?_
  rcases Coupling.function_cases hf with ⟨b, rfl, hb⟩ | ⟨rs, rfl, hrs⟩
  · exact hb
  · exact hrs

theorem yields_resolveFunction (env : Env) (name : String) :
    (env.resolveFunction name).Yields seen fun r => r.1.Clean env := by
  refine (env.yields_function name).bind fun found hfound => .get fun s hs => ?_
  split
  · exact .pure hfound
  · next v hv =>
    obtain ⟨f, hf, hfv⟩ := Option.map_eq_some_iff.1 hv
    exact .pure (hs.scope.values f (List.mem_of_find?_eq_some hf) v hfv)
  · next target _ => exact (env.yields_function target).bind fun r hr => .pure hr

/-- Built-ins and functions are called with plain operands, and what a call answers is plain. -/
theorem Clean.yields_apply (h : env.Clean seen) (hr : rules.Plain seen env.policy) {callee : Callee} {args : List Term}
    (hc : callee.Clean env) (ha : ∀ t ∈ args, t.ComprFree) :
    (env.apply rules callee args).Yields seen (IfSome Term.Plain) := by
  cases callee with
  | builtin b => exact h.yields_callBuiltin hc ha
  | rules rs =>
    simp only [apply]
    split
    · next hground => exact hr.function rs hc args fun t ht => (ha t ht).plain (List.all_eq_true.1 hground t ht)
    · exact .pure ifSome_none
  | constant v => exact .pure (ifSome_some hc)

end Env

theorem Scope.Plain.mock {σ : Scope} (h : σ.Plain) (name : String) {m : Mock} (hm : ∀ v, m = .value v → v.Plain) :
    (σ.mock name m).Plain :=
  ⟨h.input, h.data, List.forall_mem_cons.2 ⟨hm, h.values⟩⟩

theorem Scope.Plain.yields_override {σ : Scope} (h : σ.Plain) (target : Env.OverrideTarget) {value : Term}
    (hv : value.Plain) : (σ.override target value).Yields seen Scope.Plain := by
  cases target with
  | input path =>
    refine (yields_setIn hv ?_ path).bind fun doc hdoc => .pure ⟨ifSome_some hdoc, h.data, h.values⟩
    cases hi : σ.input with
    | none => exact Term.hereditary_plain.emptyObject
    | some t => exact h.input t hi
  | data path =>
    refine .pure ⟨h.input, fun d hd => ?_, h.values⟩
    rcases List.mem_append.1 hd with hd | hd
    · exact h.data d hd
    · exact List.mem_singleton.1 hd ▸ hv
  | function name =>
    refine .pure (h.mock name fun v hm => ?_)
    cases hm
    exact hv

end PolicyEngine
