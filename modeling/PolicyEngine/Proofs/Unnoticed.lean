import PolicyEngine.Proofs.Bystander

/-!
Evaluation takes no notice of bystanders. If the rules of the policy ignore a bystander, then so do the documents, the
calls, the searches for the values of terms in which it does not occur and those for the environments of such bodies.
Ideal rules are evaluated in environments of their own, so they ignore all bystanders.
-/
namespace PolicyEngine

theorem Term.ProperAll.proper {p : String → Prop} {o : Term → Prop} {ts : List Term} (h : Term.ProperAll p o ts)
    {t : Term} (ht : t ∈ ts) : t.Proper p o := by
  induction ts with
  | nil => cases ht
  | cons first rest ih =>
    rcases List.mem_cons.1 ht with rfl | ht
    · exact h.1
    · exact ih h.2 ht

namespace Bystander

variable {B : Bystander} {rules : RuleSemantics} {α : Type} {R : α → α → Prop}

/-! ## Documents -/

theorem ignores_setIn {value doc : Term} (path : List String) (hvalue : value.VarsIn B.others)
    (hdoc : doc.VarsIn B.others) : (setIn value doc path).Ignores B (Term.VarsIn B.others) := by
  refine .ofExcept fun t ht => ?_
  cases hset : Term.setPath value doc path with
  | error e =>
    rw [hset] at ht
    cases ht
  | ok u =>
    rw [hset] at ht
    cases ht
    exact hvalue.setPath hdoc hset

theorem ignores_layOverrides (path : DataPath) {overrides : List (DataPath × Term)} {doc : Option Term}
    (ho : ∀ d ∈ overrides, d.2.VarsIn B.others) (hdoc : IfSome (Term.VarsIn B.others) doc) :
    (Env.layOverrides path overrides doc).Ignores B (IfSome (Term.VarsIn B.others)) := by
  induction overrides generalizing doc with
  | nil => exact .pure hdoc
  | cons d rest ih =>
    obtain ⟨p, value⟩ := d
    rw [List.forall_mem_cons] at ho
    refine (ignores_setIn _ ho.1 ?_).bind fun doc hdoc => ih ho.2 (ifSome_some hdoc)
    cases doc with
    | none => exact .of_isGround rfl
    | some t => exact hdoc t rfl

theorem Ignored.layRules (h : Ignored B rules) (path : DataPath) {sets : List RuleSet} {doc : Term}
    (hsets : ∀ rs ∈ sets, rs ∈ B.env.policy.ruleSets) (hdoc : doc.VarsIn B.others) :
    (Env.layRules rules path sets doc).Ignores B (Term.VarsIn B.others) := by
  induction sets generalizing doc with
  | nil => exact .pure hdoc
  | cons rs rest ih =>
    rw [List.forall_mem_cons] at hsets
    rw [Env.layRules]
    split
    · exact ih hsets.2 hdoc
    · refine (h.document rs hsets.1).bind fun value hvalue => ?_
      cases value with
      | none => exact ih hsets.2 hdoc
      | some value => exact (ignores_setIn _ (hvalue value rfl) hdoc).bind fun _ hdoc => ih hsets.2 hdoc

theorem Ignored.baseDocument (h : Ignored B rules) (path : DataPath) :
    (B.env.baseDocument rules path).Ignores B (IfSome (Term.VarsIn B.others)) := by
  rw [Env.baseDocument]
  split
  · next rs hcovers =>
    refine (h.document rs (Coupling.mem_of_coveringUpTo hcovers)).bind fun doc hdoc => .pure fun t ht => ?_
    obtain ⟨d, hd, ht⟩ := Option.bind_eq_some_iff.1 ht
    exact (hdoc d hd).lookupKeys ht
  · refine (h.ignores_read _).bind fun stored hstored => ?_
    split
    · exact .pure hstored
    · refine (h.layRules path (fun rs hmem => Coupling.mem_of_mem_below hmem) ?_).bind fun doc hdoc =>
        .pure (ifSome_some hdoc)
      split
      · exact hstored _ rfl
      · exact .of_isGround rfl

theorem Ignored.documentUnder (h : Ignored B rules) (path : DataPath) {overrides : List (DataPath × Term)}
    (ho : ∀ d ∈ overrides, d.2.VarsIn B.others) :
    (Coupling.documentUnder B.env rules path overrides).Ignores B (IfSome (Term.VarsIn B.others)) := by
  rw [Coupling.documentUnder]
  split
  · next doc later hcovers =>
    obtain ⟨hdoc, hlater⟩ := Term.pervasive_varsIn.covering? hcovers ho
    exact ignores_layOverrides path (fun d hd => hlater d (List.mem_filter.1 hd).1) hdoc
  · refine (h.baseDocument path).bind fun doc hdoc => ?_
    exact ignores_layOverrides path (fun d hd => ho d (List.mem_filter.1 hd).1) hdoc

theorem Ignored.ignores_document (h : Ignored B rules) (path : DataPath) :
    (B.env.document rules path).Ignores B (IfSome (Term.VarsIn B.others)) :=
  .get (fun _ _ _ => rfl) fun _ hs => h.documentUnder path hs.scope.data

/-! ## References -/

theorem ignores_rootCursor (name : String) :
    (Env.rootCursor name).Ignores B (IfSome (Coupling.CursorIn B.others)) := by
  rw [Env.rootCursor]
  split
  · refine .get (fun _ _ _ => rfl) fun s hs => .pure fun c hc => ?_
    obtain ⟨t, ht, rfl⟩ := Option.map_eq_some_iff.1 hc
    exact hs.scope.input t ht
  · exact .pure (ifSome_some trivial)

theorem Ignored.arrive (h : Ignored B rules) {c : Cursor} (hc : Coupling.CursorIn B.others c) :
    (B.env.arrive rules c).Ignores B (IfSome (Term.VarsIn B.others)) := by
  cases c with
  | value v => exact .pure (ifSome_some hc)
  | data path => exact h.ignores_document path
  | child parent segment key =>
    refine (h.ignores_read _).bind fun found hfound => ?_
    cases found with
    | some v => exact .pure hfound
    | none =>
      refine (h.ignores_read _).bind fun found hfound => ?_
      split
      · refine .pure ?_
        split
        · exact ifSome_some hc
        · exact ifSome_none
      · exact .pure ifSome_none

theorem Ignored.settle (h : Ignored B rules) {operand : Term} {o : Term → Prop}
    (hoperand : operand.Proper B.others o) {c : Cursor} (hc : Coupling.CursorIn B.others c) :
    (B.env.settle rules operand c).Ignores B (IfSome (Coupling.FootingIn B.others)) := by
  cases c with
  | value v => exact .pure (ifSome_some hc)
  | child parent segment key => exact .pure (ifSome_some trivial)
  | data path =>
    have hwhole : (do return (← B.env.document rules path).map Footing.value : Eval (Option Footing)).Ignores B
        (IfSome (Coupling.FootingIn B.others)) := by
      refine (h.ignores_document path).bind fun doc hdoc => .pure fun f hf => ?_
      obtain ⟨t, ht, rfl⟩ := Option.map_eq_some_iff.1 hf
      exact hdoc t ht
    have hsettle : ∀ touched t, (Coupling.settleUnder B.env rules path (touched, t)).Ignores B
        (IfSome (Coupling.FootingIn B.others)) := by
      intro touched t
      rw [Coupling.settleUnder]
      split
      · split
        · exact hwhole
        · exact .pure (ifSome_some trivial)
      · split
        · exact hwhole
        · split
          · exact .pure (ifSome_some trivial)
          · exact hwhole
    -- only whether the operand is a string matters, and which one
    have hsame : ∀ touched (b b' : Bindings), b.Beside B.others B.name B.value b' →
        Coupling.settleUnder B.env rules path (touched, b'.plug operand) =
          Coupling.settleUnder B.env rules path (touched, b.plug operand) := by
      intro touched b b' hb
      have hstring : ∀ text, b'.plug operand = .string text ↔ b.plug operand = .string text := fun text =>
        hb.plug_eq_string_iff fun y hy => h.kind_of_proper (hy ▸ hoperand)
      by_cases hplugged : ∃ text, b.plug operand = .string text
      · obtain ⟨text, htext⟩ := hplugged
        rw [htext, (hstring text).2 htext]
      · have hother : ∀ text, b.plug operand ≠ .string text := fun text htext => hplugged ⟨text, htext⟩
        have hother' : ∀ text, b'.plug operand ≠ .string text := fun text htext => hother text ((hstring text).1 htext)
        simp only [Coupling.settleUnder]
    exact .get (fun s b' hb => hsame (s.scope.touches path) s.bindings b' hb) fun s _ => hsettle _ _

/-! ## Calls -/

/-- What a call runs belongs to the policy or to the registry, or has only the other variables. -/
def CalleeIn (B : Bystander) : Callee → Prop
  | .builtin b => B.env.registry.Callable b
  | .rules rs => rs ∈ B.env.policy.ruleSets
  | .constant v => v.VarsIn B.others

theorem ignores_function (name : String) :
    (Eval.ofExcept (B.env.function name)).Ignores B fun r => CalleeIn B r.1 := by
  refine .ofExcept fun r hr => ?_
  obtain ⟨callee, arity⟩ := r
  rcases Coupling.function_cases hr with ⟨b, rfl, hb⟩ | ⟨rs, rfl, hrs⟩
  · exact hb
  · exact hrs

theorem ignores_resolveFunction (name : String) :
    (B.env.resolveFunction name).Ignores B fun r => CalleeIn B r.1 := by
  refine (ignores_function name).bind fun found hfound => .get (fun _ _ _ => rfl) fun s hs => ?_
  split
  · exact .pure hfound
  · next v hv =>
    obtain ⟨f, hf, hfv⟩ := Option.map_eq_some_iff.1 hv
    exact .pure (hs.scope.values f (List.mem_of_find?_eq_some hf) v hfv)
  · exact (ignores_function _).bind fun r hr => .pure hr

theorem Ignored.apply (h : Ignored B rules) {callee : Callee} (hcallee : CalleeIn B callee) (args : List Term) :
    (B.env.apply rules callee args).Ignores B (IfSome (Term.VarsIn B.others)) := by
  cases callee with
  | builtin b => exact h.ignores_callBuiltin hcallee args
  | rules rs =>
    rw [Env.apply]
    split
    · exact h.function rs hcallee args
    · exact .pure ifSome_none
  | constant v => exact .pure (ifSome_some hcallee)

theorem ignores_override {target : Env.OverrideTarget} {value : Term} {σ : Scope} (hvalue : value.VarsIn B.others)
    (hσ : σ.VarsIn B.others fun _ => True) :
    (σ.override target value).Ignores B fun τ => τ.VarsIn B.others fun _ => True := by
  cases target with
  | input path =>
    refine (ignores_setIn path hvalue ?_).bind fun doc hdoc =>
      .pure ⟨ifSome_some hdoc, hσ.data, hσ.functions, hσ.values⟩
    cases hinput : σ.input with
    | none => exact .of_isGround rfl
    | some t => exact hσ.input t hinput
  | data path =>
    refine .pure ⟨hσ.input, fun d hd => ?_, hσ.functions, hσ.values⟩
    rcases List.mem_append.1 hd with hd | hd
    · exact hσ.data d hd
    · exact List.mem_singleton.1 hd ▸ hvalue
  | function name => exact .pure (Coupling.varsIn_mock hσ trivial fun v hv => Mock.value.inj hv ▸ hvalue)

/-! ## Terms and bodies -/

theorem ignores_entry {op : TraceOp} (text : Unit → String) :
    (do
      B.env.checkpoint
      let depth := (← get).depth
      B.env.emit op depth text
      pure depth : Eval Nat).Ignores B fun _ => True := by
  refine (ignores_checkpoint B).bind fun _ _ => .get (fun _ _ _ => rfl) fun s _ => ?_
  exact (ignores_emit B op s.depth text).bind fun _ _ => .pure trivial

/-- The search for the values of a term without the bystander ignores it, if its continuation does. -/
def TermIgnored (B : Bystander) (rules : RuleSemantics) (t : Term) : Prop :=
  ∀ {α : Type} {R : α → α → Prop} {k : Term → Search α}, t.Proper B.others (fun _ => True) →
    (∀ v : Term, v.VarsIn B.others → (k v).Ignores B R) → (B.env.evalTerm rules t k).Ignores B R

/-- The same of a term and, since calls are also evaluated as expressions, of the arguments of a call. -/
def TermsIgnored (B : Bystander) (rules : RuleSemantics) (t : Term) : Prop :=
  TermIgnored B rules t ∧
    ∀ operator arguments, t = .call operator arguments → ∀ a ∈ arguments, TermIgnored B rules a

def BodyIgnored (B : Bystander) (rules : RuleSemantics) (body : Body) : Prop :=
  ∀ {α : Type} {R : α → α → Prop} {k : Search α}, Expr.ProperBody B.others (fun _ => True) body →
    k.Ignores B R → (B.env.evalBody rules body k).Ignores B R

def KindIgnored (B : Bystander) (rules : RuleSemantics) (kind : ExprKind) : Prop :=
  ∀ {α : Type} {R : α → α → Prop} {k : Search α}, kind.Proper B.others (fun _ => True) →
    k.Ignores B R → (B.env.evalKind rules kind k).Ignores B R

def ExprIgnored (B : Bystander) (rules : RuleSemantics) (e : Expr) : Prop :=
  ∀ {α : Type} {R : α → α → Prop} {k : Search α}, e.Proper B.others (fun _ => True) →
    k.Ignores B R → (B.env.evalExpr rules e k).Ignores B R

theorem TermsIgnored.of_not_call {t : Term} (ht : TermIgnored B rules t)
    (hn : ∀ operator arguments, t ≠ .call operator arguments) : TermsIgnored B rules t :=
  ⟨ht, fun operator arguments he => absurd he (hn operator arguments)⟩

/-! ### Lists of terms -/

theorem ignores_evalTerms {ts : List Term} (hts : ∀ t ∈ ts, TermIgnored B rules t) {k : List Term → Search α}
    (hp : Term.ProperAll B.others (fun _ => True) ts)
    (hk : ∀ vs : List Term, (∀ v ∈ vs, v.VarsIn B.others) → (k vs).Ignores B R) :
    (B.env.evalTerms rules ts k).Ignores B R := by
  induction ts generalizing k with
  | nil =>
    rw [Env.evalTerms]
    exact hk [] (List.forall_mem_nil _)
  | cons t rest ih =>
    rw [List.forall_mem_cons] at hts
    rw [Env.evalTerms]
    refine hts.1 hp.1 fun v hv => ih hts.2 hp.2 fun vs hvs => ?_
    exact hk _ (List.forall_mem_cons.2 ⟨hv, hvs⟩)

theorem ignores_evalFields {fs : List (Term × Term)}
    (hfs : ∀ f ∈ fs, TermIgnored B rules f.1 ∧ TermIgnored B rules f.2) {k : List (Term × Term) → Search α}
    (hp : Term.ProperFields B.others (fun _ => True) fs)
    (hk : ∀ fs, Coupling.FieldsIn B.others fs → (k fs).Ignores B R) :
    (B.env.evalFields rules fs k).Ignores B R := by
  induction fs generalizing k with
  | nil =>
    rw [Env.evalFields]
    exact hk [] (List.forall_mem_nil _)
  | cons f rest ih =>
    obtain ⟨key, value⟩ := f
    rw [List.forall_mem_cons] at hfs
    rw [Env.evalFields]
    refine hfs.1.1 hp.1 fun x hx => hfs.1.2 hp.2.1 fun y hy => ih hfs.2 hp.2.2 fun fs hfs => ?_
    exact hk _ (List.forall_mem_cons.2 ⟨⟨hx, hy⟩, hfs⟩)

/-- What is found on a walk without the bystander does not depend on it. -/
theorem Ignored.walk (h : Ignored B rules) {operands : List Term} (hts : ∀ t ∈ operands, TermIgnored B rules t)
    {c : Cursor} {k : Term → Search α} (hp : Term.ProperAll B.others (fun _ => True) operands)
    (hc : Coupling.CursorIn B.others c) (hk : ∀ v : Term, v.VarsIn B.others → (k v).Ignores B R) :
    (B.env.walk rules c operands k).Ignores B R := by
  induction operands generalizing c with
  | nil =>
    rw [Env.walk]
    exact .afterSome (h.arrive hc) hk
  | cons operand rest ih =>
    rw [List.forall_mem_cons] at hts
    have hrest : ∀ {c : Cursor}, Coupling.CursorIn B.others c → (B.env.walk rules c rest k).Ignores B R :=
      fun hc => ih hts.2 hp.2 hc
    rw [Env.walk]
    refine Search.Ignores.afterSome (h.settle hp.1 hc) fun footing hfooting => ?_
    cases footing with
    | data path => exact hrest trivial
    | value v =>
      have hv : v.VarsIn B.others := hfooting
      refine hts.1 hp.1 fun key hkey => .withBindings (fun b b' hb => by rw [hb.plug hkey]) fun b hb => ?_
      have hplugged : (b.plug key).VarsIn B.others := hb.plug hkey
      dsimp only
      split
      · split
        · next u hu => exact hrest (hv.lookup hu)
        · exact .exhausted
      · refine .each fun entry hentry => .after (ignores_checkpoint B) fun _ _ => ?_
        exact .unifying hplugged (hv.entries hentry).1 (hrest (hv.entries hentry).2)
    | stored path =>
      refine hts.1 hp.1 fun key hkey => .withBindings (fun b b' hb => by rw [hb.plug hkey]) fun b hb => ?_
      have hplugged : (b.plug key).VarsIn B.others := hb.plug hkey
      dsimp only
      split
      · split
        · exact hrest hplugged
        · refine .afterSome ((h.ignores_read path).bind fun doc hdoc => .pure fun u hu => ?_) fun u hu => hrest hu
          obtain ⟨t, ht, hu⟩ := Option.bind_eq_some_iff.1 hu
          exact (hdoc t ht).lookup hu
      · refine .afterSome (h.ignores_listKeys path) fun names hnames => .each fun name hname =>
          .after (ignores_checkpoint B) fun _ _ => .unifying hplugged (hnames name hname) ?_
        split
        · exact hrest (hnames name hname)
        · exact hrest (hnames name hname)

theorem Ignored.evalCall (h : Ignored B rules) {arguments : List Term}
    (hts : ∀ t ∈ arguments, TermIgnored B rules t) {callee : Callee}
    {output : Option Nat} {operands : List Term} {k : Term → Search α} {done : Search α}
    (hcallee : CalleeIn B callee) (hp : Term.ProperAll B.others (fun _ => True) arguments)
    (hk : ∀ v : Term, v.VarsIn B.others → (k v).Ignores B R) (hdone : done.Ignores B R) :
    (B.env.evalCall rules callee output arguments operands k done).Ignores B R := by
  induction arguments generalizing operands with
  | nil =>
    rw [Env.evalCall]
    exact .afterSome (h.apply hcallee _) hk
  | cons t rest ih =>
    rw [List.forall_mem_cons] at hts
    rw [Env.evalCall]
    split
    · exact .afterSome (h.apply hcallee _) fun result hresult => hts.1 hp.1 fun v hv => .unifying hv hresult hdone
    · split
      · refine .after (p := fun _ => True) (Search.Ignores.gather (p := fun _ => True) ?_ trivial)
          fun values _ => ih hts.2 hp.2
        refine hts.1 hp.1 fun v hv => .ground hv fun t _ => .collect ?_
        rintro members _ ⟨rfl, _⟩
        exact ⟨rfl, trivial⟩
      · exact hts.1 hp.1 fun v _ => ih hts.2 hp.2

/-! ### Terms -/

theorem Ignored.term_var (h : Ignored B rules) (x : String) : TermIgnored B rules (.var x) := by
  intro α R k hp hk
  have hx : (Term.var x).VarsIn B.others := Term.varsIn_var.2 (h.kind_of_proper hp)
  rw [Env.evalTerm]
  refine .withBindings (fun b b' hb => ?_) fun b hb => ?_
  · rw [hb.deref hx]
    split
    · rfl
    · next v _ => rw [hb.plug (hb.closed.deref hx)]
  · have hderef : (b.deref (.var x)).VarsIn B.others := hb.deref hx
    split
    · next y hy =>
      rw [hy] at hderef
      split
      · exact .afterSome (ignores_rootCursor y) fun c hc => .afterSome (h.arrive hc) hk
      · exact hk _ hderef
    · exact hk _ (hb.plug hderef)

theorem Ignored.term_ref (h : Ignored B rules) {head : Term} {operands : List Term} (hh : TermIgnored B rules head)
    (hts : ∀ t ∈ operands, TermIgnored B rules t) : TermIgnored B rules (.ref head operands) := by
  intro α R k hp hk
  have hwalk : ∀ {c : Cursor}, Coupling.CursorIn B.others c → (B.env.walk rules c operands k).Ignores B R :=
    fun hc => h.walk hts hp.2 hc hk
  have hhead : ∀ y, head = .var y → B.others y := fun y hy => h.kind_of_proper (hy ▸ hp.1)
  rw [Env.evalTerm]
  refine .withBindings (fun b b' hb => by rw [hb.root? hhead]) fun b _ => ?_
  split
  · next name _ => exact .afterSome (ignores_rootCursor name) fun c hc => hwalk hc
  · refine hh hp.1 fun v hv => ?_
    cases v with
    | var _ => exact .exhausted
    | _ => exact hwalk hv

theorem Ignored.term_call (h : Ignored B rules) {operator : Term} {arguments : List Term}
    (hts : ∀ t ∈ arguments, TermIgnored B rules t) : TermIgnored B rules (.call operator arguments) := by
  intro α R k hp hk
  rw [Env.evalTerm]
  split
  · exact .raise _
  · next name _ =>
    exact .after (ignores_resolveFunction name) fun r hr => h.evalCall hts hr hp hk .exhausted

theorem term_arrayCompr {term : Term} {body : Body} (ht : TermIgnored B rules term) (hb : BodyIgnored B rules body) :
    TermIgnored B rules (.arrayCompr term body) := by
  intro α R k hp hk
  rw [Env.evalTerm]
  refine .after (p := fun items : Array Term => ∀ t ∈ items.toList, t.VarsIn B.others) ?_ fun items hitems =>
    hk _ (Term.varsIn_array.2 hitems)
  refine Search.Ignores.gather (hb hp.2 (ht hp.1 fun v hv => .ground hv fun t ht => .collect ?_))
    (List.forall_mem_nil _)
  rintro items _ ⟨rfl, hitems⟩
  refine ⟨rfl, fun u hu => ?_⟩
  rw [Array.toList_push, List.mem_append, List.mem_singleton] at hu
  rcases hu with hu | rfl
  · exact hitems u hu
  · exact .of_isGround ht

theorem term_setCompr {term : Term} {body : Body} (ht : TermIgnored B rules term) (hb : BodyIgnored B rules body) :
    TermIgnored B rules (.setCompr term body) := by
  intro α R k hp hk
  rw [Env.evalTerm]
  refine .after (p := fun members : List Term => ∀ t ∈ members, t.VarsIn B.others) ?_ fun members hmembers =>
    hk _ (Term.varsIn_set.2 hmembers)
  refine Search.Ignores.gather (hb hp.2 (ht hp.1 fun v hv => .ground hv fun t ht => .collect ?_))
    (List.forall_mem_nil _)
  rintro members _ ⟨rfl, hmembers⟩
  exact ⟨rfl, Term.forall_insertMember hmembers (.of_isGround ht)⟩

theorem term_objectCompr {key value : Term} {body : Body} (hkey : TermIgnored B rules key)
    (hvalue : TermIgnored B rules value) (hb : BodyIgnored B rules body) :
    TermIgnored B rules (.objectCompr key value body) := by
  intro α R k hp hk
  rw [Env.evalTerm]
  refine .after (p := fun fields => ∀ f ∈ fields, f.1.isGround = true ∧ f.2.isGround = true) ?_ fun fields hfields =>
    hk _ (Term.varsIn_object.2 fun f hf => ⟨.of_isGround (hfields f hf).1, .of_isGround (hfields f hf).2⟩)
  refine Search.Ignores.gather (hb hp.2.2 (hkey hp.1 fun key hkey => hvalue hp.2.1 fun value hvalue => ?_))
    (List.forall_mem_nil _)
  exact .addUnique hkey hvalue (.pure trivial)

theorem term_array {items : List Term} (hts : ∀ t ∈ items, TermIgnored B rules t) :
    TermIgnored B rules (.array items) := by
  intro α R k hp hk
  rw [Term.Proper] at hp
  rw [Env.evalTerm]
  split
  · next hneeds =>
    rw [if_pos hneeds] at hp
    exact ignores_evalTerms hts hp fun vs hvs => hk _ (Term.varsIn_array.2 hvs)
  · next hneeds =>
    rw [if_neg hneeds] at hp
    exact .plugged (Term.varsIn_array.2 hp) hk

theorem term_set {members : List Term} (hts : ∀ t ∈ members, TermIgnored B rules t) :
    TermIgnored B rules (.set members) := by
  intro α R k hp hk
  rw [Term.Proper] at hp
  rw [Env.evalTerm]
  split
  · next hneeds =>
    rw [if_pos hneeds] at hp
    exact ignores_evalTerms hts hp fun vs hvs => hk _ (.setOf hvs)
  · next hneeds =>
    rw [if_neg hneeds] at hp
    exact .plugged (Term.varsIn_set.2 hp) hk

theorem term_object {fields : List (Term × Term)}
    (hfs : ∀ f ∈ fields, TermIgnored B rules f.1 ∧ TermIgnored B rules f.2) :
    TermIgnored B rules (.object fields) := by
  intro α R k hp hk
  rw [Term.Proper] at hp
  rw [Env.evalTerm]
  split
  · next hneeds =>
    rw [if_pos hneeds] at hp
    exact ignores_evalFields hfs hp fun fs hfs => hk _ (.objectOf hfs)
  · next hneeds =>
    rw [if_neg hneeds] at hp
    exact .plugged (Term.varsIn_object.2 hp) hk

theorem term_scalar {t : Term} (ht : t.isScalar = true) : TermIgnored B rules t := by
  intro α R k _ hk
  cases t with
  | null | bool _ | number _ | string _ =>
    simp only [Env.evalTerm]
    exact hk _ (.of_isGround rfl)
  | _ => cases ht

/-! ### Expressions -/

theorem Ignored.kind_call (h : Ignored B rules) {operator : Term} {arguments : List Term}
    (hts : ∀ t ∈ arguments, TermIgnored B rules t) :
    KindIgnored B rules (.term (.call operator arguments)) := by
  intro α R k hp hk
  rw [Coupling.evalKind_call]
  split
  · exact .raise _
  · next name _ =>
    split
    · next x y _ =>
      simp only [List.forall_mem_cons] at hts
      exact hts.1 hp.1 fun x hx => hts.2.1 hp.2.1 fun y hy => .unifying hx hy hk
    · refine .after (ignores_resolveFunction name) fun r hr => h.evalCall hts hr hp (fun v _ => ?_) hk
      split
      · exact .exhausted
      · exact hk

theorem Ignored.kind_term (h : Ignored B rules) {t : Term} (ht : TermsIgnored B rules t) :
    KindIgnored B rules (.term t) := by
  cases t with
  | call operator arguments => exact h.kind_call (ht.2 operator arguments rfl)
  | _ =>
    intro α R k hp hk
    simp only [Env.evalKind]
    refine ht.1 hp fun v _ => ?_
    split
    · exact .exhausted
    · exact .exhausted
    · exact hk

theorem kind_generator {operator : Term} {arguments : List Term} (hts : ∀ t ∈ arguments, TermIgnored B rules t) :
    KindIgnored B rules (.someDecl [.call operator arguments]) := by
  intro α R k hp hk
  have hpatterns := hp.2 _ _ rfl
  have hp := hp.1.1
  have heach : ∀ {key : Option Term} {value domain : Term}, (∀ t, key = some t → t.VarsIn B.others) →
      value.VarsIn B.others → domain.VarsIn B.others →
        (Search.each domain.entries fun entry => Search.after B.env.checkpoint fun _ =>
          Search.extending (Bindings.bindEntry key value entry) k).Ignores B R := by
    intro key value domain hkey hvalue hdomain
    refine .each fun entry hentry => .after (ignores_checkpoint B) fun _ _ => ?_
    exact .extending (Bindings.adds_bindEntry_any key value entry)
      (Bindings.abreast_bindEntry hkey hvalue (hdomain.entries hentry)) hk
  rw [Coupling.evalKind_generator]
  split
  · next value domain _ _ =>
    simp only [List.forall_mem_cons] at hts
    exact hts.2.1 hp.2.1 fun v hv => heach ifSome_none (hpatterns value List.mem_cons_self) hv
  · next key value domain _ _ =>
    simp only [List.forall_mem_cons] at hts
    have hpatterns : ∀ t ∈ [key, value], t.VarsIn B.others := hpatterns
    simp only [List.forall_mem_cons] at hpatterns
    exact hts.2.2.1 hp.2.2.1 fun v hv => heach (ifSome_some hpatterns.1) hpatterns.2.1 hv
  · exact .raise _

theorem Ignored.kind_someDecl (h : Ignored B rules) {symbols : List Term}
    (hts : ∀ t ∈ symbols, TermsIgnored B rules t) :
    KindIgnored B rules (.someDecl symbols) := by
  intro α R k hp hk
  by_cases hs : ∃ operator arguments, symbols = [.call operator arguments]
  · obtain ⟨operator, arguments, rfl⟩ := hs
    exact kind_generator ((hts _ List.mem_cons_self).2 operator arguments rfl) hp hk
  · rw [Env.evalKind]
    · refine .extending (Bindings.adds_hideAll symbols) (Bindings.abreast_hideAll fun y hy => ?_) hk
      exact h.kind_of_proper (hp.1.proper hy)
    · rintro operator arguments rfl
      exact hs ⟨operator, arguments, rfl⟩

theorem kind_every {key : Option Term} {value domain : Term} {body : Body} (hd : TermIgnored B rules domain)
    (hb : BodyIgnored B rules body) : KindIgnored B rules (.every key value domain body) := by
  intro α R k hp hk
  obtain ⟨hkey, hvalue, hdomain, hbody⟩ := hp
  rw [Env.evalKind]
  refine .after (Search.Ignores.first fun k hk => hd hdomain hk) fun found hfound => ?_
  cases found with
  | none => exact hk
  | some domain =>
    have hground : domain.VarsIn B.others := .of_isGround (hfound domain rfl)
    refine .after (p := fun _ => True) (.forAll fun entry hentry => ?_) fun holds _ => ?_
    · refine (ignores_checkpoint B).bind fun _ _ => ?_
      refine .extending (Bindings.adds_bindEntry_any key value entry)
        (Bindings.abreast_bindEntry hkey hvalue (hground.entries hentry)) trivial ?_
      exact Search.Ignores.gather (hb hbody (.accept fun _ _ _ => ⟨rfl, trivial⟩)) trivial
    · split
      · exact hk
      · exact .exhausted

theorem ignores_evalOverrides {overrides : List (Term × Term)} (hts : ∀ o ∈ overrides, TermIgnored B rules o.2)
    {σ : Scope} (hp : Expr.ProperOverrides B.others (fun _ => True) overrides)
    (hσ : σ.VarsIn B.others fun _ => True) :
    (B.env.evalOverrides rules overrides σ).Ignores B (IfSome fun τ => τ.VarsIn B.others fun _ => True) := by
  induction overrides generalizing σ with
  | nil =>
    rw [Env.evalOverrides]
    exact .pure (ifSome_some hσ)
  | cons o rest ih =>
    obtain ⟨target, replacement⟩ := o
    rw [List.forall_mem_cons] at hts
    rw [Env.evalOverrides]
    split
    · exact .throw _
    · split
      · exact ih hts.2 hp.2.2 (Coupling.varsIn_mock hσ trivial (by rintro _ ⟨⟩))
      · refine (Search.Ignores.first fun k hk => hts.1 hp.2.1 hk).bind fun found hfound => ?_
        cases found with
        | none => exact .pure ifSome_none
        | some value =>
          have hvalue : value.VarsIn B.others := .of_isGround (hfound value rfl)
          exact (ignores_override hvalue hσ).bind fun τ hτ => ih hts.2 hp.2.2 hτ

theorem ignores_evalSigned {kind : ExprKind} (hkind : KindIgnored B rules kind) (negated : Bool) {k : Search α}
    (hp : kind.Proper B.others fun _ => True) (hk : k.Ignores B R) :
    (Coupling.evalSigned B.env rules negated kind k).Ignores B R := by
  rw [Coupling.evalSigned]
  split
  · refine .after (p := fun _ => True)
      (Search.Ignores.gather (hkind hp (.accept fun _ _ _ => ⟨rfl, trivial⟩)) trivial) fun holds _ => ?_
    split
    · exact .exhausted
    · exact hk
  · exact hkind hp hk

theorem ignores_evalOverriding {kind : ExprKind} (hkind : KindIgnored B rules kind) {overrides : List (Term × Term)}
    (hts : ∀ o ∈ overrides, TermIgnored B rules o.2) (negated : Bool) {k : Search α}
    (hp : kind.Proper B.others fun _ => True)
    (ho : Expr.ProperOverrides B.others (fun _ => True) overrides) (hk : k.Ignores B R) :
    (Coupling.evalOverriding B.env rules negated kind overrides k).Ignores B R := by
  refine .afterSome (.get (fun _ _ _ => rfl) fun s hs => ignores_evalOverrides hts ho hs.scope) fun σ hσ => ?_
  exact .inScope hσ (fun k hk => ignores_evalSigned hkind negated hp hk) hk

theorem expr_mk {kind : ExprKind} {negated : Bool} {overrides : List (Term × Term)} {index : Nat}
    (hkind : KindIgnored B rules kind) (hts : ∀ o ∈ overrides, TermIgnored B rules o.2) :
    ExprIgnored B rules (.mk kind negated overrides index) := by
  intro α R k hp hk
  rw [Coupling.evalExpr_eq]
  refine .after (ignores_entry _) fun depth _ => .orElse ?_ (ignores_emit B .fail depth _)
  split
  · exact ignores_evalSigned hkind negated hp.1 hk.noting
  · exact ignores_evalOverriding hkind hts negated hp.1 hp.2 hk.noting

/-! ### The whole text -/

mutual
theorem ignores_terms (h : Ignored B rules) : ∀ t : Term, TermsIgnored B rules t
  | .var x => .of_not_call (h.term_var x) nofun
  | .ref head operands => .of_not_call (h.term_ref (ignores_terms h head).1 (ignores_all h operands)) nofun
  | .call operator arguments =>
    ⟨h.term_call (ignores_all h arguments), fun _ _ he => by
      cases he
      exact ignores_all h arguments⟩
  | .arrayCompr term body => .of_not_call (term_arrayCompr (ignores_terms h term).1 (ignores_body h body)) nofun
  | .setCompr term body => .of_not_call (term_setCompr (ignores_terms h term).1 (ignores_body h body)) nofun
  | .objectCompr key value body =>
    .of_not_call (term_objectCompr (ignores_terms h key).1 (ignores_terms h value).1 (ignores_body h body)) nofun
  | .array items => .of_not_call (term_array (ignores_all h items)) nofun
  | .set members => .of_not_call (term_set (ignores_all h members)) nofun
  | .object fields => .of_not_call (term_object (ignores_fields h fields)) nofun
  | .null => .of_not_call (term_scalar rfl) nofun
  | .bool _ => .of_not_call (term_scalar rfl) nofun
  | .number _ => .of_not_call (term_scalar rfl) nofun
  | .string _ => .of_not_call (term_scalar rfl) nofun
theorem ignores_all (h : Ignored B rules) : ∀ ts : List Term, ∀ t ∈ ts, TermIgnored B rules t
  | [] => nofun
  | t :: rest => List.forall_mem_cons.2 ⟨(ignores_terms h t).1, ignores_all h rest⟩
theorem ignores_symbols (h : Ignored B rules) : ∀ ts : List Term, ∀ t ∈ ts, TermsIgnored B rules t
  | [] => nofun
  | t :: rest => List.forall_mem_cons.2 ⟨ignores_terms h t, ignores_symbols h rest⟩
theorem ignores_fields (h : Ignored B rules) :
    ∀ fs : List (Term × Term), ∀ f ∈ fs, TermIgnored B rules f.1 ∧ TermIgnored B rules f.2
  | [] => nofun
  | (k, v) :: rest =>
    List.forall_mem_cons.2 ⟨⟨(ignores_terms h k).1, (ignores_terms h v).1⟩, ignores_fields h rest⟩
theorem ignores_kind (h : Ignored B rules) : ∀ kind : ExprKind, KindIgnored B rules kind
  | .term t => h.kind_term (ignores_terms h t)
  | .someDecl symbols => h.kind_someDecl (ignores_symbols h symbols)
  | .every _ _ domain body => kind_every (ignores_terms h domain).1 (ignores_body h body)
theorem ignores_overrides (h : Ignored B rules) :
    ∀ overrides : List (Term × Term), ∀ o ∈ overrides, TermIgnored B rules o.2
  | [] => nofun
  | (_, replacement) :: rest => List.forall_mem_cons.2 ⟨(ignores_terms h replacement).1, ignores_overrides h rest⟩
theorem ignores_expr (h : Ignored B rules) : ∀ e : Expr, ExprIgnored B rules e
  | .mk kind _ overrides _ => expr_mk (ignores_kind h kind) (ignores_overrides h overrides)
theorem ignores_body (h : Ignored B rules) : ∀ body : Body, BodyIgnored B rules body
  | [] => fun _ hk => by
    rw [Env.evalBody]
    exact hk
  | e :: rest => fun hp hk => by
    rw [Env.evalBody]
    exact ignores_expr h e hp.1 (ignores_body h rest hp.2 hk)
end

/-! ## Ideal rules -/

/-- States with their own environment and overrides are alike themselves. -/
theorem Ready.alike {s : State} (hs : B.Ready s) : Pairing.Alike B.env B.answers .any s.scope s s :=
  ⟨rfl, Vocabulary.bindings_any _, Vocabulary.scope_any _, .refl _, .refl _, hs.calm, hs.calm, hs.answered, hs.answered⟩

/-- A computation that is the same in states that are alike comes back to a state that is ready, unless it fails. -/
theorem Ready.of_computes {β : Type} {D : β → β → Prop} {m : Eval β} {s : State} (hs : B.Ready s)
    (hm : (Pairing.alike B.env B.answers .any).coupling.Computes s.scope True D m fun _ => m) {v : β}
    (hv : (m.run s).1 = .ok v) : B.Ready (m.run s).2 := by
  obtain ⟨r', hr', hagree⟩ := hm.2 trivial s.scope rfl s s hs.alike ⟨fun _ he => Except.absurd_error hv he, trivial⟩
  have hr' : m.run s = r' := Filter.eventually_top.1 hr' ()
  subst hr'
  rcases hagree with ⟨_, hrel, hframe⟩ | ⟨e, he, _⟩
  · have hrel : Pairing.Alike B.env B.answers .any s.scope (m.run s).2 (m.run s).2 := hrel
    have hscope : (m.run s).2.scope = s.scope := congrArg Frame.scope hframe
    exact ⟨hscope ▸ hs.scope, hrel.calm, hrel.answered⟩
  · exact Except.absurd_error hv he

/-- What is evaluated in an environment of its own does not see the bystander. -/
theorem ignores_isolated {β : Type} {p : β → Prop} {D : β → β → Prop} {m : Eval β}
    (hm : ∀ σ, (Pairing.alike B.env B.answers .any).coupling.Computes σ True D m.isolated fun _ => m.isolated)
    (hgives : m.Gives p) : m.isolated.Ignores B p := by
  refine .of_blind (fun s b' => ?_) fun s hs v hv => ⟨(hgives _ trivial).2 v hv, hs.of_computes (hm s.scope) hv⟩
  rw [Eval.isolated, Eval.run_nested, Eval.run_nested]
  rfl

/-- Ideal rules ignore all bystanders. -/
theorem ignored_ideal (h : B.env.Confined B.answers B.others) (hreg : B.env.registry.Regular) (n : Nat) :
    Ignored B (B.env.idealTo n) := by
  have hground : ∀ {m : Eval (Option Term)}, m.Gives GroundIfSome → m.Gives (IfSome (Term.VarsIn B.others)) :=
    fun hm => Eval.Ensures.mono hm fun found hfound t ht => .of_isGround (hfound t ht)
  have hanswer := Pairing.alike.rulesAnswer (Env.steady_any hreg h.fixed) (Nat.le_refl n)
  refine { h with document := fun rs hrs => ?_, function := fun rs hrs args => ?_ }
  · cases n with
    | zero => exact .throw _
    | succ n =>
      by_cases hkind : rs.kind = .function
      · simp only [Env.idealTo, RuleSet.forgetting, if_pos hkind]
        exact .pure ifSome_none
      · have hdocument := fun σ => (hanswer.document σ rs).guard (Q := True) fun _ => hrs
        simp only [Env.idealTo, RuleSet.forgetting, if_neg hkind] at hdocument ⊢
        exact ignores_isolated hdocument (hground (B.env.gives_evalDocument _ rs))
  · cases n with
    | zero => exact .throw _
    | succ n =>
      refine ignores_isolated (fun σ => (hanswer.function σ rs args).guard fun _ => ⟨hrs, fun t _ =>
        t.varsIn_of_forall fun _ => trivial⟩) (hground ?_)
      exact (B.env.upholds_ground _).ensures_evalFunction (fun _ _ _ _ => trivial) fun _ _ => trivial

end Bystander
end PolicyEngine
