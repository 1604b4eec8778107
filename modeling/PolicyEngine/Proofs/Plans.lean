import PolicyEngine.Proofs.Clean

/-!
Plans. What a search goes through on the way to its continuation is a tree: it computes something, extends the
environment, chooses among alternatives, each after a check point, looks for a solution of one plan and notes that there
is none, or follows a plan in a scope of its own, and goes on with what was found. Every search of the evaluator runs
such a plan, whatever its continuation accumulates. So what is to be shown of all searches is shown of the six forms
of plans.
-/
namespace PolicyEngine

/-- A way to values that are handed to a continuation. -/
inductive Plan : Type → Type 1 where
  | compute {κ : Type} (m : Eval κ) : Plan κ
  | extend (f : Bindings → Option Bindings) : Plan Unit
  | choose {κ : Type} (among : List κ) : Plan κ
  | orElse (p : Plan Unit) (otherwise : Eval Unit) : Plan Unit
  | inScope (σ : Scope) (p : Plan Unit) : Plan Unit
  | bind {κ κ' : Type} (p : Plan κ) (next : κ → Plan κ') : Plan κ'

namespace Plan

/-- The search that follows a plan. -/
def run (env : Env) : {κ : Type} → Plan κ → {α : Type} → (κ → Search α) → Search α
  | _, .compute m, _, k => Search.after m k
  | _, .extend f, _, k => Search.extending f (k ())
  | _, .choose among, _, k => Search.each among fun x => Search.after env.checkpoint fun _ => k x
  | _, .orElse p otherwise, _, k => Search.orElse (p.run env fun x => Search.noting (k x)) otherwise
  | _, .inScope σ p, _, k => Search.inScope σ (fun k => p.run env fun _ => k) (k ())
  | _, .bind p next, _, k => p.run env fun x => (next x).run env k

/-- From clean states a plan leads to clean ones, with values that have a property. -/
def Yields (seen : Host → Prop) : {κ : Type} → Plan κ → (κ → Prop) → Prop
  | _, .compute m, post => m.Yields seen post
  | _, .extend f, post => Bindings.Extends Term.ComprFree f ∧ post ()
  | _, .choose among, post => ∀ x ∈ among, post x
  | _, .orElse p otherwise, post => p.Yields seen post ∧ otherwise.Yields seen fun _ => True
  | _, .inScope σ p, post => σ.Plain ∧ p.Yields seen post
  | _, .bind p next, post => p.Yields seen fun x => (next x).Yields seen post

variable {seen : Host → Prop} {κ κ' : Type}

theorem Yields.mono {p : Plan κ} {post post' : κ → Prop} (h : p.Yields seen post) (hpost : ∀ x, post x → post' x) :
    p.Yields seen post' := by
  induction p with
  | compute m => exact Eval.Ensures.mono h hpost
  | extend f => exact ⟨h.1, hpost () h.2⟩
  | choose among => exact fun x hx => hpost x (h x hx)
  | orElse p otherwise ih => exact ⟨ih h.1 hpost, h.2⟩
  | inScope σ p ih => exact ⟨h.1, ih h.2 hpost⟩
  | bind p next ih ihn => exact ih h fun x hx => ihn x hx hpost

theorem Yields.tidy (env : Env) {p : Plan κ} {post : κ → Prop} (h : p.Yields seen post) {α : Type} {A : α → Prop}
    {k : κ → Search α} (hk : ∀ x, post x → (k x).Tidy seen A) : (p.run env k).Tidy seen A := by
  induction p generalizing α with
  | compute m => exact .after h hk
  | extend f => exact .extending h.1 (hk () h.2)
  | choose among => exact .each fun x hx => .after (env.yields_checkpoint) fun _ _ => hk x (h x hx)
  | orElse p otherwise ih => exact .orElse (ih h.1 fun x hx => (hk x hx).noting) h.2
  | inScope σ p ih => exact .inScope h.1 fun τ hτ => ih h.2 fun x hx => .enclosed hτ (hk x hx)
  | bind p next ih ihn => exact ih h fun x hx => ihn x hx hk

end Plan

/-! ## Searches that follow plans -/

/-- A search for values, whatever is done with them. -/
abbrev Source (κ : Type) := (α : Type) → (κ → Search α) → Search α

/-- A source follows a plan, which yields values with a property provided `P`. -/
def Source.Planned (seen : Host → Prop) (env : Env) {κ : Type} (P : Prop) (post : κ → Prop) (source : Source κ) :
    Prop :=
  ∃ plan : Plan κ, (∀ α k, source α k = plan.run env k) ∧ (P → plan.Yields seen post)

namespace Source.Planned

variable {seen : Host → Prop} {env : Env} {κ κ' β : Type} {P Q : Prop} {post : κ → Prop} {post' : κ' → Prop}
  {p : β → Prop} {source : Source κ}

theorem guard (h : Planned seen env P post source) (hQ : Q → P) : Planned seen env Q post source := by
  obtain ⟨plan, heq, hyields⟩ := h
  exact ⟨plan, heq, fun q => hyields (hQ q)⟩

theorem tidy (h : Planned seen env P post source) (hP : P) {α : Type} {A : α → Prop} {k : κ → Search α}
    (hk : ∀ x, post x → (k x).Tidy seen A) : (source α k).Tidy seen A := by
  obtain ⟨plan, heq, hyields⟩ := h
  rw [heq]
  exact (hyields hP).tidy env hk

theorem bind {next : κ → Source κ'} (h : Planned seen env P post source)
    (hn : ∀ x, Planned seen env (P ∧ post x) post' (next x)) :
    Planned seen env P post' fun α k => source α fun x => next x α k := by
  obtain ⟨plan, heq, hyields⟩ := h
  choose plans heqs hnext using hn
  refine ⟨.bind plan plans, fun α k => ?_, fun hP => (hyields hP).mono fun x hx => hnext x ⟨hP, hx⟩⟩
  simp only [heq, heqs]
  rfl

theorem bindOption {post : Option β → Prop} {source : Source (Option β)} {found : β → Source κ'} {missing : Source κ'}
    (h : Planned seen env P post source) (hfound : ∀ v, Planned seen env (P ∧ post (some v)) post' (found v))
    (hmissing : Planned seen env (P ∧ post none) post' missing) :
    Planned seen env P post' fun α k => source α fun
      | some v => found v α k
      | none => missing α k := by
  have hbind := h.bind fun v => show Planned seen env (P ∧ post v) post' (v.elim missing found) by
    cases v with
    | some v => exact hfound v
    | none => exact hmissing
  have hsplit : (fun α k => source α fun v => v.elim missing found α k) = fun α k => source α fun
      | some v => found v α k
      | none => missing α k := by
    funext α k
    refine congrArg (source α) (funext fun v => ?_)
    cases v <;> rfl
  rwa [hsplit] at hbind

theorem pure {x : κ} (hx : P → post x) : Planned seen env P post fun _ k => k x :=
  ⟨.compute (Pure.pure x), fun _ _ => rfl, fun hP => .pure (hx hP)⟩

theorem exhausted : Planned seen env P post fun _ _ => Search.exhausted := ⟨.choose [], fun _ _ => rfl, fun _ => nofun⟩

theorem raise (e : EvalError) : Planned seen env P post fun _ _ => Search.raise e :=
  ⟨.compute (throw e), fun _ _ => rfl, fun _ => .throw e⟩

theorem compute {m : Eval β} (hm : P → m.Yields seen p) : Planned seen env P p fun _ k => Search.after m k :=
  ⟨.compute m, fun _ _ => rfl, hm⟩

theorem after {m : Eval β} {next : β → Source κ} (hm : P → m.Yields seen p)
    (hn : ∀ b, Planned seen env (P ∧ p b) post (next b)) :
    Planned seen env P post fun α k => Search.after m fun b => next b α k :=
  (compute hm).bind hn

theorem afterSome {m : Eval (Option β)} {next : β → Source κ} (hm : P → m.Yields seen (IfSome p))
    (hn : ∀ b, Planned seen env (P ∧ p b) post (next b)) :
    Planned seen env P post fun α k => Search.afterSome m fun b => next b α k := by
  refine after hm fun found => ?_
  cases found with
  | none => exact exhausted
  | some b => exact (hn b).guard fun hP => ⟨hP.1, hP.2 b rfl⟩

theorem withBindings {next : Bindings → Source κ}
    (hn : ∀ b : Bindings, Planned seen env (P ∧ b.Holds Term.ComprFree) post (next b)) :
    Planned seen env P post fun α k => Search.withBindings fun b => next b α k :=
  after (m := do return (← get).bindings) (fun _ => .get fun _ hs => .pure hs.bindings) hn

theorem extending {f : Bindings → Option Bindings} {next : Source κ}
    (hf : P → Bindings.Extends Term.ComprFree f) (hn : Planned seen env P post next) :
    Planned seen env P post fun α k => Search.extending f (next α k) := by
  have hextend : Planned seen env P (fun _ => True) fun _ k => Search.extending f (k ()) :=
    ⟨.extend f, fun _ _ => rfl, fun hP => ⟨hf hP, trivial⟩⟩
  exact hextend.bind fun _ => hn.guard And.left

theorem unifying {x y : Term} {next : Source κ} (hxy : P → x.ComprFree ∧ y.ComprFree)
    (hn : Planned seen env P post next) : Planned seen env P post fun α k => Search.unifying x y (next α k) :=
  hn.extending fun hP => Bindings.extends_unify Term.pervasive_comprFree (hxy hP).1 (hxy hP).2

/-- Alternatives, each after a check point. -/
theorem each (bs : List β) {next : β → Source κ} (hn : ∀ b, Planned seen env (P ∧ b ∈ bs) post (next b)) :
    Planned seen env P post fun α k =>
      Search.each bs fun b => Search.after env.checkpoint fun _ => next b α k := by
  have hchoose : Planned seen env P (fun b => b ∈ bs) fun _ k =>
      Search.each bs fun b => Search.after env.checkpoint fun _ => k b :=
    ⟨.choose bs, fun _ _ => rfl, fun _ _ hb => hb⟩
  exact hchoose.bind hn

theorem orElse {post : Unit → Prop} {source : Source Unit} {otherwise : Eval Unit}
    (h : Planned seen env P post source) (ho : P → otherwise.Yields seen fun _ => True) :
    Planned seen env P post fun _ k => Search.orElse (source _ fun x => Search.noting (k x)) otherwise := by
  obtain ⟨plan, heq, hyields⟩ := h
  refine ⟨.orElse plan otherwise, fun α k => ?_, fun hP => ⟨hyields hP, ho hP⟩⟩
  simp only [heq]
  rfl

theorem inScope {post : Unit → Prop} {source : Source Unit} {σ : Scope} (hσ : P → σ.Plain)
    (h : Planned seen env P post source) :
    Planned seen env P post fun _ k => Search.inScope σ (fun k => source _ fun _ => k) (k ()) := by
  obtain ⟨plan, heq, hyields⟩ := h
  refine ⟨.inScope σ plan, fun α k => ?_, fun hP => ⟨hσ hP, hyields hP⟩⟩
  simp only [heq]
  rfl

end Source.Planned

/-! ## The evaluator -/

/-- Evaluation keeps to plain values: the store and the built-ins do, and the meaning of rules. -/
structure Env.Sound (seen : Host → Prop) (env : Env) (rules : RuleSemantics) : Prop where
  clean : env.Clean seen
  plain : rules.Plain seen env.policy

namespace Plan

open Source (Planned)

variable (seen : Host → Prop) (env : Env) (rules : RuleSemantics)

/-- The values of a term are found by following a plan. -/
def OfTerm (t : Term) : Prop :=
  Planned seen env (env.Sound seen rules ∧ t.Fit) Term.ComprFree fun _ k => env.evalTerm rules t k

/-- The same of a term and, since calls are also evaluated as expressions, of the arguments of a call. -/
def OfTerms (t : Term) : Prop :=
  OfTerm seen env rules t ∧
    ∀ operator arguments, t = .call operator arguments → ∀ a ∈ arguments, OfTerm seen env rules a

def OfBody (body : Body) : Prop :=
  Planned seen env (env.Sound seen rules ∧ Expr.FitBody body) (fun _ => True) fun _ k => env.evalBody rules body (k ())

def OfKind (kind : ExprKind) : Prop :=
  Planned seen env (env.Sound seen rules ∧ kind.Fit) (fun _ => True) fun _ k => env.evalKind rules kind (k ())

def OfExpr (e : Expr) : Prop :=
  Planned seen env (env.Sound seen rules ∧ e.Fit) (fun _ => True) fun _ k => env.evalExpr rules e (k ())

variable {seen env rules}

/-! ### Lists of terms -/

theorem planned_evalTerms {ts : List Term} (hts : ∀ t ∈ ts, OfTerm seen env rules t) :
    Planned seen env (env.Sound seen rules ∧ Term.FitAll ts) (fun vs => ∀ v ∈ vs, v.ComprFree)
      fun _ k => env.evalTerms rules ts k := by
  induction ts with
  | nil =>
    simp only [Env.evalTerms]
    exact .pure fun _ => List.forall_mem_nil _
  | cons t rest ih =>
    rw [List.forall_mem_cons] at hts
    simp only [Env.evalTerms]
    refine (hts.1.guard fun hP => ⟨hP.1, hP.2.1⟩).bind fun v => ?_
    refine ((ih hts.2).guard fun hP => ⟨hP.1.1, hP.1.2.2⟩).bind fun vs => .pure fun hP => ?_
    exact List.forall_mem_cons.2 ⟨hP.1.2, hP.2⟩

theorem planned_evalFields {fs : List (Term × Term)}
    (hfs : ∀ f ∈ fs, OfTerm seen env rules f.1 ∧ OfTerm seen env rules f.2) :
    Planned seen env (env.Sound seen rules ∧ Term.FitFields fs) (fun vs => ∀ f ∈ vs, f.1.ComprFree ∧ f.2.ComprFree)
      fun _ k => env.evalFields rules fs k := by
  induction fs with
  | nil =>
    simp only [Env.evalFields]
    exact .pure fun _ => List.forall_mem_nil _
  | cons f rest ih =>
    obtain ⟨key, value⟩ := f
    rw [List.forall_mem_cons] at hfs
    simp only [Env.evalFields]
    refine (hfs.1.1.guard fun hP => ⟨hP.1, hP.2.1⟩).bind fun x => ?_
    refine (hfs.1.2.guard fun hP => ⟨hP.1.1, hP.1.2.2.1⟩).bind fun y => ?_
    refine ((ih hfs.2).guard fun hP => ⟨hP.1.1.1, hP.1.1.2.2.2⟩).bind fun fs => .pure fun hP => ?_
    exact List.forall_mem_cons.2 ⟨⟨hP.1.1.2, hP.1.2⟩, hP.2⟩

theorem planned_walk {operands : List Term} (hts : ∀ t ∈ operands, OfTerm seen env rules t) (c : Cursor) :
    Planned seen env ((env.Sound seen rules ∧ Term.FitAll operands) ∧ c.ComprFree) Term.ComprFree
      fun _ k => env.walk rules c operands k := by
  induction operands generalizing c with
  | nil =>
    simp only [Env.walk]
    refine .afterSome (fun hP => hP.1.1.clean.yields_arrive hP.1.1.plain hP.2) fun v => .pure And.right
  | cons operand rest ih =>
    rw [List.forall_mem_cons] at hts
    have hrest : ∀ {Q : Prop} {c : Cursor}, (Q → env.Sound seen rules ∧ Term.FitAll (operand :: rest)) →
        (Q → c.ComprFree) → Planned seen env Q Term.ComprFree fun _ k => env.walk rules c rest k :=
      fun hQ hc => (ih hts.2 _).guard fun q => ⟨⟨(hQ q).1, (hQ q).2.2⟩, hc q⟩
    simp only [Env.walk]
    refine .afterSome (fun hP => hP.1.1.clean.yields_settle hP.1.1.plain operand hP.2) fun footing => ?_
    cases footing with
    | data path => exact hrest (fun hP => hP.1.1) fun _ => trivial
    | value v =>
      refine (hts.1.guard fun hP => ⟨hP.1.1.1, hP.1.1.2.1⟩).bind fun key => .withBindings fun b => ?_
      by_cases hground : (b.plug key).isGround = true
      · simp only [hground, if_true]
        cases hlookup : v.lookup (b.plug key) with
        | none => exact .exhausted
        | some u =>
          exact hrest (fun hP => hP.1.1.1.1) fun hP => Term.pervasive_comprFree.lookup hP.1.1.2 hlookup
      · simp only [hground]
        refine .each v.entries fun entry => .unifying (fun hP => ⟨?_, ?_⟩) ?_
        · exact hP.1.2.plug Term.pervasive_comprFree hP.1.1.2
        · exact (Term.pervasive_comprFree.entries hP.1.1.1.2 hP.2).1
        · exact hrest (fun hP => hP.1.1.1.1.1) fun hP => (Term.pervasive_comprFree.entries hP.1.1.1.2 hP.2).2
    | stored path =>
      refine (hts.1.guard fun hP => ⟨hP.1.1.1, hP.1.1.2.1⟩).bind fun key => .withBindings fun b => ?_
      by_cases hground : (b.plug key).isGround = true
      · simp only [hground, if_true]
        cases hsegment : PathSegment.ofTerm? (b.plug key) with
        | some segment =>
          exact hrest (fun hP => hP.1.1.1.1) fun hP => hP.2.plug Term.pervasive_comprFree hP.1.2
        | none =>
          refine .afterSome (p := Term.Plain) (fun hP => ?_) fun v =>
            hrest (fun hP => hP.1.1.1.1.1) fun hP => hP.2.comprFree
          refine (hP.1.1.1.1.1.clean.yields_read path).bind fun doc hdoc => .pure fun u hu => ?_
          obtain ⟨t, ht, hu⟩ := Option.bind_eq_some_iff.1 hu
          exact Term.hereditary_plain.lookup (hdoc t ht) hu
      · simp only [hground]
        refine .afterSome (fun hP => hP.1.1.1.1.1.clean.yields_listKeys path) fun names => ?_
        refine .each names fun name => .unifying (fun hP => ⟨?_, ?_⟩) ?_
        · exact hP.1.1.2.plug Term.pervasive_comprFree hP.1.1.1.2
        · exact (hP.1.2 name hP.2).comprFree
        · cases PathSegment.ofTerm? name with
          | some segment => exact hrest (fun hP => hP.1.1.1.1.1.1) fun hP => (hP.1.2 name hP.2).comprFree
          | none => exact hrest (fun hP => hP.1.1.1.1.1.1) fun hP => (hP.1.2 name hP.2).comprFree

theorem comprFree_lenientOperand {ts : List Term} (h : ∀ t ∈ ts, t.Plain) : (lenientOperand ts).ComprFree := by
  unfold lenientOperand
  split
  · exact .scalar rfl
  · exact (h _ List.mem_cons_self).comprFree
  · exact .set fun t ht => (h t ht).comprFree

/-- A call finds a value, or it unifies its value with an operand and finds nothing else. -/
theorem planned_evalCall {arguments : List Term} (hts : ∀ t ∈ arguments, OfTerm seen env rules t) (callee : Callee)
    (output : Option Nat) (operands : List Term) :
    Planned seen env (((env.Sound seen rules ∧ Term.FitAll arguments) ∧ callee.Clean env) ∧ ∀ t ∈ operands, t.ComprFree)
      (IfSome Term.ComprFree)
      fun _ k => env.evalCall rules callee output arguments operands (fun v => k (some v)) (k none) := by
  induction arguments generalizing operands with
  | nil =>
    simp only [Env.evalCall]
    refine .afterSome (p := Term.Plain) (fun hP => ?_) fun v => .pure fun hP => ifSome_some hP.2.comprFree
    exact hP.1.1.1.clean.yields_apply hP.1.1.1.plain hP.1.2 fun t ht => hP.2 t (List.mem_reverse.1 ht)
  | cons t rest ih =>
    rw [List.forall_mem_cons] at hts
    simp only [Env.evalCall]
    by_cases hout : output = some operands.length
    · simp only [hout, if_true]
      refine .afterSome (p := Term.Plain) (fun hP => ?_) fun result => ?_
      · exact hP.1.1.1.clean.yields_apply hP.1.1.1.plain hP.1.2 fun t ht => hP.2 t (List.mem_reverse.1 ht)
      · refine (hts.1.guard fun hP => ⟨hP.1.1.1.1, hP.1.1.1.2.1⟩).bind fun v => ?_
        exact .unifying (fun hP => ⟨hP.2, hP.1.2.comprFree⟩) (.pure fun _ => ifSome_none)
    · simp only [hout, if_false]
      by_cases hlenient : callee.lenient = true
      · simp only [hlenient, if_true]
        refine .after (p := fun values : List Term => ∀ t ∈ values, t.Plain) (fun hP => ?_) fun values => ?_
        · refine .gather (hts.1.tidy ⟨hP.1.1.1, hP.1.1.2.1⟩ fun v hv => ?_) (List.forall_mem_nil _)
          exact .ground State.Clean.plugs (fun t ht => .collect fun members hm => Term.forall_insertMember hm ht) hv
        · refine (ih hts.2 _).guard fun hP => ⟨⟨⟨hP.1.1.1.1, hP.1.1.1.2.2⟩, hP.1.1.2⟩, ?_⟩
          exact List.forall_mem_cons.2 ⟨comprFree_lenientOperand hP.2, hP.1.2⟩
      · simp only [hlenient]
        refine (hts.1.guard fun hP => ⟨hP.1.1.1, hP.1.1.2.1⟩).bind fun v => (ih hts.2 _).guard fun hP => ?_
        exact ⟨⟨⟨hP.1.1.1.1, hP.1.1.1.2.2⟩, hP.1.1.2⟩, List.forall_mem_cons.2 ⟨hP.2, hP.1.2⟩⟩

/-! ### Terms -/

theorem ofTerm_var (x : String) : OfTerm seen env rules (.var x) := by
  unfold OfTerm
  simp only [Env.evalTerm]
  refine .withBindings fun b => ?_
  cases hd : b.deref (.var x) with
  | var y =>
    by_cases hroot : isRoot y = true
    · simp only [hroot, if_true]
      refine .afterSome (fun _ => Env.yields_rootCursor y) fun c => ?_
      refine .afterSome (fun hP => hP.1.1.1.clean.yields_arrive hP.1.1.1.plain hP.2) fun v => .pure And.right
    · simp only [hroot]
      exact .pure fun _ => .var
  | _ => exact .pure fun hP => hP.2.plug Term.pervasive_comprFree (hd ▸ hP.2.deref .var)

theorem ofTerm_ref {head : Term} {operands : List Term} (hh : OfTerm seen env rules head)
    (hts : ∀ t ∈ operands, OfTerm seen env rules t) : OfTerm seen env rules (.ref head operands) := by
  unfold OfTerm
  simp only [Env.evalTerm]
  refine .withBindings fun b => ?_
  cases b.root? head with
  | some name =>
    refine .afterSome (fun _ => Env.yields_rootCursor name) fun c => ?_
    exact (planned_walk hts c).guard fun hP => ⟨⟨hP.1.1.1, hP.1.1.2.2⟩, hP.2⟩
  | none =>
    refine (hh.guard fun hP => ⟨hP.1.1, hP.1.2.1⟩).bind fun v => ?_
    have hwalk := (planned_walk hts (.value v)).guard fun hP : ((env.Sound seen rules ∧ (Term.ref head operands).Fit) ∧
      b.Holds Term.ComprFree) ∧ v.ComprFree => ⟨⟨hP.1.1.1, hP.1.1.2.2⟩, hP.2⟩
    cases v with
    | var _ => exact .exhausted
    | _ => exact hwalk

theorem ofTerm_call {operator : Term} {arguments : List Term} (hts : ∀ t ∈ arguments, OfTerm seen env rules t) :
    OfTerm seen env rules (.call operator arguments) := by
  unfold OfTerm
  simp only [Env.evalTerm]
  cases operator.refName? with
  | none => exact .raise _
  | some name =>
    refine .after (fun _ => env.yields_resolveFunction name) fun r => ?_
    have hcall := (planned_evalCall hts r.1 none []).bindOption (fun v => .pure fun hP => hP.2 v rfl) .exhausted
    exact hcall.guard fun hP => ⟨⟨hP.1, hP.2⟩, List.forall_mem_nil _⟩

theorem ofTerm_arrayCompr {term : Term} {body : Body} (ht : OfTerm seen env rules term)
    (hb : OfBody seen env rules body) : OfTerm seen env rules (.arrayCompr term body) := by
  unfold OfTerm
  simp only [Env.evalTerm]
  refine .after (p := fun items : Array Term => ∀ t ∈ items.toList, t.Plain) (fun hP => ?_) fun items =>
    .pure fun hP => .array fun t ht => (hP.2 t ht).comprFree
  refine .gather (hb.tidy ⟨hP.1, hP.2.2⟩ fun _ _ => ht.tidy ⟨hP.1, hP.2.1⟩ fun v hv => ?_) (List.forall_mem_nil _)
  refine .ground State.Clean.plugs (fun t ht => .collect fun items hitems u hu => ?_) hv
  rw [Array.toList_push, List.mem_append, List.mem_singleton] at hu
  rcases hu with hu | rfl
  · exact hitems u hu
  · exact ht

theorem ofTerm_setCompr {term : Term} {body : Body} (ht : OfTerm seen env rules term)
    (hb : OfBody seen env rules body) : OfTerm seen env rules (.setCompr term body) := by
  unfold OfTerm
  simp only [Env.evalTerm]
  refine .after (p := fun members : List Term => ∀ t ∈ members, t.Plain) (fun hP => ?_) fun members =>
    .pure fun hP => .set fun t ht => (hP.2 t ht).comprFree
  refine .gather (hb.tidy ⟨hP.1, hP.2.2⟩ fun _ _ => ht.tidy ⟨hP.1, hP.2.1⟩ fun v hv => ?_) (List.forall_mem_nil _)
  exact .ground State.Clean.plugs (fun t ht => .collect fun members hm => Term.forall_insertMember hm ht) hv

theorem ofTerm_objectCompr {key value : Term} {body : Body} (hkey : OfTerm seen env rules key)
    (hvalue : OfTerm seen env rules value) (hb : OfBody seen env rules body) :
    OfTerm seen env rules (.objectCompr key value body) := by
  unfold OfTerm
  simp only [Env.evalTerm]
  refine .after (p := fun fields : List (Term × Term) => ∀ f ∈ fields, f.1.Plain ∧ f.2.Plain) (fun hP => ?_)
    fun fields => .pure fun hP => .object (fun f hf => (hP.2 f hf).1.comprFree) fun f hf => (hP.2 f hf).2.comprFree
  refine .gather ?_ (List.forall_mem_nil _)
  refine hb.tidy ⟨hP.1, hP.2.2.2⟩ fun _ _ => hkey.tidy ⟨hP.1, hP.2.1⟩ fun k hk => ?_
  exact hvalue.tidy ⟨hP.1, hP.2.2.1⟩ fun v hv => .addUnique State.Clean.plugs hk hv (.pure trivial)

theorem ofTerm_array {items : List Term} (hts : ∀ t ∈ items, OfTerm seen env rules t) :
    OfTerm seen env rules (.array items) := by
  unfold OfTerm
  simp only [Env.evalTerm]
  cases hn : Term.anyNeedsEval items with
  | true => exact (planned_evalTerms hts).bind fun vs => .pure fun hP => .array hP.2
  | false =>
    refine .withBindings fun b => .pure fun hP => hP.2.plug Term.pervasive_comprFree ?_
    exact Term.comprFree_of_not_needsEval (.array items) hn

theorem ofTerm_set {members : List Term} (hts : ∀ t ∈ members, OfTerm seen env rules t) :
    OfTerm seen env rules (.set members) := by
  unfold OfTerm
  simp only [Env.evalTerm]
  cases hn : Term.anyNeedsEval members with
  | true => exact (planned_evalTerms hts).bind fun vs => .pure fun hP => Term.pervasive_comprFree.setOf hP.2
  | false =>
    refine .withBindings fun b => .pure fun hP => hP.2.plug Term.pervasive_comprFree ?_
    exact Term.comprFree_of_not_needsEval (.set members) hn

theorem ofTerm_object {fields : List (Term × Term)}
    (hfs : ∀ f ∈ fields, OfTerm seen env rules f.1 ∧ OfTerm seen env rules f.2) :
    OfTerm seen env rules (.object fields) := by
  unfold OfTerm
  simp only [Env.evalTerm]
  cases hn : Term.fieldsNeedEval fields with
  | true => exact (planned_evalFields hfs).bind fun fs => .pure fun hP => Term.pervasive_comprFree.objectOf hP.2
  | false =>
    refine .withBindings fun b => .pure fun hP => hP.2.plug Term.pervasive_comprFree ?_
    exact Term.comprFree_of_not_needsEval (.object fields) hn

theorem ofTerm_scalar {t : Term} (ht : t.isScalar = true) : OfTerm seen env rules t := by
  unfold OfTerm
  cases t with
  | null | bool _ | number _ | string _ =>
    simp only [Env.evalTerm]
    exact .pure fun _ => .scalar rfl
  | _ => cases ht

theorem OfTerms.of_not_call {t : Term} (ht : OfTerm seen env rules t)
    (hn : ∀ operator arguments, t ≠ .call operator arguments) : OfTerms seen env rules t :=
  ⟨ht, fun operator arguments he => absurd he (hn operator arguments)⟩

/-- The first ground value of a term is plain. -/
theorem OfTerm.yields_first {t : Term} (ht : OfTerm seen env rules t) (hsound : env.Sound seen rules) (hfit : t.Fit) :
    (Search.first (env.evalTerm rules t)).Yields seen (IfSome Term.Plain) := by
  refine .gather (ht.tidy ⟨hsound, hfit⟩ fun v hv => ?_) ifSome_none
  exact .ground State.Clean.plugs (fun t ht => .accept fun _ _ => ifSome_some ht) hv

/-! ### Expressions -/

/-- A call as an expression: its value is not false, or it equals the last operand. -/
theorem planned_calling {arguments : List Term} (hts : ∀ t ∈ arguments, OfTerm seen env rules t) (callee : Callee)
    (output : Option Nat) :
    Planned seen env ((env.Sound seen rules ∧ Term.FitAll arguments) ∧ callee.Clean env) (fun _ => True)
      fun _ k => env.evalCall rules callee output arguments []
        (fun v => if v == .bool false then Search.exhausted else k ()) (k ()) := by
  have hfound : ∀ v : Term, Source.Planned seen env (((env.Sound seen rules ∧ Term.FitAll arguments) ∧
      callee.Clean env) ∧ True) (fun _ => True) fun _ k => if v == .bool false then Search.exhausted else k () := by
    intro v
    split
    · exact .exhausted
    · exact .pure fun _ => trivial
  have hcall := (planned_evalCall hts callee output []).bindOption
    (fun v => (hfound v).guard fun hP => ⟨hP.1.1, trivial⟩)
    (show Source.Planned _ _ _ _ fun _ k => k () from .pure fun _ => trivial)
  exact hcall.guard fun hP => ⟨hP, List.forall_mem_nil _⟩

theorem ofKind_call {operator : Term} {arguments : List Term} (hts : ∀ t ∈ arguments, OfTerm seen env rules t) :
    OfKind seen env rules (.term (.call operator arguments)) := by
  unfold OfKind
  simp only [Coupling.evalKind_call]
  cases operator.refName? with
  | none => exact .raise _
  | some name =>
    dsimp only
    split
    · next x y _ =>
      simp only [List.forall_mem_cons] at hts
      refine (hts.1.guard fun hP => ⟨hP.1, hP.2.1⟩).bind fun x => ?_
      refine (hts.2.1.guard fun hP => ⟨hP.1.1, hP.1.2.2.1⟩).bind fun y => ?_
      exact .unifying (fun hP => ⟨hP.1.2, hP.2⟩) (.pure fun _ => trivial)
    · refine .after (fun _ => env.yields_resolveFunction name) fun r => ?_
      exact (planned_calling hts r.1 _).guard fun hP => ⟨hP.1, hP.2⟩

theorem ofKind_term {t : Term} (ht : OfTerms seen env rules t) : OfKind seen env rules (.term t) := by
  cases t with
  | call operator arguments => exact ofKind_call (ht.2 operator arguments rfl)
  | _ =>
    unfold OfKind
    simp only [Env.evalKind]
    refine ht.1.bind fun v => ?_
    split
    · exact .exhausted
    · exact .exhausted
    · exact .pure fun _ => trivial

theorem ofKind_generator {operator : Term} {arguments : List Term} (hts : ∀ t ∈ arguments, OfTerm seen env rules t) :
    OfKind seen env rules (.someDecl [.call operator arguments]) := by
  unfold OfKind
  simp only [Coupling.evalKind_generator]
  split
  · next value domain _ =>
    simp only [List.forall_mem_cons] at hts
    refine (hts.2.1.guard fun hP => ⟨hP.1, hP.2.1.1.2.1⟩).bind fun v => .each v.entries fun entry => ?_
    refine .extending (fun hP => ?_) (.pure fun _ => trivial)
    refine Bindings.extends_bindEntry Term.pervasive_comprFree ifSome_none (hP.1.1.2.2 _ _ rfl value List.mem_cons_self) ?_
    exact Term.pervasive_comprFree.entries hP.1.2 hP.2
  · next key value domain _ =>
    simp only [List.forall_mem_cons] at hts
    refine (hts.2.2.1.guard fun hP => ⟨hP.1, hP.2.1.1.2.2.1⟩).bind fun v => .each v.entries fun entry => ?_
    refine .extending (fun hP => ?_) (.pure fun _ => trivial)
    have hpatterns := hP.1.1.2.2 _ _ rfl
    simp only [List.dropLast, List.forall_mem_cons] at hpatterns
    refine Bindings.extends_bindEntry Term.pervasive_comprFree (ifSome_some hpatterns.1) hpatterns.2.1 ?_
    exact Term.pervasive_comprFree.entries hP.1.2 hP.2
  · exact .raise _

theorem ofKind_someDecl {symbols : List Term} (hts : ∀ t ∈ symbols, OfTerms seen env rules t) :
    OfKind seen env rules (.someDecl symbols) := by
  by_cases hs : ∃ operator arguments, symbols = [.call operator arguments]
  · obtain ⟨operator, arguments, rfl⟩ := hs
    exact ofKind_generator ((hts _ List.mem_cons_self).2 operator arguments rfl)
  · unfold OfKind
    have heq : ∀ {α : Type} (k : Search α), env.evalKind rules (.someDecl symbols) k =
        Search.extending (fun b => some (b.hideAll symbols)) k := by
      intro α k
      rw [Env.evalKind]
      rintro operator arguments rfl
      exact hs ⟨operator, arguments, rfl⟩
    simp only [heq]
    exact .extending (fun _ => Bindings.extends_hideAll symbols) (.pure fun _ => trivial)

theorem ofKind_every {key : Option Term} {value domain : Term} {body : Body} (hd : OfTerm seen env rules domain)
    (hb : OfBody seen env rules body) : OfKind seen env rules (.every key value domain body) := by
  unfold OfKind
  simp only [Env.evalKind]
  refine .after (fun hP => hd.yields_first hP.1 hP.2.2.2.1) fun found => ?_
  cases found with
  | none => exact .pure fun _ => trivial
  | some domain =>
    refine .after (p := fun _ => True) (fun hP => .forAll fun entry hentry => ?_) fun holds => ?_
    · refine env.yields_checkpoint.bind fun _ _ => Eval.Yields.extending ?_ trivial (.gather ?_ trivial)
      · refine Bindings.extends_bindEntry Term.pervasive_comprFree hP.1.2.1 hP.1.2.2.1 ?_
        exact Term.pervasive_comprFree.entries (hP.2 domain rfl).comprFree hentry
      · exact hb.tidy ⟨hP.1.1, hP.1.2.2.2.2⟩ fun _ _ => .accept fun _ _ => trivial
    · cases holds with
      | true => exact .pure fun _ => trivial
      | false => exact .exhausted

theorem yields_evalOverrides {overrides : List (Term × Term)} (hts : ∀ o ∈ overrides, OfTerm seen env rules o.2)
    (hsound : env.Sound seen rules) (hfit : Expr.FitOverrides overrides) {σ : Scope} (hσ : σ.Plain) :
    (env.evalOverrides rules overrides σ).Yields seen (IfSome Scope.Plain) := by
  induction overrides generalizing σ with
  | nil =>
    simp only [Env.evalOverrides]
    exact .pure (ifSome_some hσ)
  | cons o rest ih =>
    obtain ⟨target, replacement⟩ := o
    rw [List.forall_mem_cons] at hts
    simp only [Env.evalOverrides]
    split
    · exact .throw _
    · split
      · exact ih hts.2 hfit.2 (hσ.mock _ fun _ hv => by cases hv)
      · refine (hts.1.yields_first hsound hfit.1).bind fun value hvalue => ?_
        cases value with
        | none => exact .pure ifSome_none
        | some value => exact (hσ.yields_override _ (hvalue value rfl)).bind fun σ hσ => ih hts.2 hfit.2 hσ

theorem planned_evalSigned {kind : ExprKind} (hkind : OfKind seen env rules kind) (negated : Bool) :
    Planned seen env (env.Sound seen rules ∧ kind.Fit) (fun _ => True)
      fun _ k => Coupling.evalSigned env rules negated kind (k ()) := by
  unfold Coupling.evalSigned
  cases negated with
  | false => exact hkind
  | true =>
    refine .after (p := fun _ => True) (fun hP => .gather (hkind.tidy hP fun _ _ => .accept fun _ _ => trivial) trivial)
      fun holds => ?_
    cases holds with
    | true => exact .exhausted
    | false => exact .pure fun _ => trivial

theorem ofExpr_mk {kind : ExprKind} {negated : Bool} {overrides : List (Term × Term)} {index : Nat}
    (hkind : OfKind seen env rules kind) (hts : ∀ o ∈ overrides, OfTerm seen env rules o.2) :
    OfExpr seen env rules (.mk kind negated overrides index) := by
  unfold OfExpr
  simp only [Coupling.evalExpr_eq]
  refine .after (p := fun _ => True) (fun hP => ?_) fun depth => ?_
  · refine env.yields_checkpoint.bind fun _ _ => .get fun s _ => ?_
    exact (hP.1.clean.yields_emit .eval s.depth _).bind fun _ _ => .pure trivial
  · have hsigned := (planned_evalSigned hkind negated).guard
      fun hP : (env.Sound seen rules ∧ (Expr.mk kind negated overrides index).Fit) ∧ True => ⟨hP.1.1, hP.1.2.1⟩
    cases hempty : overrides.isEmpty with
    | true => exact .orElse hsigned fun hP => hP.1.1.clean.yields_emit .fail depth _
    | false =>
      suffices hoverriding : Source.Planned seen env
          ((env.Sound seen rules ∧ (Expr.mk kind negated overrides index).Fit) ∧ True) (fun _ => True)
          fun _ k => Coupling.evalOverriding env rules negated kind overrides (k ()) from
        hoverriding.orElse fun hP => hP.1.1.clean.yields_emit .fail depth _
      refine .afterSome (p := Scope.Plain) (fun hP => ?_) fun σ => .inScope And.right (hsigned.guard And.left)
      exact .get fun s hs => yields_evalOverrides hts hP.1.1 hP.1.2.2 hs.scope

/-! ### The whole text -/

mutual
theorem ofTerms (seen : Host → Prop) (env : Env) (rules : RuleSemantics) : ∀ t : Term, OfTerms seen env rules t
  | .var x => .of_not_call (ofTerm_var x) nofun
  | .ref head operands =>
    .of_not_call (ofTerm_ref (ofTerms seen env rules head).1 (ofTerms_all seen env rules operands)) nofun
  | .call _ arguments =>
    ⟨ofTerm_call (ofTerms_all seen env rules arguments), fun _ _ he => by
      cases he
      exact ofTerms_all seen env rules arguments⟩
  | .arrayCompr term body =>
    .of_not_call (ofTerm_arrayCompr (ofTerms seen env rules term).1 (ofBody seen env rules body)) nofun
  | .setCompr term body =>
    .of_not_call (ofTerm_setCompr (ofTerms seen env rules term).1 (ofBody seen env rules body)) nofun
  | .objectCompr key value body =>
    .of_not_call (ofTerm_objectCompr (ofTerms seen env rules key).1 (ofTerms seen env rules value).1
      (ofBody seen env rules body)) nofun
  | .array items => .of_not_call (ofTerm_array (ofTerms_all seen env rules items)) nofun
  | .set members => .of_not_call (ofTerm_set (ofTerms_all seen env rules members)) nofun
  | .object fields => .of_not_call (ofTerm_object (ofTerms_fields seen env rules fields)) nofun
  | .null => .of_not_call (ofTerm_scalar rfl) nofun
  | .bool _ => .of_not_call (ofTerm_scalar rfl) nofun
  | .number _ => .of_not_call (ofTerm_scalar rfl) nofun
  | .string _ => .of_not_call (ofTerm_scalar rfl) nofun
theorem ofTerms_all (seen : Host → Prop) (env : Env) (rules : RuleSemantics) :
    ∀ ts : List Term, ∀ t ∈ ts, OfTerm seen env rules t
  | [] => nofun
  | t :: rest => List.forall_mem_cons.2 ⟨(ofTerms seen env rules t).1, ofTerms_all seen env rules rest⟩
theorem ofTerms_symbols (seen : Host → Prop) (env : Env) (rules : RuleSemantics) :
    ∀ ts : List Term, ∀ t ∈ ts, OfTerms seen env rules t
  | [] => nofun
  | t :: rest => List.forall_mem_cons.2 ⟨ofTerms seen env rules t, ofTerms_symbols seen env rules rest⟩
theorem ofTerms_fields (seen : Host → Prop) (env : Env) (rules : RuleSemantics) :
    ∀ fs : List (Term × Term), ∀ f ∈ fs, OfTerm seen env rules f.1 ∧ OfTerm seen env rules f.2
  | [] => nofun
  | (k, v) :: rest => List.forall_mem_cons.2
    ⟨⟨(ofTerms seen env rules k).1, (ofTerms seen env rules v).1⟩, ofTerms_fields seen env rules rest⟩
theorem ofKind (seen : Host → Prop) (env : Env) (rules : RuleSemantics) :
    ∀ kind : ExprKind, OfKind seen env rules kind
  | .term t => ofKind_term (ofTerms seen env rules t)
  | .someDecl symbols => ofKind_someDecl (ofTerms_symbols seen env rules symbols)
  | .every _ _ domain body => ofKind_every (ofTerms seen env rules domain).1 (ofBody seen env rules body)
theorem ofExpr (seen : Host → Prop) (env : Env) (rules : RuleSemantics) : ∀ e : Expr, OfExpr seen env rules e
  | .mk kind _ overrides _ =>
    ofExpr_mk (ofKind seen env rules kind) fun o ho => (ofTerms_fields seen env rules overrides o ho).2
theorem ofBody (seen : Host → Prop) (env : Env) (rules : RuleSemantics) : ∀ body : Body, OfBody seen env rules body
  | [] => by
    unfold OfBody
    simp only [Env.evalBody]
    exact .pure fun _ => trivial
  | e :: rest => by
    unfold OfBody
    simp only [Env.evalBody]
    have hrest : Planned seen env ((env.Sound seen rules ∧ Expr.FitBody (e :: rest)) ∧ True) (fun _ => True)
        fun _ k => env.evalBody rules rest (k ()) :=
      (ofBody seen env rules rest).guard fun hP => ⟨hP.1.1, hP.1.2.2⟩
    exact ((ofExpr seen env rules e).guard fun hP => ⟨hP.1, hP.2.1⟩).bind fun _ => hrest
end

end Plan
end PolicyEngine
