import PolicyEngine.Proofs.Steps

/-!
The evaluator respects every lawful coupling. Given meanings of rules that answer to each other, so do the
documents, the calls, the searches for the values of terms and for the environments of bodies, and the
evaluations of rules built from them. What a particular coupling says is left to its primitive steps.
-/
namespace PolicyEngine
namespace Coupling

variable {ι : Type} {C : Coupling ι} {α α' β γ : Type} {w : C.World} {P Q : Prop} {A : Gathering α α'}
  {B : β → β → Prop}

-- the searches unfold along the text that they are about
attribute [simp] Env.evalTerm Env.evalTerms Env.evalFields Env.walk Env.evalCall Env.evalKind Env.evalOverrides
  Env.evalExpr Env.evalBody

/-- Meanings of rules that answer to each other. -/
structure RulesAnswer (C : Coupling ι) (rules : RuleSemantics) (rules' : ι → RuleSemantics) : Prop where
  document : ∀ w rs, C.Computes w (rs ∈ C.env.policy.ruleSets) (Both (IfSome (Term.VarsIn C.names)))
    (rules.document rs) fun i => (rules' i).document rs
  function : ∀ w rs args, C.Computes w (rs ∈ C.env.policy.ruleSets ∧ ∀ t ∈ args, t.VarsIn C.names)
    (Both (IfSome (Term.VarsIn C.names))) (rules.function rs args) fun i => (rules' i).function rs args

/-! ## More combinators -/

/-- The same result on both sides, used on both sides. -/
theorem Computes.bindBoth (h : C.Lawful) {p : β → Prop} {D : γ → γ → Prop} {m : Eval β} {m' : ι → Eval β}
    {f : β → Eval γ} {f' : ι → β → Eval γ} (hm : C.Computes w P (Both p) m m')
    (hf : ∀ b, C.Computes w (P ∧ p b) D (f b) fun i => f' i b) :
    C.Computes w P D (m >>= f) fun i => m' i >>= f' i := by
  refine hm.bind h fun b b' => ⟨(hf b).1, fun ⟨hP, hb, hp⟩ => ?_⟩
  subst hb
  exact (hf b').2 ⟨hP, hp⟩

theorem Computes.afterBoth (h : C.Lawful) {p : β → Prop} {m : Eval β} {m' : ι → Eval β}
    {k : β → Search α} {k' : ι → β → Search α'} (hm : C.Computes w P (Both p) m m')
    (hk : ∀ b, C.Simulates w (P ∧ p b) A (k b) fun i => k' i b) :
    C.Simulates w P A (Search.after m k) fun i => Search.after (m' i) (k' i) := by
  refine hm.after h fun b b' => ⟨(hk b).1, fun ⟨hP, hb, hp⟩ => ?_⟩
  subst hb
  exact (hk b').2 ⟨hP, hp⟩

theorem Simulates.unifying (h : C.Lawful) {x y : Term} {k : Search α} {k' : ι → Search α'}
    (hxy : P → x.VarsIn C.names ∧ y.VarsIn C.names) (hk : C.Simulates w P A k k') :
    C.Simulates w P A (Search.unifying x y k) fun i => Search.unifying x y (k' i) :=
  hk.extending h fun hP => Bindings.adds_unify (hxy hP).1 (hxy hP).2

theorem simulates_ground (h : C.Lawful) {t : Term} (ht : P → t.VarsIn C.names) {k : Term → Search α}
    {k' : ι → Term → Search α'} (hk : ∀ t, C.Simulates w (P ∧ t.VarsIn C.names) A (k t) fun i => k' i t) :
    C.Simulates w P A (Search.ground k t) fun i => Search.ground (k' i) t := by
  refine simulates_withBindings h fun b => ?_
  simp only
  split
  · exact (hk _).guard fun ⟨hP, hb⟩ => ⟨hP, hb.plug (ht hP)⟩
  · exact simulates_exhausted h

/-- A search whose continuations may be exchanged for ones that simulate them. -/
theorem Computes.first (h : C.Lawful) {search : (Term → Search (Option Term)) → Search (Option Term)}
    {search' : ι → (Term → Search (Option Term)) → Search (Option Term)}
    (hs : ∀ k : Term → Search (Option Term), ∀ k' : ι → Term → Search (Option Term),
      (∀ t, C.Simulates w (P ∧ t.VarsIn C.names) (Both (IfSome fun t : Term => t.isGround = true)) (k t) fun i => k' i t) →
        C.Simulates w P (Both (IfSome fun t : Term => t.isGround = true)) (search k) fun i => search' i (k' i)) :
    C.Computes w P (Both (IfSome fun t : Term => t.isGround = true)) (Search.first search)
      fun i => Search.first (search' i) := by
  refine Simulates.gather (hs _ _ fun t => ?_) fun _ => ⟨rfl, ifSome_none⟩
  refine simulates_withBindings h fun b => ?_
  simp only
  split
  · next hground => exact simulates_accept h trivial (fun _ _ => trivial) fun _ _ _ _ => ⟨rfl, ifSome_some hground⟩
  · exact simulates_exhausted h

/-- The fields of an object with only the variables of a kind. -/
def FieldsIn (p : String → Prop) (fs : List (Term × Term)) : Prop := ∀ f ∈ fs, f.1.VarsIn p ∧ f.2.VarsIn p

theorem FieldsIn.insertField {p : String → Prop} {fs : List (Term × Term)} {k v : Term} (h : FieldsIn p fs)
    (hk : k.VarsIn p) (hv : v.VarsIn p) : FieldsIn p (Term.insertField k v fs) :=
  Term.forall_insertField h hk hv

/-- The value of another field with an equal key, unless it is equal too. -/
def clash? (key value : Term) (fields : List (Term × Term)) : Option Term :=
  (Term.findField? key fields).filter fun old => !(old == value)

/-- Fields are added alike where those added before belong together, clash alike and are admitted. -/
theorem simulates_addField (h : C.Lawful) {conflict : Term → Term → Term → EvalError} {note : Eval Unit}
    {note' : ι → Eval Unit} {key value : Term} {A : Gathering (List (Term × Term)) (List (Term × Term))}
    (hkey : P → key.VarsIn C.names) (hvalue : P → value.VarsIn C.names) (hnote : C.Computes w P Eq note note')
    (hdone : ∀ s, ∃ s', note.run s = (.ok (), s'))
    (hclash : ∀ k v old a a', C.follows (conflict k old v) → A.rel a a' → clash? k v a = some old →
      clash? k v a' = some old)
    (hadmits : ∀ k v a, clash? k v a = none → A.admits (Term.insertField k v a) → A.admits a)
    (hinsert : ∀ k v a a', k.VarsIn C.names → v.VarsIn C.names → A.rel a a' → clash? k v a = none →
      A.admits (Term.insertField k v a) →
        clash? k v a' = none ∧ A.rel (Term.insertField k v a) (Term.insertField k v a')) :
    C.Simulates w P A (Search.addUnique conflict note key value)
      fun i => Search.addUnique conflict (note' i) key value := by
  refine simulates_ground h hvalue fun value => simulates_ground h (fun hP => hkey hP.1) fun key => ?_
  constructor
  · intro a s
    dsimp only
    cases hnone : (Term.findField? key a).filter fun old => !(old == value) with
    | some old => exact h.advances_refl _ _ _
    | none =>
      have hgrow := hnote.1 s
      obtain ⟨s₁, hrun⟩ := hdone s
      simp only [hrun, Search.after, Search.collect] at hgrow ⊢
      exact ⟨hgrow, hadmits key value a hnone⟩
  · rintro ⟨⟨hP, hv⟩, hk⟩ u hu a a' s t hA hst hfol hadm
    dsimp only at hfol hadm ⊢
    cases hold : clash? key value a with
    | some old =>
      rw [clash?] at hold
      simp only [hold] at hfol hadm ⊢
      have hold' := hclash key value old a a' (hfol.1 _ rfl) hA hold
      rw [clash?] at hold'
      refine ⟨⟨.error (conflict key old value), a', t⟩, .of_forall fun _ => ?_, .inl ⟨rfl, ⟨hA, ?_⟩, hst, rfl⟩⟩
      · simp only [hold', Search.raise]
      · rintro ⟨⟩
    | none =>
      have hnone := hold
      rw [clash?] at hnone
      simp only [hnone, Search.after] at hfol hadm ⊢
      have hs := hnote.2 hP u hu s t hst
      obtain ⟨s₁, hrun⟩ := hdone s
      simp only [hrun, Search.collect] at hs hfol hadm ⊢
      obtain ⟨hnone', hA'⟩ := hinsert key value a a' hk hv hA hold hadm
      obtain ⟨⟨out, t₁⟩, hr', hagree⟩ := hs ⟨by rintro e ⟨⟩, hfol.2⟩
      rw [clash?] at hnone'
      simp only [hnone']
      cases out with
      | error e' =>
        refine ⟨⟨.error e', a', t₁⟩, hr'.mono fun i hi => by simp only [Search.after, hi], .inr ?_⟩
        simpa [Agree, Results] using hagree
      | ok _ =>
        refine ⟨⟨.ok .more, Term.insertField key value a', t₁⟩,
          hr'.mono fun i hi => by simp only [Search.after, hi, Search.collect], .inl ?_⟩
        obtain ⟨_, hrel, hframe⟩ := hagree.resolve_right (by simp)
        exact ⟨rfl, ⟨hA', by rintro ⟨⟩⟩, hrel, hframe⟩

theorem simulates_addUnique (h : C.Lawful) {conflict : Term → Term → Term → EvalError} {note : Eval Unit}
    {note' : ι → Eval Unit} {key value : Term} (hkey : P → key.VarsIn C.names) (hvalue : P → value.VarsIn C.names)
    (hnote : C.Computes w P Eq note note') (hdone : ∀ s, ∃ s', note.run s = (.ok (), s')) :
    C.Simulates w P (Both (FieldsIn C.names)) (Search.addUnique conflict note key value)
      fun i => Search.addUnique conflict (note' i) key value := by
  refine simulates_addField h hkey hvalue hnote hdone ?_ (fun _ _ _ _ _ => trivial) ?_
  · rintro k v old a _ _ ⟨rfl, _⟩ hold
    exact hold
  · rintro k v a _ hk hv ⟨rfl, ha⟩ hnone _
    exact ⟨hnone, rfl, ha.insertField hk hv⟩

theorem computes_extending (h : C.Lawful) {extend : Bindings → Option Bindings} {b : β} {m : Eval β}
    {m' : ι → Eval β} (he : P → Bindings.Adds C.names extend) (hb : P → B b b) (hm : C.Computes w P B m m') :
    C.Computes w P B (Eval.extending extend b m) fun i => Eval.extending extend b (m' i) := by
  constructor
  · intro s
    rw [Eval.run_extending]
    cases extend s.bindings with
    | none => exact h.grows_refl _
    | some c => exact hm.1 { s with bindings := c }
  · intro hP v hv s t hst hfol
    have hbind := h.bindings_eq hst
    rw [Eval.run_extending] at hfol ⊢
    cases hext : extend s.bindings with
    | none =>
      refine ⟨(.ok b, t), .of_forall fun i => ?_, .inl ⟨hb hP, hst, rfl⟩⟩
      simp only [Eval.run_extending, hbind, hext]
    | some c =>
      simp only [hext] at hfol ⊢
      obtain ⟨hvars, hsuffix⟩ := he hP _ _ (h.bindings_vars hst) hext
      obtain ⟨r', hr', hagree⟩ := hm.2 hP v hv _ _ (h.setBindings hst hvars) hfol
      refine ⟨(r'.1, { r'.2 with bindings := r'.2.bindings.undo t.bindings.mark }),
        hr'.mono fun i hi => by simp only [Eval.run_extending, hbind, hext] at hi ⊢; rw [hi], ?_⟩
      refine hagree.imp_left fun ⟨hres, hrel, hframe⟩ => ⟨hres, ?_, ?_⟩
      all_goals have hc : (m.run { s with bindings := c }).2.bindings = c := congrArg Frame.bindings hframe
      · rw [h.bindings_eq hrel, hc, hbind, Bindings.undo_mark hsuffix]
        exact h.setBindings hrel (h.bindings_vars hst)
      · simp only [hc, Bindings.undo_mark hsuffix]
        exact State.frame_setBindings hframe s.bindings

theorem computes_forAll (h : C.Lawful) {test : β → Eval Bool} {test' : ι → β → Eval Bool} (bs : List β)
    (ht : ∀ b, C.Computes w (P ∧ b ∈ bs) Eq (test b) fun i => test' i b) :
    C.Computes w P Eq (Eval.forAll test bs) fun i => Eval.forAll (test' i) bs := by
  induction bs with
  | nil => exact computes_pure h fun _ => rfl
  | cons b rest ih =>
    have hrest := ih fun b => (ht b).guard fun hb => ⟨hb.1, List.mem_cons_of_mem _ hb.2⟩
    refine ((ht b).guard fun hP => ⟨hP, List.mem_cons_self⟩).bind h fun holds holds' => ?_
    have hgo : C.Computes w (P ∧ holds = holds') Eq (if holds then Eval.forAll test rest else pure false)
        fun i => if holds then Eval.forAll (test' i) rest else pure false := by
      cases holds with
      | true => exact hrest.guard And.left
      | false => exact computes_pure h fun _ => rfl
    exact hgo.congr fun hP => by rw [hP.2]

/-! ## Documents -/

theorem Computes.bothSelf {p : β → Prop} {b : β} (h : C.Lawful) (hb : P → p b) :
    C.Computes w P (Both p) (pure b) fun _ => pure b :=
  computes_pure h fun hP => ⟨rfl, hb hP⟩

theorem computes_setIn (h : C.Lawful) {p : String → Prop} {value doc : Term} (path : List String)
    (hv : P → value.VarsIn p) (hd : P → doc.VarsIn p) :
    C.Computes w P (Both (Term.VarsIn p)) (setIn value doc path) fun _ => setIn value doc path := by
  refine computes_ofExcept h fun hP => ?_
  cases hset : Term.setPath value doc path with
  | error e => rfl
  | ok t => exact ⟨rfl, (hv hP).setPath (hd hP) hset⟩

theorem computes_layOverrides (h : C.Lawful) (path : DataPath) (overrides : List (DataPath × Term))
    {doc : Option Term} (ho : P → ∀ d ∈ overrides, d.2.VarsIn C.names) (hd : P → IfSome (Term.VarsIn C.names) doc) :
    C.Computes w P (Both (IfSome (Term.VarsIn C.names))) (Env.layOverrides path overrides doc)
      fun _ => Env.layOverrides path overrides doc := by
  induction overrides generalizing doc P with
  | nil => exact .bothSelf h hd
  | cons d rest ih =>
    obtain ⟨p, value⟩ := d
    refine (computes_setIn h _ (fun hP => ho hP _ List.mem_cons_self) fun hP => ?_).bindBoth h fun doc => ?_
    · cases doc with
      | none => exact .of_isGround rfl
      | some t => exact hd hP t rfl
    · exact ih (fun hP d hmem => ho hP.1 d (List.mem_cons_of_mem _ hmem)) fun hP => ifSome_some hP.2

section Rules

variable {rules : RuleSemantics} {rules' : ι → RuleSemantics}

theorem computes_layRules (h : C.Lawful) (hr : RulesAnswer C rules rules') (path : DataPath) (sets : List RuleSet)
    {doc : Term} (hsets : P → ∀ rs ∈ sets, rs ∈ C.env.policy.ruleSets) (hd : P → doc.VarsIn C.names) :
    C.Computes w P (Both (Term.VarsIn C.names)) (Env.layRules rules path sets doc)
      fun i => Env.layRules (rules' i) path sets doc := by
  induction sets generalizing doc P with
  | nil => exact .bothSelf h hd
  | cons rs rest ih =>
    have hrest : P → ∀ rs ∈ rest, rs ∈ C.env.policy.ruleSets := fun hP rs hmem =>
      hsets hP rs (List.mem_cons_of_mem _ hmem)
    simp only [Env.layRules]
    split
    · exact ih hrest hd
    · refine ((hr.document w rs).guard fun hP => hsets hP rs List.mem_cons_self).bindBoth h fun value => ?_
      cases value with
      | none => exact ih (fun hP => hrest hP.1) fun hP => hd hP.1
      | some value =>
        refine (computes_setIn h _ (fun hP => hP.2 value rfl) fun hP => hd hP.1).bindBoth h fun doc => ?_
        exact ih (fun hP => hrest hP.1.1) And.right

theorem mem_of_coveringUpTo {policy : Policy} {path : DataPath} {n : Nat} {rs : RuleSet}
    (hc : policy.coveringUpTo path n = some rs) : rs ∈ policy.ruleSets := by
  induction n with
  | zero => exact List.mem_of_find?_eq_some hc
  | succ n ih =>
    rw [Policy.coveringUpTo] at hc
    cases hf : policy.ruleSet? (path.take (n + 1)) with
    | some found =>
      rw [hf] at hc
      cases hc
      exact List.mem_of_find?_eq_some hf
    | none =>
      rw [hf] at hc
      exact ih hc

theorem mem_of_mem_below {policy : Policy} {path : DataPath} {rs : RuleSet} (hm : rs ∈ policy.below path) :
    rs ∈ policy.ruleSets :=
  (List.dropWhile_sublist _).mem ((List.takeWhile_sublist _).mem (List.mem_filter.1 hm).1)

theorem computes_baseDocument (h : C.Lawful) (hr : RulesAnswer C rules rules') (path : DataPath) :
    C.Computes w P (Both (IfSome (Term.VarsIn C.names))) (C.env.baseDocument rules path)
      fun i => C.env'.baseDocument (rules' i) path := by
  simp only [Env.baseDocument, h.policy]
  split
  · next rs hc =>
    refine ((hr.document w rs).guard fun _ => mem_of_coveringUpTo hc).bindBoth h fun doc => ?_
    refine .bothSelf h fun hP t ht => ?_
    obtain ⟨d, hd, ht⟩ := Option.bind_eq_some_iff.1 ht
    exact (hP.2 d hd).lookupKeys ht
  · refine ((h.read w _).guard fun _ => trivial).bindBoth h fun stored => ?_
    split
    · exact .bothSelf h And.right
    · next sets _ =>
      refine (computes_layRules h hr path _ (fun _ rs hmem => mem_of_mem_below hmem) fun hP => ?_).bindBoth h
        fun doc => .bothSelf h fun hP => ifSome_some hP.2
      split
      · next fields => exact hP.2 _ rfl
      · exact .of_isGround rfl

/-- The document at a path under given overrides. -/
def documentUnder (env : Env) (rules : RuleSemantics) (path : DataPath) (overrides : List (DataPath × Term)) :
    Eval (Option Term) :=
  match Scope.covering? path overrides with
  | some (doc, later) => Env.layOverrides path (Scope.below path later) doc
  | none => do Env.layOverrides path (Scope.below path overrides) (← env.baseDocument rules path)

theorem computes_documentUnder (h : C.Lawful) (hr : RulesAnswer C rules rules') (path : DataPath)
    (overrides : List (DataPath × Term)) :
    C.Computes w (P ∧ ∀ d ∈ overrides, d.2.VarsIn C.names) (Both (IfSome (Term.VarsIn C.names)))
      (documentUnder C.env rules path overrides) fun i => documentUnder C.env' (rules' i) path overrides := by
  simp only [documentUnder]
  split
  · next doc later hc =>
    refine computes_layOverrides h path _ (fun hP d hd => ?_) fun hP => (Term.pervasive_varsIn.covering? hc hP.2).1
    exact (Term.pervasive_varsIn.covering? hc hP.2).2 d (List.mem_filter.1 hd).1
  · refine (computes_baseDocument h hr path).bindBoth h fun doc => ?_
    exact computes_layOverrides h path _ (fun hP d hd => hP.1.2 d (List.mem_filter.1 hd).1) And.right

theorem computes_document (h : C.Lawful) (hr : RulesAnswer C rules rules') (path : DataPath) :
    C.Computes w P (Both (IfSome (Term.VarsIn C.names))) (C.env.document rules path)
      fun i => C.env'.document (rules' i) path :=
  computes_gets h (fun s => s.scope.data) (fun _ _ _ hst => ⟨(h.scope_agrees hst).data, (h.scope_names hst).data⟩)
    (computes_documentUnder h hr path)

/-! ## References -/

/-- What a cursor holds has only the variables of a kind. -/
def CursorIn (p : String → Prop) : Cursor → Prop
  | .value v => v.VarsIn p
  | .child _ _ key => key.VarsIn p
  | .data _ => True

def FootingIn (p : String → Prop) : Footing → Prop
  | .value v => v.VarsIn p
  | .stored _ | .data _ => True

theorem computes_rootCursor (h : C.Lawful) (name : String) :
    C.Computes w P (Both (IfSome (CursorIn C.names))) (Env.rootCursor name) fun _ => Env.rootCursor name := by
  simp only [Env.rootCursor]
  split
  · have hgo : ∀ input : Option Term, C.Computes w (P ∧ IfSome (Term.VarsIn C.names) input)
        (Both (IfSome (CursorIn C.names))) (pure (input.map Cursor.value)) fun _ => pure (input.map Cursor.value) := by
      refine fun input => .bothSelf h fun hP c hc => ?_
      obtain ⟨t, ht, rfl⟩ := Option.map_eq_some_iff.1 hc
      exact hP.2 t ht
    exact computes_gets h (fun s => s.scope.input)
      (fun v s t hst => ⟨(h.scope_agrees hst).input, (h.scope_names hst).input⟩) hgo
  · exact .bothSelf h fun _ => ifSome_some trivial

theorem computes_arrive (h : C.Lawful) (hr : RulesAnswer C rules rules') {c : Cursor}
    (hc : P → CursorIn C.names c) :
    C.Computes w P (Both (IfSome (Term.VarsIn C.names))) (C.env.arrive rules c) fun i => C.env'.arrive (rules' i) c := by
  cases c with
  | value v => exact .bothSelf h fun hP => ifSome_some (hc hP)
  | data path => exact computes_document h hr path
  | child parent segment key =>
    simp only [Env.arrive]
    refine ((h.read w _).guard fun _ => trivial).bindBoth h fun found => ?_
    split
    · exact .bothSelf h And.right
    · refine ((h.read w _).guard fun _ => trivial).bindBoth h fun found => ?_
      split
      · refine .bothSelf h fun hP => ?_
        split
        · exact ifSome_some (hc hP.1.1)
        · exact ifSome_none
      · exact .bothSelf h fun _ => ifSome_none

/-- What an operand is to be looked up in at a data path, given its value and whether overrides touch the path. -/
def settleUnder (env : Env) (rules : RuleSemantics) (path : DataPath) (d : Bool × Term) : Eval (Option Footing) :=
  let whole : Eval (Option Footing) := do return (← env.document rules path).map .value
  if !env.policy.overlaps path then
    if d.1 then whole else pure (some (.stored (StorePath.ofKeys path)))
  else if (env.policy.ruleSet? path).isSome then whole
  else match d.2 with
    | .string key => pure (some (.data (path ++ [key])))
    | _ => whole

theorem computes_settle (h : C.Lawful) (hr : RulesAnswer C rules rules') (operand : Term) {c : Cursor}
    (hc : P → CursorIn C.names c) :
    C.Computes w P (Both (IfSome (FootingIn C.names))) (C.env.settle rules operand c)
      fun i => C.env'.settle (rules' i) operand c := by
  cases c with
  | value v => exact .bothSelf h fun hP => ifSome_some (hc hP)
  | child parent segment key => exact .bothSelf h fun _ => ifSome_some trivial
  | data path =>
    have hwhole : ∀ Q, C.Computes w Q (Both (IfSome (FootingIn C.names)))
        (do return (← C.env.document rules path).map Footing.value)
        fun i => do return (← C.env'.document (rules' i) path).map Footing.value := fun Q => by
      refine (computes_document h hr path).bindBoth h fun doc => .bothSelf h fun hP f hf => ?_
      obtain ⟨t, ht, rfl⟩ := Option.map_eq_some_iff.1 hf
      exact hP.2 t ht
    have hsettle : ∀ d : Bool × Term, C.Computes w (P ∧ True) (Both (IfSome (FootingIn C.names)))
        (settleUnder C.env rules path d) fun i => settleUnder C.env' (rules' i) path d := by
      intro d
      simp only [settleUnder, h.policy]
      split
      · split
        · exact hwhole _
        · exact .bothSelf h fun _ => ifSome_some trivial
      · split
        · exact hwhole _
        · split
          · exact .bothSelf h fun _ => ifSome_some trivial
          · exact hwhole _
    refine computes_gets h (fun s => (s.scope.touches path, s.bindings.plug operand)) (fun v s t hst => ⟨?_, trivial⟩)
      hsettle
    simp only [Scope.touches, (h.scope_agrees hst).data, h.bindings_eq hst]

/-! ## Calls -/

/-- What a call runs belongs to the policy or to the registry, or has only the variables of a kind. -/
def CalleeIn (C : Coupling ι) : Callee → Prop
  | .builtin b => C.env.registry.get? b.name = some b
  | .rules rs => rs ∈ C.env.policy.ruleSets
  | .constant v => v.VarsIn C.names

theorem function_congr (h : C.Lawful) (name : String) : C.env'.function name = C.env.function name := by
  simp only [Env.function, Env.function?, Env.ruleFunction?, h.policy, h.registry]

/-- A name stands for a built-in of the registry or for a rule set of the policy. -/
theorem function_cases {env : Env} {name : String} {callee : Callee} {arity : Option Nat}
    (hf : env.function name = .ok (callee, arity)) :
    (∃ b, callee = .builtin b ∧ env.registry.get? b.name = some b) ∨
      ∃ rs, callee = .rules rs ∧ rs ∈ env.policy.ruleSets := by
  simp only [Env.function, Env.function?] at hf
  split at hf
  · next found hfound =>
    cases hf
    split at hfound
    · next rs hrs =>
      cases hfound
      obtain ⟨_, _, hrs⟩ := Option.bind_eq_some_iff.1 (Option.filter_eq_some_iff.1 hrs).1
      exact .inr ⟨rs, rfl, List.mem_of_find?_eq_some hrs⟩
    · obtain ⟨b, hb, he⟩ := Option.map_eq_some_iff.1 hfound
      cases he
      have hname : b.name = name := by simpa using List.find?_some hb
      rw [← hname] at hb
      exact .inl ⟨b, rfl, hb⟩
  · cases hf

theorem calleeIn_function {name : String} {callee : Callee} {arity : Option Nat}
    (hf : C.env.function name = .ok (callee, arity)) : CalleeIn C callee := by
  rcases function_cases hf with ⟨b, rfl, hb⟩ | ⟨rs, rfl, hrs⟩
  · exact hb
  · exact hrs

theorem computes_function (h : C.Lawful) (name : String) :
    C.Computes w P (Both fun r => CalleeIn C r.1) (Eval.ofExcept (C.env.function name))
      fun _ => Eval.ofExcept (C.env'.function name) := by
  rw [function_congr h]
  refine computes_ofExcept h fun _ => ?_
  cases hf : C.env.function name with
  | error e => rfl
  | ok r => exact ⟨rfl, calleeIn_function hf⟩

/-- The function to call in place of the one with a name, under given mocks. -/
def mockedUnder (env : Env) (name : String) (found : Callee × Option Nat) (mocks : List (String × Mock)) :
    Eval (Callee × Option Nat) :=
  match (mocks.find? fun (n, _) => n == name).map Prod.snd with
  | none => pure (found.1, found.2)
  | some (.value v) => pure (.constant v, found.2)
  | some (.alias target) => do
    let (callee, _) ← Eval.ofExcept (env.function target)
    pure (callee, found.2)

theorem computes_mockedUnder (h : C.Lawful) (name : String) (found : Callee × Option Nat)
    (mocks : List (String × Mock)) :
    C.Computes w ((P ∧ CalleeIn C found.1) ∧ ∀ f ∈ mocks, ∀ v, f.2 = .value v → v.VarsIn C.names)
      (Both fun r => CalleeIn C r.1) (mockedUnder C.env name found mocks)
      fun _ => mockedUnder C.env' name found mocks := by
  simp only [mockedUnder]
  split
  · exact .bothSelf h fun hP => hP.1.2
  · next v hv =>
    obtain ⟨f, hf, hfv⟩ := Option.map_eq_some_iff.1 hv
    exact .bothSelf h fun hP => hP.2 f (List.mem_of_find?_eq_some hf) v hfv
  · next target _ =>
    exact (computes_function h target).bindBoth h fun r => .bothSelf h And.right

theorem computes_resolveFunction (h : C.Lawful) (name : String) :
    C.Computes w P (Both fun r => CalleeIn C r.1) (C.env.resolveFunction name)
      fun _ => C.env'.resolveFunction name := by
  refine (computes_function h name).bindBoth h fun found => ?_
  exact computes_gets h (fun s => s.scope.functions)
    (fun v s t hst => ⟨(h.scope_agrees hst).functions, (h.scope_names hst).values⟩) (computes_mockedUnder h name found)

theorem computes_apply (h : C.Lawful) (hr : RulesAnswer C rules rules') {callee : Callee} {args : List Term}
    (hc : P → CalleeIn C callee) (ha : P → ∀ t ∈ args, t.VarsIn C.names) :
    C.Computes w P (Both (IfSome (Term.VarsIn C.names))) (C.env.apply rules callee args)
      fun i => C.env'.apply (rules' i) callee args := by
  cases callee with
  | builtin b => exact (h.callBuiltin w b args).guard hc
  | rules rs =>
    simp only [Env.apply]
    split
    · exact (hr.function w rs args).guard fun hP => ⟨hc hP, ha hP⟩
    · exact .bothSelf h fun _ => ifSome_none
  | constant v => exact .bothSelf h fun hP => ifSome_some (hc hP)

/-! ## Overrides -/

/-- Scopes with the same overrides, which have only the variables of a kind. -/
def ScopesAgree (C : Coupling ι) (σ τ : Scope) : Prop := σ.Agrees τ ∧ σ.VarsIn C.free C.mocks

theorem overrideTarget_congr (h : C.Lawful) (target : Term) :
    C.env'.overrideTarget target = C.env.overrideTarget target := by
  simp only [Env.overrideTarget, h.policy, h.registry]

theorem mockedBy?_congr (h : C.Lawful) (target : Env.OverrideTarget) (replacement : Term) :
    C.env'.mockedBy? target replacement = C.env.mockedBy? target replacement := by
  simp only [Env.mockedBy?, Env.function?, Env.ruleFunction?, h.policy, h.registry]

theorem agrees_mock {σ τ : Scope} {name : String} {m : Mock} (ha : σ.Agrees τ) :
    (σ.mock name m).Agrees (τ.mock name m) :=
  ⟨ha.input, ha.data, by simp only [Scope.mock, ha.functions]⟩

theorem varsIn_mock {p q : String → Prop} {σ : Scope} {name : String} {m : Mock} (hσ : σ.VarsIn p q) (hn : q name)
    (hm : ∀ v, m = .value v → v.VarsIn p) : (σ.mock name m).VarsIn p q :=
  ⟨hσ.input, hσ.data, List.forall_mem_cons.2 ⟨hn, hσ.functions⟩, List.forall_mem_cons.2 ⟨hm, hσ.values⟩⟩

theorem computes_override (h : C.Lawful) {target : Env.OverrideTarget} {value : Term} {σ τ : Scope}
    (hn : P → ∀ name, target = .function name → C.mocks name) (hv : P → value.VarsIn C.free)
    (hσ : P → ScopesAgree C σ τ) :
    C.Computes w P (ScopesAgree C) (σ.override target value)
      fun _ => τ.override target value := by
  cases target with
  | input path =>
    have hset : C.Computes w P (Both (Term.VarsIn C.free)) (setIn value (σ.input.getD Term.emptyObject) path)
        fun _ => setIn value (τ.input.getD Term.emptyObject) path := by
      refine (computes_setIn h path hv fun hP => ?_).congr fun hP => by rw [(hσ hP).1.input]
      cases hi : σ.input with
      | none => exact .of_isGround rfl
      | some t => exact (hσ hP).2.input t hi
    refine hset.bindBoth h fun doc => computes_pure h fun ⟨hP, hdoc⟩ => ?_
    obtain ⟨ha, hvars⟩ := hσ hP
    exact ⟨⟨rfl, ha.data, ha.functions⟩, ifSome_some hdoc, hvars.data, hvars.functions, hvars.values⟩
  | data path =>
    refine computes_pure h fun hP => ?_
    obtain ⟨ha, hvars⟩ := hσ hP
    refine ⟨⟨ha.input, by simp only [ha.data], ha.functions⟩, hvars.input, ?_, hvars.functions, hvars.values⟩
    intro d hd
    rcases List.mem_append.1 hd with hd | hd
    · exact hvars.data d hd
    · exact List.mem_singleton.1 hd ▸ hv hP
  | function name =>
    refine computes_pure h fun hP => ⟨agrees_mock (hσ hP).1, varsIn_mock (hσ hP).2 (hn hP name rfl) ?_⟩
    intro v hm
    cases hm
    exact hv hP

/-! ## Terms and bodies -/

/-- An override target under which only the functions of a kind are replaced. -/
abbrev TargetIn (C : Coupling ι) : Term → Prop := C.env.TargetIn C.mocks

theorem computes_entry (h : C.Lawful) {op : TraceOp} (text : Unit → String) :
    C.Computes w P C.depths (do
        C.env.checkpoint
        let depth := (← get).depth
        C.env.emit op depth text
        pure depth)
      (fun _ => do
        C.env'.checkpoint
        let depth := (← get).depth
        C.env'.emit op depth text
        pure depth) := by
  refine ((h.checkpoint w).guard fun _ => trivial).bind h fun _ _ => computes_get h fun v _ s t => ?_
  refine ((h.emit v op s.depth t.depth text).guard fun hP => h.depth hP.2).bind h fun _ _ => ?_
  exact computes_pure h fun hP => h.depth hP.1.2

/-- What an expression asks, or its negation. -/
def evalSigned (env : Env) (rules : RuleSemantics) (negated : Bool) (kind : ExprKind) (k : Search α) : Search α :=
  if negated then
    Search.after (Search.gather (env.evalKind rules kind (Search.accept fun _ => true)) false) fun holds =>
      if holds then Search.exhausted else k
  else env.evalKind rules kind k

/-- The same under overrides, in a scope of its own. -/
def evalOverriding (env : Env) (rules : RuleSemantics) (negated : Bool) (kind : ExprKind)
    (overrides : List (Term × Term)) (k : Search α) : Search α :=
  Search.afterSome (do env.evalOverrides rules overrides (← get).scope) fun scope =>
    Search.inScope scope (evalSigned env rules negated kind) k

theorem evalExpr_eq (env : Env) (rules : RuleSemantics) (kind : ExprKind) (negated : Bool)
    (overrides : List (Term × Term)) (index : Nat) (k : Search α) :
    env.evalExpr rules (.mk kind negated overrides index) k =
      Search.after (do
          env.checkpoint
          let depth := (← get).depth
          env.emit .eval depth fun _ => (Expr.mk kind negated overrides index).text
          pure depth) fun depth =>
        Search.orElse
          (if overrides.isEmpty then evalSigned env rules negated kind (Search.noting k)
          else evalOverriding env rules negated kind overrides (Search.noting k))
          (env.emit .fail depth fun _ => (Expr.mk kind negated overrides index).text) := by
  rw [Env.evalExpr]
  rfl

theorem deref_root {p : String → Prop} {b : Bindings} (hb : b.VarsIn p) {x : String} (hx : p x ∨ isRoot x = true) :
    (b.deref (.var x)).VarsIn p ∨ ∃ y, b.deref (.var x) = .var y ∧ isRoot y = true := by
  rcases hx with hx | hx
  · exact .inl (hb.deref (Term.varsIn_var.2 hx))
  · cases hl : b.lookup x with
    | some t => exact .inl (hb.deref (Term.varsIn_var.2 (hb.lookup hl).1))
    | none => exact .inr ⟨x, Bindings.deref_unbound hl, hx⟩

theorem simulates_insertGround (h : C.Lawful) {t : Term} :
    C.Simulates w (P ∧ t.VarsIn C.names) (Both fun members : List Term => ∀ t ∈ members, t.VarsIn C.names)
      (Search.ground (fun t => Search.collect (Term.insertMember t)) t)
      fun _ => Search.ground (fun t => Search.collect (Term.insertMember t)) t := by
  refine simulates_ground h And.right fun t => simulates_collect h (fun _ _ => trivial) ?_
  rintro ⟨_, ht⟩ members _ _ ⟨rfl, hmembers⟩
  exact ⟨rfl, Term.forall_insertMember hmembers ht⟩

theorem varsIn_lenientOperand {p : String → Prop} {ts : List Term} (h : ∀ t ∈ ts, t.VarsIn p) :
    (lenientOperand ts).VarsIn p := by
  unfold lenientOperand
  split
  · exact .of_isGround rfl
  · exact h _ List.mem_cons_self
  · exact Term.varsIn_set.2 h

/-! ### What is proved of each part of the source text -/

/-- The search for the values of a term is simulated, whatever its continuation. -/
def TermAnswers (C : Coupling ι) (rules : RuleSemantics) (rules' : ι → RuleSemantics) (t : Term) : Prop :=
  ∀ {α α' : Type} {A : Gathering α α'} {w : C.World} {P : Prop} {k : Term → Search α} {k' : ι → Term → Search α'},
    (P → t.Proper C.names (TargetIn C)) →
    (∀ v, C.Simulates w (P ∧ v.VarsIn C.names) A (k v) fun i => k' i v) →
    C.Simulates w P A (C.env.evalTerm rules t k) fun i => C.env'.evalTerm (rules' i) t (k' i)

/-- The same of a term and, since calls are also evaluated as expressions, of the arguments of a call. -/
def TermsAnswer (C : Coupling ι) (rules : RuleSemantics) (rules' : ι → RuleSemantics) (t : Term) : Prop :=
  TermAnswers C rules rules' t ∧
    ∀ operator arguments, t = .call operator arguments → ∀ a ∈ arguments, TermAnswers C rules rules' a

def BodyAnswers (C : Coupling ι) (rules : RuleSemantics) (rules' : ι → RuleSemantics) (body : Body) : Prop :=
  ∀ {α α' : Type} {A : Gathering α α'} {w : C.World} {P : Prop} {k : Search α} {k' : ι → Search α'},
    (P → Expr.ProperBody C.names (TargetIn C) body) → C.Simulates w P A k k' →
    C.Simulates w P A (C.env.evalBody rules body k) fun i => C.env'.evalBody (rules' i) body (k' i)

def KindAnswers (C : Coupling ι) (rules : RuleSemantics) (rules' : ι → RuleSemantics) (kind : ExprKind) : Prop :=
  ∀ {α α' : Type} {A : Gathering α α'} {w : C.World} {P : Prop} {k : Search α} {k' : ι → Search α'},
    (P → kind.Proper C.names (TargetIn C)) → C.Simulates w P A k k' →
    C.Simulates w P A (C.env.evalKind rules kind k) fun i => C.env'.evalKind (rules' i) kind (k' i)

def ExprAnswers (C : Coupling ι) (rules : RuleSemantics) (rules' : ι → RuleSemantics) (e : Expr) : Prop :=
  ∀ {α α' : Type} {A : Gathering α α'} {w : C.World} {P : Prop} {k : Search α} {k' : ι → Search α'},
    (P → e.Proper C.names (TargetIn C)) → C.Simulates w P A k k' →
    C.Simulates w P A (C.env.evalExpr rules e k) fun i => C.env'.evalExpr (rules' i) e (k' i)

/-! ### Lists of terms -/

theorem simulates_evalTerms (ts : List Term) (hts : ∀ t ∈ ts, TermAnswers C rules rules' t)
    {k : List Term → Search α} {k' : ι → List Term → Search α'}
    (hp : P → Term.ProperAll C.names (TargetIn C) ts)
    (hk : ∀ vs, C.Simulates w (P ∧ ∀ v ∈ vs, v.VarsIn C.names) A (k vs) fun i => k' i vs) :
    C.Simulates w P A (C.env.evalTerms rules ts k) fun i => C.env'.evalTerms (rules' i) ts (k' i) := by
  induction ts generalizing P k k' with
  | nil =>
    simp only [Env.evalTerms]
    exact (hk []).guard fun hP => ⟨hP, nofun⟩
  | cons t rest ih =>
    rw [List.forall_mem_cons] at hts
    simp only [Env.evalTerms]
    refine hts.1 (fun hP => (hp hP).1) fun v => ih hts.2 (fun hP => (hp hP.1).2) fun vs => ?_
    exact (hk _).guard fun hP => ⟨hP.1.1, List.forall_mem_cons.2 ⟨hP.1.2, hP.2⟩⟩

theorem simulates_evalFields (fs : List (Term × Term))
    (hfs : ∀ f ∈ fs, TermAnswers C rules rules' f.1 ∧ TermAnswers C rules rules' f.2)
    {k : List (Term × Term) → Search α} {k' : ι → List (Term × Term) → Search α'}
    (hp : P → Term.ProperFields C.names (TargetIn C) fs)
    (hk : ∀ vs, C.Simulates w (P ∧ FieldsIn C.names vs) A (k vs) fun i => k' i vs) :
    C.Simulates w P A (C.env.evalFields rules fs k) fun i => C.env'.evalFields (rules' i) fs (k' i) := by
  induction fs generalizing P k k' with
  | nil =>
    simp only [Env.evalFields]
    exact (hk []).guard fun hP => ⟨hP, nofun⟩
  | cons f rest ih =>
    obtain ⟨key, value⟩ := f
    rw [List.forall_mem_cons] at hfs
    simp only [Env.evalFields]
    refine hfs.1.1 (fun hP => (hp hP).1) fun x => hfs.1.2 (fun hP => (hp hP.1).2.1) fun y => ?_
    refine ih hfs.2 (fun hP => (hp hP.1.1).2.2) fun fs => ?_
    exact (hk _).guard fun hP => ⟨hP.1.1.1, List.forall_mem_cons.2 ⟨⟨hP.1.1.2, hP.1.2⟩, hP.2⟩⟩

theorem simulates_walk (h : C.Lawful) (hr : RulesAnswer C rules rules') (operands : List Term)
    (hts : ∀ t ∈ operands, TermAnswers C rules rules' t) {c : Cursor} {k : Term → Search α}
    {k' : ι → Term → Search α'} (ho : P → Term.ProperAll C.names (TargetIn C) operands)
    (hc : P → CursorIn C.names c) (hk : ∀ v, C.Simulates w (P ∧ v.VarsIn C.names) A (k v) fun i => k' i v) :
    C.Simulates w P A (C.env.walk rules c operands k) fun i => C.env'.walk (rules' i) c operands (k' i) := by
  induction operands generalizing P c with
  | nil =>
    simp only [Env.walk]
    exact (computes_arrive h hr hc).afterSome h hk
  | cons operand rest ih =>
    rw [List.forall_mem_cons] at hts
    -- From here on the walk goes on below a cursor found under a stronger assumption.
    have hrest : ∀ {Q : Prop} {c : Cursor}, (Q → P) → (Q → CursorIn C.names c) →
        C.Simulates w Q A (C.env.walk rules c rest k) fun i => C.env'.walk (rules' i) c rest (k' i) :=
      fun hQ hc => ih hts.2 (fun q => (ho (hQ q)).2) hc fun v => (hk v).guard fun q => ⟨hQ q.1, q.2⟩
    simp only [Env.walk]
    refine (computes_settle h hr operand hc).afterSome h fun footing => ?_
    cases footing with
    | data path => exact hrest And.left fun _ => trivial
    | value v =>
      refine hts.1 (fun hP => (ho hP.1).1) fun key => simulates_withBindings h fun b => ?_
      split
      · split
        · next u hu => exact hrest (fun hP => hP.1.1.1) fun hP => Term.VarsIn.lookup hP.1.1.2 hu
        · exact simulates_exhausted h
      · refine Simulates.each h _ fun entry => ?_
        refine ((h.checkpoint w).guard fun _ => trivial).after h fun _ _ => ?_
        refine Simulates.unifying h (fun hP => ?_) ?_
        · exact ⟨hP.1.1.2.plug hP.1.1.1.2, (Term.VarsIn.entries hP.1.1.1.1.2 hP.1.2).1⟩
        · exact hrest (fun hP => hP.1.1.1.1.1) fun hP => (Term.VarsIn.entries hP.1.1.1.1.2 hP.1.2).2
    | stored path =>
      refine hts.1 (fun hP => (ho hP.1).1) fun key => simulates_withBindings h fun b => ?_
      split
      · split
        · exact hrest (fun hP => hP.1.1.1) fun hP => hP.2.plug hP.1.2
        · refine Computes.afterSome h (p := Term.VarsIn C.names) ?_ fun v => ?_
          · refine ((h.read w path).guard fun _ => trivial).bindBoth h fun doc => .bothSelf h fun hP u hu => ?_
            obtain ⟨t, ht, hu⟩ := Option.bind_eq_some_iff.1 hu
            exact (hP.2 t ht).lookup hu
          · exact hrest (fun hP => hP.1.1.1.1) And.right
      · refine ((h.listKeys w path).guard fun _ => trivial).afterSome h fun names => ?_
        refine Simulates.each h _ fun name => ?_
        refine ((h.checkpoint w).guard fun _ => trivial).after h fun _ _ => ?_
        refine Simulates.unifying h (fun hP => ?_) ?_
        · exact ⟨hP.1.1.1.2.plug hP.1.1.1.1.2, hP.1.1.2 name hP.1.2⟩
        · split
          · exact hrest (fun hP => hP.1.1.1.1.1.1) fun hP => hP.1.1.2 name hP.1.2
          · exact hrest (fun hP => hP.1.1.1.1.1.1) fun hP => hP.1.1.2 name hP.1.2

theorem simulates_evalCall (h : C.Lawful) (hr : RulesAnswer C rules rules') (arguments : List Term)
    (hts : ∀ t ∈ arguments, TermAnswers C rules rules' t) {callee : Callee} {output : Option Nat}
    {operands : List Term} {k : Term → Search α} {k' : ι → Term → Search α'} {done : Search α}
    {done' : ι → Search α'} (hc : P → CalleeIn C callee) (ha : P → Term.ProperAll C.names (TargetIn C) arguments)
    (hop : P → ∀ t ∈ operands, t.VarsIn C.names)
    (hk : ∀ v, C.Simulates w (P ∧ v.VarsIn C.names) A (k v) fun i => k' i v) (hdone : C.Simulates w P A done done') :
    C.Simulates w P A (C.env.evalCall rules callee output arguments operands k done)
      fun i => C.env'.evalCall (rules' i) callee output arguments operands (k' i) (done' i) := by
  induction arguments generalizing P operands with
  | nil =>
    simp only [Env.evalCall]
    exact (computes_apply h hr hc fun hP t ht => hop hP t (List.mem_reverse.1 ht)).afterSome h hk
  | cons t rest ih =>
    rw [List.forall_mem_cons] at hts
    simp only [Env.evalCall]
    split
    · refine (computes_apply h hr hc fun hP t ht => hop hP t (List.mem_reverse.1 ht)).afterSome h fun result => ?_
      refine hts.1 (fun hP => (ha hP.1).1) fun v => ?_
      exact Simulates.unifying h (fun hP => ⟨hP.2, hP.1.2⟩) (hdone.guard fun hP => hP.1.1)
    · split
      · refine Computes.afterBoth h (p := fun values : List Term => ∀ t ∈ values, t.VarsIn C.names) ?_ fun values => ?_
        · exact Simulates.gather (hts.1 (fun hP => (ha hP).1) fun v => simulates_insertGround h) fun _ => ⟨rfl, nofun⟩
        · refine ih hts.2 (fun hP => hc hP.1) (fun hP => (ha hP.1).2) (fun hP => ?_)
            (fun v => (hk v).guard fun hP => ⟨hP.1.1, hP.2⟩) (hdone.guard And.left)
          exact List.forall_mem_cons.2 ⟨varsIn_lenientOperand hP.2, hop hP.1⟩
      · refine hts.1 (fun hP => (ha hP).1) fun v => ?_
        exact ih hts.2 (fun hP => hc hP.1) (fun hP => (ha hP.1).2)
          (fun hP => List.forall_mem_cons.2 ⟨hP.2, hop hP.1⟩) (fun v => (hk v).guard fun hP => ⟨hP.1.1, hP.2⟩)
          (hdone.guard And.left)

/-! ### Terms -/

theorem termAnswers_var (h : C.Lawful) (hr : RulesAnswer C rules rules') (x : String) :
    TermAnswers C rules rules' (.var x) := by
  intro α α' A w P k k' ht hk
  simp only [Env.evalTerm]
  refine simulates_withBindings h fun b => ?_
  split
  · next y hy =>
    split
    · refine (computes_rootCursor h y).afterSome h fun c => ?_
      exact (computes_arrive h hr And.right).afterSome h fun v => (hk v).guard fun hP => ⟨hP.1.1.1, hP.2⟩
    · next hroot =>
      refine (hk _).guard fun ⟨hP, hb⟩ => ⟨hP, ?_⟩
      rcases deref_root hb (ht hP) with hd | ⟨z, hz, hrz⟩
      · rwa [hy] at hd
      · rw [hy] at hz
        cases hz
        exact absurd hrz hroot
  · next v hv =>
    refine (hk _).guard fun ⟨hP, hb⟩ => ⟨hP, hb.plug ?_⟩
    rcases deref_root hb (ht hP) with hd | ⟨z, hz, _⟩
    · exact hd
    · exact absurd hz (hv z)

theorem termAnswers_ref (h : C.Lawful) (hr : RulesAnswer C rules rules') {head : Term} {operands : List Term}
    (hh : TermAnswers C rules rules' head) (hts : ∀ t ∈ operands, TermAnswers C rules rules' t) :
    TermAnswers C rules rules' (.ref head operands) := by
  intro α α' A w P k k' ht hk
  have hwalk : ∀ {Q : Prop} {c : Cursor}, (Q → P) → (Q → CursorIn C.names c) →
      C.Simulates w Q A (C.env.walk rules c operands k) fun i => C.env'.walk (rules' i) c operands (k' i) :=
    fun hQ hc => simulates_walk h hr operands hts (fun q => (ht (hQ q)).2) hc
      fun v => (hk v).guard fun q => ⟨hQ q.1, q.2⟩
  simp only [Env.evalTerm]
  refine simulates_withBindings h fun b => ?_
  split
  · next name _ =>
    exact (computes_rootCursor h name).afterSome h fun c => hwalk (fun hP => hP.1.1) And.right
  · refine hh (fun hP => (ht hP.1).1) fun v => ?_
    cases v with
    | var _ => exact simulates_exhausted h
    | _ => exact hwalk (fun hP => hP.1.1) And.right

theorem termAnswers_call (h : C.Lawful) (hr : RulesAnswer C rules rules') {operator : Term} {arguments : List Term}
    (hts : ∀ t ∈ arguments, TermAnswers C rules rules' t) : TermAnswers C rules rules' (.call operator arguments) := by
  intro α α' A w P k k' ht hk
  simp only [Env.evalTerm]
  split
  · exact simulates_raise h _
  · next name _ =>
    refine (computes_resolveFunction h name).afterBoth h fun r => ?_
    exact simulates_evalCall h hr arguments hts And.right (fun hP => ht hP.1) nofun
      (fun v => (hk v).guard fun hP => ⟨hP.1.1, hP.2⟩) (simulates_exhausted h)

theorem termAnswers_arrayCompr (h : C.Lawful) {term : Term} {body : Body}
    (ht : TermAnswers C rules rules' term) (hb : BodyAnswers C rules rules' body) :
    TermAnswers C rules rules' (.arrayCompr term body) := by
  intro α α' A w P k k' hp hk
  simp only [Env.evalTerm]
  refine Computes.afterBoth h (p := fun items : Array Term => ∀ t ∈ items.toList, t.VarsIn C.names) ?_ fun items =>
    (hk _).guard fun hP => ⟨hP.1, Term.varsIn_array.2 hP.2⟩
  refine Simulates.gather (hb (fun hP => (hp hP).2) (ht (fun hP => (hp hP).1) fun v => ?_)) fun _ => ⟨rfl, nofun⟩
  refine simulates_ground h And.right fun t => simulates_collect h (fun _ _ => trivial) ?_
  rintro ⟨_, ht⟩ items _ _ ⟨rfl, hitems⟩
  refine ⟨rfl, fun u hu => ?_⟩
  rw [Array.toList_push, List.mem_append, List.mem_singleton] at hu
  rcases hu with hu | rfl
  · exact hitems u hu
  · exact ht

theorem termAnswers_setCompr (h : C.Lawful) {term : Term} {body : Body}
    (ht : TermAnswers C rules rules' term) (hb : BodyAnswers C rules rules' body) :
    TermAnswers C rules rules' (.setCompr term body) := by
  intro α α' A w P k k' hp hk
  simp only [Env.evalTerm]
  refine Computes.afterBoth h (p := fun members : List Term => ∀ t ∈ members, t.VarsIn C.names) ?_ fun members =>
    (hk _).guard fun hP => ⟨hP.1, Term.varsIn_set.2 hP.2⟩
  exact Simulates.gather (hb (fun hP => (hp hP).2) (ht (fun hP => (hp hP).1) fun v => simulates_insertGround h))
    fun _ => ⟨rfl, nofun⟩

theorem termAnswers_objectCompr (h : C.Lawful) {key value : Term} {body : Body}
    (hkey : TermAnswers C rules rules' key) (hvalue : TermAnswers C rules rules' value)
    (hb : BodyAnswers C rules rules' body) : TermAnswers C rules rules' (.objectCompr key value body) := by
  intro α α' A w P k k' hp hk
  simp only [Env.evalTerm]
  refine Computes.afterBoth h (p := FieldsIn C.names) ?_ fun fields =>
    (hk _).guard fun hP => ⟨hP.1, Term.varsIn_object.2 hP.2⟩
  refine Simulates.gather (hb (fun hP => (hp hP).2.2) ?_) fun _ => ⟨rfl, nofun⟩
  refine hkey (fun hP => (hp hP).1) fun key => hvalue (fun hP => (hp hP.1).2.1) fun value => ?_
  exact simulates_addUnique h (fun hP => hP.1.2) And.right (computes_pure h fun _ => rfl) fun s => ⟨s, rfl⟩

theorem termAnswers_array (h : C.Lawful) {items : List Term} (hts : ∀ t ∈ items, TermAnswers C rules rules' t) :
    TermAnswers C rules rules' (.array items) := by
  intro α α' A w P k k' ht hk
  simp only [Env.evalTerm, Term.Proper] at ht ⊢
  split
  · next hn =>
    simp only [hn, if_true] at ht
    exact simulates_evalTerms items hts ht fun vs => (hk _).guard fun hP => ⟨hP.1, Term.varsIn_array.2 hP.2⟩
  · next hn =>
    simp only [hn] at ht
    refine simulates_withBindings h fun b => (hk _).guard fun hP => ⟨hP.1, hP.2.plug ?_⟩
    exact Term.varsIn_array.2 (ht hP.1)

theorem termAnswers_set (h : C.Lawful) {members : List Term} (hts : ∀ t ∈ members, TermAnswers C rules rules' t) :
    TermAnswers C rules rules' (.set members) := by
  intro α α' A w P k k' ht hk
  simp only [Env.evalTerm, Term.Proper] at ht ⊢
  split
  · next hn =>
    simp only [hn, if_true] at ht
    exact simulates_evalTerms members hts ht fun vs => (hk _).guard fun hP => ⟨hP.1, .setOf hP.2⟩
  · next hn =>
    simp only [hn] at ht
    refine simulates_withBindings h fun b => (hk _).guard fun hP => ⟨hP.1, hP.2.plug ?_⟩
    exact Term.varsIn_set.2 (ht hP.1)

theorem termAnswers_object (h : C.Lawful) {fields : List (Term × Term)}
    (hfs : ∀ f ∈ fields, TermAnswers C rules rules' f.1 ∧ TermAnswers C rules rules' f.2) :
    TermAnswers C rules rules' (.object fields) := by
  intro α α' A w P k k' ht hk
  simp only [Env.evalTerm, Term.Proper] at ht ⊢
  split
  · next hn =>
    simp only [hn, if_true] at ht
    exact simulates_evalFields fields hfs ht fun fs => (hk _).guard fun hP => ⟨hP.1, .objectOf hP.2⟩
  · next hn =>
    simp only [hn] at ht
    refine simulates_withBindings h fun b => (hk _).guard fun hP => ⟨hP.1, hP.2.plug ?_⟩
    exact Term.varsIn_object.2 (ht hP.1)

theorem termAnswers_scalar {t : Term} (ht : t.isScalar = true) : TermAnswers C rules rules' t := by
  intro α α' A w P k k' _ hk
  cases t with
  | null | bool _ | number _ | string _ =>
    simp only [Env.evalTerm]
    exact (hk _).guard fun hP => ⟨hP, .of_isGround rfl⟩
  | _ => cases ht

theorem TermsAnswer.of_not_call {t : Term} (ht : TermAnswers C rules rules' t)
    (hn : ∀ operator arguments, t ≠ .call operator arguments) : TermsAnswer C rules rules' t :=
  ⟨ht, fun operator arguments he => absurd he (hn operator arguments)⟩

/-! ### Expressions -/

theorem evalKind_call (env : Env) (rules : RuleSemantics) (operator : Term) (arguments : List Term)
    (k : Search α) : env.evalKind rules (.term (.call operator arguments)) k =
      match operator.refName? with
      | none => Search.raise (.internal (.invalidOperator operator))
      | some name =>
        match name == "eq" || name == "assign", arguments with
        | true, [x, y] => env.evalTerm rules x fun x => env.evalTerm rules y fun y => Search.unifying x y k
        | _, arguments => Search.after (env.resolveFunction name) fun (callee, arity) =>
          env.evalCall rules callee (Env.outputPosition arity arguments.length) arguments []
            (fun result => if result == .bool false then Search.exhausted else k) k :=
  Env.evalKind.eq_def ..

theorem kindAnswers_call (h : C.Lawful) (hr : RulesAnswer C rules rules') {operator : Term} {arguments : List Term}
    (hts : ∀ t ∈ arguments, TermAnswers C rules rules' t) :
    KindAnswers C rules rules' (.term (.call operator arguments)) := by
  intro α α' A w P k k' ht hk
  simp only [evalKind_call]
  split
  · exact simulates_raise h _
  · next name _ =>
    split
    · next x y _ =>
      simp only [List.forall_mem_cons] at hts
      refine hts.1 (fun hP => (ht hP).1) fun x => hts.2.1 (fun hP => (ht hP.1).2.1) fun y => ?_
      exact Simulates.unifying h (fun hP => ⟨hP.1.2, hP.2⟩) (hk.guard fun hP => hP.1.1)
    · refine (computes_resolveFunction h name).afterBoth h fun r => ?_
      refine simulates_evalCall h hr _ hts And.right (fun hP => ht hP.1) (fun _ => List.forall_mem_nil _)
        (fun v => ?_) (hk.guard And.left)
      split
      · exact simulates_exhausted h
      · exact hk.guard fun hP => hP.1.1

theorem kindAnswers_term (h : C.Lawful) (hr : RulesAnswer C rules rules') {t : Term}
    (ht : TermsAnswer C rules rules' t) : KindAnswers C rules rules' (.term t) := by
  cases t with
  | call operator arguments => exact kindAnswers_call h hr (ht.2 operator arguments rfl)
  | _ =>
    intro α α' A w P k k' hp hk
    simp only [Env.evalKind]
    refine ht.1 hp fun v => ?_
    split
    · exact simulates_exhausted h
    · exact simulates_exhausted h
    · exact hk.guard And.left

theorem evalKind_generator (env : Env) (rules : RuleSemantics) (operator : Term) (arguments : List Term)
    (k : Search α) : env.evalKind rules (.someDecl [.call operator arguments]) k =
      match operator.refName?, arguments with
      | some "internal.member_2", [value, domain] => env.evalTerm rules domain fun domain =>
        Search.each domain.entries fun entry => Search.after env.checkpoint fun _ =>
          Search.extending (Bindings.bindEntry none value entry) k
      | some "internal.member_3", [key, value, domain] => env.evalTerm rules domain fun domain =>
        Search.each domain.entries fun entry => Search.after env.checkpoint fun _ =>
          Search.extending (Bindings.bindEntry (some key) value entry) k
      | _, arguments => Search.raise (.internal (.invalidGenerator (.call operator arguments))) :=
  Env.evalKind.eq_def ..

theorem kindAnswers_generator (h : C.Lawful) {operator : Term} {arguments : List Term}
    (hts : ∀ t ∈ arguments, TermAnswers C rules rules' t) :
    KindAnswers C rules rules' (.someDecl [.call operator arguments]) := by
  intro α α' A w P k k' ht hk
  simp only [evalKind_generator]
  split
  · next value domain _ =>
    simp only [List.forall_mem_cons] at hts
    have hpattern : P → value.VarsIn C.names := fun hP => (ht hP).2 _ _ rfl value List.mem_cons_self
    refine hts.2.1 (fun hP => (ht hP).1.1.2.1) fun v => Simulates.each h _ fun entry => ?_
    refine ((h.checkpoint w).guard fun _ => trivial).after h fun _ _ => ?_
    refine Simulates.extending h (fun hP => ?_) (hk.guard fun hP => hP.1.1.1)
    exact Bindings.adds_bindEntry ifSome_none (hpattern hP.1.1.1) (hP.1.1.2.entries hP.1.2)
  · next key value domain _ =>
    simp only [List.forall_mem_cons] at hts
    have hpatterns : P → ∀ t ∈ [key, value], t.VarsIn C.names := fun hP => (ht hP).2 _ _ rfl
    simp only [List.forall_mem_cons] at hpatterns
    refine hts.2.2.1 (fun hP => (ht hP).1.1.2.2.1) fun v => Simulates.each h _ fun entry => ?_
    refine ((h.checkpoint w).guard fun _ => trivial).after h fun _ _ => ?_
    refine Simulates.extending h (fun hP => ?_) (hk.guard fun hP => hP.1.1.1)
    exact Bindings.adds_bindEntry (ifSome_some (hpatterns hP.1.1.1).1) (hpatterns hP.1.1.1).2.1
      (hP.1.1.2.entries hP.1.2)
  · exact simulates_raise h _

theorem kindAnswers_someDecl (h : C.Lawful) {symbols : List Term}
    (hts : ∀ t ∈ symbols, TermsAnswer C rules rules' t) : KindAnswers C rules rules' (.someDecl symbols) := by
  intro α α' A w P k k' hp hk
  by_cases hs : ∃ operator arguments, symbols = [.call operator arguments]
  · obtain ⟨operator, arguments, rfl⟩ := hs
    exact kindAnswers_generator h ((hts _ List.mem_cons_self).2 operator arguments rfl) hp hk
  · have heq : ∀ {δ : Type} (env : Env) (rules : RuleSemantics) (k : Search δ), env.evalKind rules (.someDecl symbols) k =
        Search.extending (fun b => some (b.hideAll symbols)) k := by
      intro δ env rules k
      rw [Env.evalKind]
      rintro operator arguments rfl
      exact hs ⟨operator, arguments, rfl⟩
    simp only [heq]
    exact hk.extending h fun _ => Bindings.adds_hideAll symbols

theorem kindAnswers_every (h : C.Lawful) {key : Option Term} {value domain : Term} {body : Body}
    (hd : TermAnswers C rules rules' domain) (hb : BodyAnswers C rules rules' body) :
    KindAnswers C rules rules' (.every key value domain body) := by
  intro α α' A w P k k' ht hk
  simp only [Env.evalKind]
  refine (Computes.first h fun k k' hk => hd (fun hP => (ht hP).2.2.1) hk).afterBoth h fun found => ?_
  cases found with
  | none => exact hk.guard And.left
  | some domain =>
    refine Computes.after h (B := Eq) (computes_forAll h _ fun entry => ?_) fun holds holds' => ?_
    · refine ((h.checkpoint w).guard fun _ => trivial).bind h fun _ _ => ?_
      refine computes_extending h (fun hP => ?_) (fun _ => rfl) ?_
      · exact Bindings.adds_bindEntry (ht hP.1.1.1).1 (ht hP.1.1.1).2.1
          (Term.VarsIn.entries (.of_isGround (hP.1.1.2 domain rfl)) hP.1.2)
      · exact Simulates.gather (hb (fun hP => (ht hP.1.1.1).2.2.2) (simulates_accept h trivial (fun _ _ => trivial) fun _ _ _ _ => rfl))
          fun _ => rfl
    · have hgo : ∀ Q : Prop, (Q → P) → C.Simulates w Q A (if holds then k else Search.exhausted)
          fun i => if holds then k' i else Search.exhausted := by
        intro Q hQ
        split
        · exact hk.guard hQ
        · exact simulates_exhausted h
      exact (hgo _ fun hP => hP.1.1).congr fun hP => by rw [hP.2]

theorem computes_evalOverrides (h : C.Lawful) (overrides : List (Term × Term))
    (hts : ∀ o ∈ overrides, TermAnswers C rules rules' o.2) {σ τ : Scope}
    (ho : P → Expr.ProperOverrides C.names (TargetIn C) overrides) (hσ : P → ScopesAgree C σ τ) :
    C.Computes w P (Option.Rel (ScopesAgree C)) (C.env.evalOverrides rules overrides σ)
      fun i => C.env'.evalOverrides (rules' i) overrides τ := by
  induction overrides generalizing P σ τ with
  | nil =>
    simp only [Env.evalOverrides]
    exact computes_pure h fun hP => .some (hσ hP)
  | cons o rest ih =>
    obtain ⟨target, replacement⟩ := o
    rw [List.forall_mem_cons] at hts
    simp only [Env.evalOverrides, overrideTarget_congr h, mockedBy?_congr h]
    split
    · exact computes_throw h _
    · next target' htarget =>
      split
      · next name other hmock =>
        refine ih hts.2 (fun hP => (ho hP).2.2) fun hP => ?_
        refine ⟨agrees_mock (hσ hP).1, varsIn_mock (hσ hP).2 ?_ nofun⟩
        cases target' with
        | function n =>
          obtain ⟨_, _, he⟩ := Option.map_eq_some_iff.1 hmock
          cases he
          exact (ho hP).1 _ htarget
        | _ => cases hmock
      · refine (Computes.first h fun k k' hk => hts.1 (fun hP => (ho hP).2.1) hk).bindBoth h fun value => ?_
        cases value with
        | none => exact computes_pure h fun _ => .none
        | some value =>
          refine (computes_override h ?_ (fun hP => .of_isGround (hP.2 value rfl)) fun hP => hσ hP.1).bind h fun σ τ => ?_
          · rintro hP name rfl
            exact (ho hP.1).1 name htarget
          · exact ih hts.2 (fun hP => (ho hP.1.1).2.2) And.right

theorem simulates_evalSigned (h : C.Lawful) {kind : ExprKind} (hkind : KindAnswers C rules rules' kind)
    (negated : Bool) {k : Search α} {k' : ι → Search α'} (hp : P → kind.Proper C.names (TargetIn C))
    (hk : C.Simulates w P A k k') :
    C.Simulates w P A (evalSigned C.env rules negated kind k)
      fun i => evalSigned C.env' (rules' i) negated kind (k' i) := by
  unfold evalSigned
  split
  · refine (Simulates.gather (hkind hp (simulates_accept h (A := { rel := Eq }) trivial (fun _ _ => trivial) fun _ _ _ _ => rfl)) fun _ => rfl).after h
      fun holds holds' => ?_
    have hgo : C.Simulates w (P ∧ holds = holds') A (if holds then Search.exhausted else k)
        fun i => if holds then Search.exhausted else k' i := by
      split
      · exact simulates_exhausted h
      · exact hk.guard And.left
    exact hgo.congr fun hP => by rw [hP.2]
  · exact hkind hp hk

theorem simulates_evalOverriding (h : C.Lawful) {kind : ExprKind} (hkind : KindAnswers C rules rules' kind)
    {overrides : List (Term × Term)} (hts : ∀ o ∈ overrides, TermAnswers C rules rules' o.2) (negated : Bool)
    {k : Search α} {k' : ι → Search α'} (hp : P → kind.Proper C.names (TargetIn C))
    (ho : P → Expr.ProperOverrides C.names (TargetIn C) overrides) (hk : C.Simulates w P A k k') :
    C.Simulates w P A (evalOverriding C.env rules negated kind overrides k)
      fun i => evalOverriding C.env' (rules' i) negated kind overrides (k' i) := by
  have hscope : C.Computes w P (Option.Rel (ScopesAgree C)) (do C.env.evalOverrides rules overrides (← get).scope)
      (fun i => do C.env'.evalOverrides (rules' i) overrides (← get).scope) :=
    computes_get h fun v _ s t => computes_evalOverrides h overrides hts (fun hP => ho hP.1)
      fun hP => ⟨h.scope_agrees hP.2, h.scope_vars hP.2⟩
  refine hscope.afterRel h fun σ τ => ?_
  refine Simulates.inScope h (fun v Q m m' hm => ?_) And.right (hk.guard And.left)
  exact simulates_evalSigned h hkind negated (fun hP => hp hP.1.1) (hm.guard And.right)

theorem exprAnswers_mk (h : C.Lawful) {kind : ExprKind} {negated : Bool} {overrides : List (Term × Term)} {index : Nat}
    (hkind : KindAnswers C rules rules' kind) (hts : ∀ o ∈ overrides, TermAnswers C rules rules' o.2) :
    ExprAnswers C rules rules' (.mk kind negated overrides index) := by
  intro α α' A w P k k' he hk
  simp only [evalExpr_eq]
  refine Computes.after h (computes_entry h _) fun depth depth' => ?_
  refine Simulates.orElse h ?_ ((h.emit w _ depth depth' _).guard And.right)
  split
  · exact simulates_evalSigned h hkind negated (fun hP => (he hP.1).1) (hk.noting.guard And.left)
  · exact simulates_evalOverriding h hkind hts negated (fun hP => (he hP.1).1) (fun hP => (he hP.1).2)
      (hk.noting.guard And.left)

/-! ### The whole text -/

mutual
theorem termsAnswer (h : C.Lawful) (hr : RulesAnswer C rules rules') : ∀ t : Term, TermsAnswer C rules rules' t
  | .var x => .of_not_call (termAnswers_var h hr x) nofun
  | .ref head operands =>
    .of_not_call (termAnswers_ref h hr (termsAnswer h hr head).1 (termsAnswer_all h hr operands)) nofun
  | .call operator arguments =>
    ⟨termAnswers_call h hr (termsAnswer_all h hr arguments), fun _ _ he => by
      cases he
      exact termsAnswer_all h hr arguments⟩
  | .arrayCompr term body =>
    .of_not_call (termAnswers_arrayCompr h (termsAnswer h hr term).1 (bodyAnswers h hr body)) nofun
  | .setCompr term body =>
    .of_not_call (termAnswers_setCompr h (termsAnswer h hr term).1 (bodyAnswers h hr body)) nofun
  | .objectCompr key value body =>
    .of_not_call (termAnswers_objectCompr h (termsAnswer h hr key).1 (termsAnswer h hr value).1
      (bodyAnswers h hr body)) nofun
  | .array items => .of_not_call (termAnswers_array h (termsAnswer_all h hr items)) nofun
  | .set members => .of_not_call (termAnswers_set h (termsAnswer_all h hr members)) nofun
  | .object fields => .of_not_call (termAnswers_object h (termsAnswer_fields h hr fields)) nofun
  | .null => .of_not_call (termAnswers_scalar rfl) nofun
  | .bool _ => .of_not_call (termAnswers_scalar rfl) nofun
  | .number _ => .of_not_call (termAnswers_scalar rfl) nofun
  | .string _ => .of_not_call (termAnswers_scalar rfl) nofun
theorem termsAnswer_all (h : C.Lawful) (hr : RulesAnswer C rules rules') :
    ∀ ts : List Term, ∀ t ∈ ts, TermAnswers C rules rules' t
  | [] => nofun
  | t :: rest => List.forall_mem_cons.2 ⟨(termsAnswer h hr t).1, termsAnswer_all h hr rest⟩
theorem termsAnswer_symbols (h : C.Lawful) (hr : RulesAnswer C rules rules') :
    ∀ ts : List Term, ∀ t ∈ ts, TermsAnswer C rules rules' t
  | [] => nofun
  | t :: rest => List.forall_mem_cons.2 ⟨termsAnswer h hr t, termsAnswer_symbols h hr rest⟩
theorem termsAnswer_fields (h : C.Lawful) (hr : RulesAnswer C rules rules') :
    ∀ fs : List (Term × Term), ∀ f ∈ fs, TermAnswers C rules rules' f.1 ∧ TermAnswers C rules rules' f.2
  | [] => nofun
  | (k, v) :: rest =>
    List.forall_mem_cons.2 ⟨⟨(termsAnswer h hr k).1, (termsAnswer h hr v).1⟩, termsAnswer_fields h hr rest⟩
theorem kindAnswers (h : C.Lawful) (hr : RulesAnswer C rules rules') :
    ∀ kind : ExprKind, KindAnswers C rules rules' kind
  | .term t => kindAnswers_term h hr (termsAnswer h hr t)
  | .someDecl symbols => kindAnswers_someDecl h (termsAnswer_symbols h hr symbols)
  | .every _ _ domain body => kindAnswers_every h (termsAnswer h hr domain).1 (bodyAnswers h hr body)
theorem exprAnswers (h : C.Lawful) (hr : RulesAnswer C rules rules') : ∀ e : Expr, ExprAnswers C rules rules' e
  | .mk kind _ overrides _ =>
    exprAnswers_mk h (kindAnswers h hr kind) fun o ho => (termsAnswer_fields h hr overrides o ho).2
theorem bodyAnswers (h : C.Lawful) (hr : RulesAnswer C rules rules') : ∀ body : Body, BodyAnswers C rules rules' body
  | [] => fun _ hk => by
    simp only [Env.evalBody]
    exact hk
  | e :: rest => fun hb hk => by
    simp only [Env.evalBody]
    exact exprAnswers h hr e (fun hP => (hb hP).1) (bodyAnswers h hr rest (fun hP => (hb hP).2) hk)
end

/-! ## Rules -/

/-- The text of the policy is proper. -/
def PolicyProper (C : Coupling ι) : Prop := ∀ rs ∈ C.env.policy.ruleSets, rs.Proper C.names (TargetIn C)

theorem simulates_acceptValue (h : C.Lawful) (rs : RuleSet) {value : Term} (hv : P → value.VarsIn C.names) :
    C.Simulates w P (Both (IfSome (Term.VarsIn C.names))) (Env.acceptValue rs value)
      fun _ => Env.acceptValue rs value := by
  have hnone : C.Simulates w P (Both (IfSome (Term.VarsIn C.names))) (Search.accept fun _ => some value)
      fun _ => Search.accept fun _ => some value :=
    simulates_accept h trivial (fun _ _ => trivial) fun hP _ _ _ => ⟨rfl, ifSome_some (hv hP)⟩
  have hsome : ∀ old : Term, C.Simulates w P { rel := Both (IfSome (Term.VarsIn C.names)) }
      (if old == value then Search.accept id else Search.raise (Env.valueConflict rs old value))
      fun _ => if old == value then Search.accept id else Search.raise (Env.valueConflict rs old value) := by
    intro old
    split
    · exact simulates_accept h trivial (fun _ _ => trivial) fun _ _ _ hA => hA
    · exact simulates_raise h _
  have heq : ∀ old s, Env.acceptValue rs value (some old) s =
      (if old == value then Search.accept id else Search.raise (Env.valueConflict rs old value)) (some old) s := by
    intro old s
    simp only [Env.acceptValue]
    split <;> rfl
  constructor
  · intro found s
    cases found with
    | none => exact hnone.1 none s
    | some old => exact heq old s ▸ (hsome old).1 (some old) s
  · rintro hP v hv _ found s t ⟨rfl, hfound⟩ hst hfol _
    cases found with
    | none => exact hnone.2 hP v hv none none s t ⟨rfl, hfound⟩ hst hfol trivial
    | some old =>
      simp only [heq] at hfol ⊢
      exact (hsome old).2 hP v hv (some old) (some old) s t ⟨rfl, hfound⟩ hst hfol trivial

theorem computes_evalClause (h : C.Lawful) (hr : RulesAnswer C rules rules') (rs : RuleSet)
    (args : Option (List Term)) {clause : Clause} (hc : P → clause.Proper C.names (TargetIn C))
    (ha : P → IfSome (fun args => ∀ t ∈ args, t.VarsIn C.names) args) :
    C.Computes w P (Both (IfSome (Term.VarsIn C.names))) (C.env.evalClause rules rs args clause)
      fun i => C.env'.evalClause (rules' i) rs args clause := by
  simp only [Env.evalClause]
  refine computes_get h fun v _ s t => ?_
  refine ((h.emit v _ s.depth t.depth _).guard fun hP => h.depth hP.2).bind h fun _ _ => ?_
  refine Simulates.gather ?_ fun _ => ⟨rfl, ifSome_none⟩
  have hbody : C.Simulates v ((P ∧ C.rel v s t) ∧ () = ()) (Both (IfSome (Term.VarsIn C.names)))
      (C.env.evalBody rules clause.body
        (Search.endingWith (if clause.value.isGround && !clause.value.needsEval then .stop else .more)
          (C.env.evalTerm rules clause.value (Search.ground fun value =>
            Search.after (C.env.emit .exit s.depth fun _ => rs.name) fun _ => Env.acceptValue rs value))))
      fun i => C.env'.evalBody (rules' i) clause.body
        (Search.endingWith (if clause.value.isGround && !clause.value.needsEval then .stop else .more)
          (C.env'.evalTerm (rules' i) clause.value (Search.ground fun value =>
            Search.after (C.env'.emit .exit t.depth fun _ => rs.name) fun _ => Env.acceptValue rs value))) := by
    refine bodyAnswers h hr clause.body (fun hP => (hc hP.1.1).body) (Simulates.endingWith _ ?_ trivial)
    refine (termsAnswer h hr clause.value).1 (fun hP => (hc hP.1.1).value) fun value => ?_
    refine simulates_ground h And.right fun value => ?_
    refine ((h.emit v _ s.depth t.depth _).guard fun hP => h.depth hP.1.1.1.2).after h fun _ _ => ?_
    exact simulates_acceptValue h rs fun hP => hP.1.2
  cases args with
  | none => exact hbody
  | some args =>
    exact hbody.extending h fun hP => Bindings.adds_unifyAll (hc hP.1.1).params (ha hP.1.1 args rfl)

theorem computes_evalChain (h : C.Lawful) (hr : RulesAnswer C rules rules') (rs : RuleSet)
    (args : Option (List Term)) (clauses : List Clause)
    (hc : P → ∀ c ∈ clauses, c.Proper C.names (TargetIn C))
    (ha : P → IfSome (fun args => ∀ t ∈ args, t.VarsIn C.names) args) :
    C.Computes w P (Both (IfSome (Term.VarsIn C.names))) (C.env.evalChain rules rs args clauses)
      fun i => C.env'.evalChain (rules' i) rs args clauses := by
  induction clauses generalizing P with
  | nil => exact .bothSelf h fun _ => ifSome_none
  | cons clause rest ih =>
    refine (computes_evalClause h hr rs args (fun hP => hc hP _ List.mem_cons_self) ha).bindBoth h fun value => ?_
    cases value with
    | some value => exact .bothSelf h And.right
    | none => exact ih (fun hP c hmem => hc hP.1 c (List.mem_cons_of_mem _ hmem)) fun hP => ha hP.1

theorem computes_evalAgreeing (h : C.Lawful) (hr : RulesAnswer C rules rules') (rs : RuleSet)
    (args : Option (List Term)) {keep : Term → Term → Term} (hkeep : ∀ x y, keep x y = x ∨ keep x y = y)
    (ruleList : List Rule) {found : Option Term}
    (hc : P → ∀ r ∈ ruleList, ∀ c ∈ r.clauses, c.Proper C.names (TargetIn C))
    (ha : P → IfSome (fun args => ∀ t ∈ args, t.VarsIn C.names) args)
    (hf : P → IfSome (Term.VarsIn C.names) found) :
    C.Computes w P (Both (IfSome (Term.VarsIn C.names))) (C.env.evalAgreeing rules rs args keep ruleList found)
      fun i => C.env'.evalAgreeing (rules' i) rs args keep ruleList found := by
  induction ruleList generalizing P found with
  | nil => exact .bothSelf h hf
  | cons rule rest ih =>
    have hrest : P → ∀ r ∈ rest, ∀ c ∈ r.clauses, c.Proper C.names (TargetIn C) :=
      fun hP r hmem => hc hP r (List.mem_cons_of_mem _ hmem)
    refine (computes_evalChain h hr rs args rule.clauses (fun hP => hc hP rule List.mem_cons_self) ha).bindBoth h
      fun value => ?_
    cases value with
    | none => cases found <;> exact ih (fun hP => hrest hP.1) (fun hP => ha hP.1) fun hP => hf hP.1
    | some value =>
      cases found with
      | none => exact ih (fun hP => hrest hP.1) (fun hP => ha hP.1) And.right
      | some old =>
        dsimp only
        split
        · refine ih (fun hP => hrest hP.1) (fun hP => ha hP.1) fun hP => ifSome_some ?_
          rcases hkeep old value with he | he <;> rw [he]
          · exact hf hP.1 old rfl
          · exact hP.2 value rfl
        · exact computes_throw h _

theorem computes_evalFunction (h : C.Lawful) (hr : RulesAnswer C rules rules') (rs : RuleSet) (args : List Term)
    (hrs : P → rs.Proper C.names (TargetIn C))
    (ha : P → ∀ t ∈ args, t.VarsIn C.names) :
    C.Computes w P (Both (IfSome (Term.VarsIn C.names))) (C.env.evalFunction rules rs args)
      fun i => C.env'.evalFunction (rules' i) rs args :=
  computes_evalAgreeing h hr rs (some args) (fun _ _ => .inr rfl) rs.rules
    (fun hP => (hrs hP).rules) (fun hP => ifSome_some (ha hP)) fun _ => ifSome_none

/-- The search for the members that a rule derives. -/
def memberSearch (env : Env) (rules : RuleSemantics) (rs : RuleSet) (depth : Nat) (key : Term) (body : Body) :
    Search (List Term) :=
  env.evalBody rules body (env.evalTerm rules key (Search.ground fun member =>
    Search.after (env.emit .exit depth fun _ => rs.name) fun _ => Search.collect (Term.insertMember member)))

theorem simulates_memberSearch (h : C.Lawful) (hr : RulesAnswer C rules rules') (rs : RuleSet) {key : Term} {body : Body}
    {d d' : Nat} (hd : P → C.depths d d') (hbody : P → Expr.ProperBody C.names (TargetIn C) body)
    (hkey : P → key.Proper C.names (TargetIn C)) {A : Gathering (List Term) (List Term)}
    (hadmits : ∀ m a, A.admits (Term.insertMember m a) → A.admits a)
    (hinsert : ∀ m a a', m.VarsIn C.names → A.rel a a' → A.admits (Term.insertMember m a) →
      A.rel (Term.insertMember m a) (Term.insertMember m a')) :
    C.Simulates w P A (memberSearch C.env rules rs d key body) fun i => memberSearch C.env' (rules' i) rs d' key body := by
  refine bodyAnswers h hr body hbody ?_
  refine (termsAnswer h hr key).1 hkey fun member => simulates_ground h And.right fun member => ?_
  refine ((h.emit w _ d d' _).guard fun hP => hd hP.1.1).after h fun _ _ => ?_
  exact simulates_collect h (hadmits member) fun hP a a' hadm hA => hinsert member a a' hP.1.2 hA hadm

/-- The search for the fields that a rule derives. -/
def fieldSearch (env : Env) (rules : RuleSemantics) (rs : RuleSet) (depth : Nat) (key value : Term) (body : Body) :
    Search (List (Term × Term)) :=
  env.evalBody rules body (env.evalTerm rules key fun key => env.evalTerm rules value fun value =>
    Search.addUnique (fun key old new => .conflict rs.name (.documentKey key old new))
      (env.emit .exit depth fun _ => rs.name) key value)

theorem simulates_fieldSearch (h : C.Lawful) (hr : RulesAnswer C rules rules') (rs : RuleSet) {key value : Term}
    {body : Body} {d d' : Nat} (hd : P → C.depths d d') (hbody : P → Expr.ProperBody C.names (TargetIn C) body)
    (hkey : P → key.Proper C.names (TargetIn C)) (hvalue : P → value.Proper C.names (TargetIn C))
    {A : Gathering (List (Term × Term)) (List (Term × Term))}
    (hclash : ∀ k v old a a', C.follows (.conflict rs.name (.documentKey k old v)) → A.rel a a' →
      clash? k v a = some old → clash? k v a' = some old)
    (hadmits : ∀ k v a, clash? k v a = none → A.admits (Term.insertField k v a) → A.admits a)
    (hinsert : ∀ k v a a', k.VarsIn C.names → v.VarsIn C.names → A.rel a a' → clash? k v a = none →
      A.admits (Term.insertField k v a) →
        clash? k v a' = none ∧ A.rel (Term.insertField k v a) (Term.insertField k v a')) :
    C.Simulates w P A (fieldSearch C.env rules rs d key value body)
      fun i => fieldSearch C.env' (rules' i) rs d' key value body := by
  refine bodyAnswers h hr body hbody ?_
  refine (termsAnswer h hr key).1 hkey fun key => ?_
  refine (termsAnswer h hr value).1 (fun hP => hvalue hP.1) fun value => ?_
  exact simulates_addField h (fun hP => hP.1.2) And.right ((h.emit w _ d d' _).guard fun hP => hd hP.1.1)
    (fun s => ⟨_, C.env.run_emit _ _ _ s⟩) hclash hadmits hinsert

theorem computes_deriveMembers (h : C.Lawful) (hr : RulesAnswer C rules rules') (rs : RuleSet) {rule : Rule}
    {members : List Term} (hc : P → rule.first.Proper C.names (TargetIn C))
    (hm : P → ∀ t ∈ members, t.VarsIn C.names) :
    C.Computes w P (Both fun members => ∀ t ∈ members, t.VarsIn C.names)
      (C.env.deriveMembers rules rs members rule) fun i => C.env'.deriveMembers (rules' i) rs members rule := by
  simp only [Env.deriveMembers]
  split
  · exact .bothSelf h hm
  · next key hkey =>
    refine computes_get h fun v _ s t => ?_
    refine ((h.emit v _ s.depth t.depth _).guard fun hP => h.depth hP.2).bind h fun _ _ => ?_
    refine Simulates.gather (simulates_memberSearch h hr rs (fun hP => h.depth hP.1.2) (fun hP => (hc hP.1.1).body)
      (fun hP => (hc hP.1.1).key key hkey) (fun _ _ _ => trivial) ?_) fun hP => ⟨rfl, hm hP.1.1⟩
    rintro member members _ hmember ⟨rfl, hmembers⟩ _
    exact ⟨rfl, Term.forall_insertMember hmembers hmember⟩

theorem computes_deriveFields (h : C.Lawful) (hr : RulesAnswer C rules rules') (rs : RuleSet) {rule : Rule}
    {p : List (Term × Term) → Prop} {fields : List (Term × Term)}
    (hp : ∀ k v fs, k.VarsIn C.names → v.VarsIn C.names → p fs → p (Term.insertField k v fs))
    (hc : P → rule.first.Proper C.names (TargetIn C)) (hf : P → p fields) :
    C.Computes w P (Both p) (C.env.deriveFields rules rs fields rule)
      fun i => C.env'.deriveFields (rules' i) rs fields rule := by
  simp only [Env.deriveFields]
  split
  · exact .bothSelf h hf
  · next key hkey =>
    refine computes_get h fun v _ s t => ?_
    refine ((h.emit v _ s.depth t.depth _).guard fun hP => h.depth hP.2).bind h fun _ _ => ?_
    refine Simulates.gather (simulates_fieldSearch h hr rs (fun hP => h.depth hP.1.2) (fun hP => (hc hP.1.1).body)
      (fun hP => (hc hP.1.1).key key hkey) (fun hP => (hc hP.1.1).value) ?_ (fun _ _ _ _ _ => trivial) ?_)
      fun hP => ⟨rfl, hf hP.1.1⟩
    · rintro k v old a _ _ ⟨rfl, _⟩ hold
      exact hold
    · rintro k v a _ hk hv ⟨rfl, ha⟩ hnone _
      exact ⟨hnone, rfl, hp k v _ hk hv ha⟩

theorem computes_foldlM (h : C.Lawful) {p : β → Prop} {f : β → γ → Eval β} {f' : ι → β → γ → Eval β} (cs : List γ)
    {b : β} (hb : P → p b)
    (hf : ∀ c b, C.Computes w (P ∧ c ∈ cs ∧ p b) (Both p) (f b c) fun i => f' i b c) :
    C.Computes w P (Both p) (cs.foldlM f b) fun i => cs.foldlM (f' i) b := by
  induction cs generalizing b P with
  | nil => exact .bothSelf h hb
  | cons c rest ih =>
    simp only [List.foldlM_cons]
    refine ((hf c b).guard fun hP => ⟨hP, List.mem_cons_self, hb hP⟩).bindBoth h fun b => ?_
    exact ih And.right fun c b => (hf c b).guard fun ⟨hP, hc, hb⟩ => ⟨hP.1, List.mem_cons_of_mem _ hc, hb⟩

theorem computes_resolve (h : C.Lawful) (hr : RulesAnswer C rules rules') (reference : Term) :
    C.Computes w P (Both (IfSome (Term.VarsIn C.names))) (C.env.resolve rules reference)
      fun i => C.env'.resolve (rules' i) reference := by
  have hfold : ∀ (keys : List Term) (doc t : Term), doc.VarsIn C.names →
      keys.foldlM (fun t key => t.lookup key) doc = some t → t.VarsIn C.names := by
    intro keys
    induction keys with
    | nil =>
      intro doc t hd ht
      cases ht
      exact hd
    | cons key rest ih =>
      intro doc t hd ht
      rw [List.foldlM_cons] at ht
      obtain ⟨u, hu, ht⟩ := Option.bind_eq_some_iff.1 ht
      exact ih u t (hd.lookup hu) ht
  simp only [Env.resolve]
  split
  · exact .bothSelf h fun _ => ifSome_none
  · next chain _ =>
    have hend : ∀ {Q : Prop} (base : Option Term), C.Computes w (Q ∧ IfSome (Term.VarsIn C.names) base)
        (Both (IfSome (Term.VarsIn C.names)))
        (pure (base.bind fun doc => chain.rest.foldlM (fun t key => t.lookup key) doc))
        fun _ => pure (base.bind fun doc => chain.rest.foldlM (fun t key => t.lookup key) doc) := by
      refine fun base => .bothSelf h fun hP t ht => ?_
      obtain ⟨doc, hdoc, ht⟩ := Option.bind_eq_some_iff.1 ht
      exact hfold chain.rest doc t (hP.2 doc hdoc) ht
    split
    · have hgo : ∀ input : Option Term, C.Computes w (P ∧ IfSome (Term.VarsIn C.names) input)
          (Both (IfSome (Term.VarsIn C.names)))
          (do
            let base ← pure (input.bind fun doc => doc.lookupKeys chain.keys)
            pure (base.bind fun doc => chain.rest.foldlM (fun t key => t.lookup key) doc))
          (fun _ => do
            let base ← pure (input.bind fun doc => doc.lookupKeys chain.keys)
            pure (base.bind fun doc => chain.rest.foldlM (fun t key => t.lookup key) doc)) := by
        refine fun input => Computes.bindBoth h (.bothSelf h fun hP t ht => ?_) hend
        obtain ⟨doc, hdoc, ht⟩ := Option.bind_eq_some_iff.1 ht
        exact (hP.2 doc hdoc).lookupKeys ht
      exact computes_gets h (fun s => s.scope.input)
        (fun v s t hst => ⟨(h.scope_agrees hst).input, (h.scope_names hst).input⟩) hgo
    · exact (computes_document h hr chain.keys).bindBoth h hend
    · exact Computes.bindBoth h (.bothSelf h fun _ => ifSome_none) hend

/-- The rules that an index table finds, as a computation. -/
theorem hits_cons (found : Term → List (Term × List Nat) → List Nat) (resolve : Term → Eval (Option Term))
    (reference : Term) (buckets : List (Term × List Nat)) (rest : IndexTable) :
    (ExceptT.mk (RuleIndex.hits found (fun r => (resolve r).run) ((reference, buckets) :: rest)) : Eval (List Nat)) =
      resolve reference >>= fun value =>
        ExceptT.mk (RuleIndex.hits found (fun r => (resolve r).run) rest) >>= fun later =>
          pure ((value.map (found · buckets)).getD [] ++ later) := by
  refine Eval.ext fun s => ?_
  simp only [Eval.run_bind, Eval.run_mk, RuleIndex.hits]
  rcases (resolve reference).run s with ⟨e | value, s₁⟩
  · rfl
  · dsimp only
    rcases RuleIndex.hits found (fun r => (resolve r).run) rest s₁ with ⟨e | value, s₁⟩ <;> rfl

theorem computes_hits (h : C.Lawful) (hr : RulesAnswer C rules rules')
    (found : Term → List (Term × List Nat) → List Nat) (table : IndexTable) :
    C.Computes w P (Both fun _ => True)
      (ExceptT.mk (RuleIndex.hits found (fun r => (C.env.resolve rules r).run) table))
      fun i => ExceptT.mk (RuleIndex.hits found (fun r => (C.env'.resolve (rules' i) r).run) table) := by
  induction table generalizing P with
  | nil => exact Computes.bothSelf h (b := []) fun _ => trivial
  | cons entry rest ih =>
    obtain ⟨reference, buckets⟩ := entry
    simp only [hits_cons]
    refine (computes_resolve h hr reference).bindBoth h fun value => ?_
    exact ih.bindBoth h fun later => .bothSelf h fun _ => trivial

theorem candidates_eq (index : RuleIndex) (resolve : Term → Eval (Option Term)) :
    (ExceptT.mk (index.candidates fun r => (resolve r).run) : Eval (List Nat)) =
      ExceptT.mk (RuleIndex.hits RuleIndex.equalsHits (fun r => (resolve r).run) index.equals) >>= fun byEquality =>
        ExceptT.mk (RuleIndex.hits RuleIndex.memberHits (fun r => (resolve r).run) index.members) >>= fun byMembership =>
          pure ((index.counts.zipIdx.filter fun (count, i) =>
            (byEquality ++ byMembership).count i == count).map Prod.snd) := by
  refine Eval.ext fun s => ?_
  simp only [Eval.run_bind, Eval.run_mk, RuleIndex.candidates]
  rcases RuleIndex.hits RuleIndex.equalsHits (fun r => (resolve r).run) index.equals s with ⟨e | value, s₁⟩
  · rfl
  · dsimp only
    rcases RuleIndex.hits RuleIndex.memberHits (fun r => (resolve r).run) index.members s₁ with ⟨e | value, s₁⟩ <;> rfl

/-- With the same use of indices the candidates are the same. -/
theorem computes_candidates (h : C.Lawful) (hr : RulesAnswer C rules rules')
    (hindexed : C.env'.options.indexed = C.env.options.indexed) (rs : RuleSet) :
    C.Computes w P (Both fun rs' => ∀ r ∈ rs', r ∈ rs.rules) (C.env.candidates rules rs)
      fun i => C.env'.candidates (rules' i) rs := by
  simp only [Env.candidates, h.policy, hindexed]
  split
  · exact .bothSelf h fun _ _ hr => hr
  · simp only [candidates_eq, bind_assoc, pure_bind]
    refine (computes_hits h hr _ _).bindBoth h fun byEquality => ?_
    refine (computes_hits h hr _ _).bindBoth h fun byMembership => .bothSelf h fun _ r hmem => ?_
    obtain ⟨i, _, hi⟩ := List.mem_filterMap.1 hmem
    exact List.mem_of_getElem? hi

/-- The document of a rule set, given the rules that may succeed. -/
def documentFrom (env : Env) (rules : RuleSemantics) (rs : RuleSet) (ruleList : List Rule) : Eval (Option Term) := do
  match rs.kind with
  | .complete =>
    match ← env.evalAgreeing rules rs none (fun old _ => old) ruleList none with
    | some value => pure (some value)
    | none =>
      match rs.default with
      | some rule => env.evalClause rules rs none rule.first
      | none => pure none
  | .partialSet => return some (.set (← ruleList.foldlM (env.deriveMembers rules rs) []))
  | .partialObject => return some (.object (← ruleList.foldlM (env.deriveFields rules rs) []))
  | .function => pure none

theorem evalDocument_eq (env : Env) (rules : RuleSemantics) {rs : RuleSet} (hkind : rs.kind ≠ .function) :
    env.evalDocument rules rs = env.candidates rules rs >>= documentFrom env rules rs := by
  unfold Env.evalDocument documentFrom
  cases hk : rs.kind with
  | function => exact absurd hk hkind
  | complete => rfl
  | partialSet => rfl
  | partialObject => rfl

theorem computes_documentFrom (h : C.Lawful) (hr : RulesAnswer C rules rules') (rs : RuleSet)
    (hrs : P → rs.Proper C.names (TargetIn C)) {ruleList : List Rule}
    (hlist : P → ∀ r ∈ ruleList, r ∈ rs.rules) :
    C.Computes w P (Both (IfSome (Term.VarsIn C.names))) (documentFrom C.env rules rs ruleList)
      fun i => documentFrom C.env' (rules' i) rs ruleList := by
  have hfirst : P → ∀ r ∈ ruleList, r.first.Proper C.names (TargetIn C) :=
    fun hP r hmem => (hrs hP).rules r (hlist hP r hmem) _ List.mem_cons_self
  simp only [documentFrom]
  split
  · refine (computes_evalAgreeing h hr rs none (fun _ _ => .inl rfl) ruleList (fun hP r hmem => ?_)
      (fun _ => ifSome_none) fun _ => ifSome_none).bindBoth h fun value => ?_
    · exact (hrs hP).rules r (hlist hP r hmem)
    · cases value with
      | some value => exact .bothSelf h And.right
      | none =>
        dsimp only
        split
        · next rule hrule =>
          refine computes_evalClause h hr rs none (fun hP => ?_) fun _ => ifSome_none
          exact (hrs hP.1).default rule hrule _ List.mem_cons_self
        · exact .bothSelf h fun _ => ifSome_none
  · refine (computes_foldlM h ruleList (fun _ => List.forall_mem_nil _) fun r members => ?_).bindBoth h fun members =>
      .bothSelf h fun hP => ifSome_some (Term.varsIn_set.2 hP.2)
    exact computes_deriveMembers h hr rs (fun hP => hfirst hP.1 r hP.2.1) fun hP => hP.2.2
  · refine (computes_foldlM h ruleList (fun _ => List.forall_mem_nil _) fun r fields => ?_).bindBoth h fun fields =>
      .bothSelf h fun hP => ifSome_some (Term.varsIn_object.2 hP.2)
    exact computes_deriveFields h hr rs (fun _ _ _ hk hv hfs => FieldsIn.insertField hfs hk hv)
      (fun hP => hfirst hP.1 r hP.2.1) fun hP => hP.2.2
  · exact .bothSelf h fun _ => ifSome_none

theorem computes_evalDocument (h : C.Lawful) (hr : RulesAnswer C rules rules') (rs : RuleSet)
    (hrs : P → rs.Proper C.names (TargetIn C))
    (hcand : C.Computes w P (Both fun rs' => ∀ r ∈ rs', r ∈ rs.rules) (C.env.candidates rules rs)
      fun i => C.env'.candidates (rules' i) rs) :
    C.Computes w P (Both (IfSome (Term.VarsIn C.names))) (C.env.evalDocument rules rs)
      fun i => C.env'.evalDocument (rules' i) rs := by
  by_cases hkind : rs.kind = .function
  · simp only [Env.evalDocument, hkind]
    exact .bothSelf h fun _ => ifSome_none
  · simp only [evalDocument_eq _ _ hkind]
    exact hcand.bindBoth h fun _ => computes_documentFrom h hr rs (fun hP => hrs hP.1) And.right

end Rules

end Coupling
end PolicyEngine
