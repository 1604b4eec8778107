import PolicyEngine.Proofs.Compiled

/-!
Invariants of evaluation. A computation or a search ensures an invariant if it leads from states that have it to states
that have it. Where the evaluation of bodies and terms does so, the evaluation of rules does, and what rules derive is
made of the values that terms have once they are ground.
-/
namespace PolicyEngine

/-- From states with an invariant a computation leads to such states, and to results with a property. -/
def Eval.Ensures (I : State → Prop) (p : β → Prop) (m : Eval β) : Prop :=
  ∀ s, I s → I (m.run s).2 ∧ ∀ b, (m.run s).1 = .ok b → p b

/-- From states with an invariant a search leads to such states, and what it accumulates keeps a property. -/
def Search.Ensures (I : State → Prop) (A : α → Prop) (search : Search α) : Prop :=
  ∀ found s, I s → A found → I (search found s).state ∧ A (search found s).found

variable {I : State → Prop}

/-! ## Computations -/

namespace Eval.Ensures

variable {β γ : Type} {p : β → Prop} {q : γ → Prop} {m : Eval β}

theorem mono {p' : β → Prop} (h : m.Ensures I p) (hp : ∀ b, p b → p' b) : m.Ensures I p' :=
  fun s hs => ⟨(h s hs).1, fun b hb => hp b ((h s hs).2 b hb)⟩

theorem pure {b : β} (hb : p b) : (Pure.pure b : Eval β).Ensures I p := fun _ hs => ⟨hs, by rintro _ ⟨⟩; exact hb⟩

theorem throw (e : EvalError) : (MonadExcept.throw e : Eval β).Ensures I p := fun _ hs => ⟨hs, nofun⟩

theorem ofExcept {r : Except EvalError β} (hr : ∀ b, r = .ok b → p b) : (Eval.ofExcept r).Ensures I p :=
  fun _ hs => ⟨hs, hr⟩

theorem bind {f : β → Eval γ} (hm : m.Ensures I p) (hf : ∀ b, p b → (f b).Ensures I q) : (m >>= f).Ensures I q := by
  intro s hs
  obtain ⟨hI, hp⟩ := hm s hs
  rw [Eval.run_bind]
  rcases hrun : m.run s with ⟨e | b, s₁⟩ <;> rw [hrun] at hI hp
  · exact ⟨hI, nofun⟩
  · exact hf b (hp b rfl) s₁ hI

/-- A computation that looks at the state, which has the invariant. -/
theorem get {f : State → Eval β} (hf : ∀ s, I s → (f s).Ensures I p) :
    (MonadState.get >>= f : Eval β).Ensures I p := by
  intro s hs
  rw [Eval.run_bind, Eval.run_get]
  exact hf s hs s hs

theorem forAll {test : β → Eval Bool} {bs : List β} (ht : ∀ b ∈ bs, (test b).Ensures I fun _ => True) :
    (Eval.forAll test bs).Ensures I fun _ => True := by
  induction bs with
  | nil => exact .pure trivial
  | cons b rest ih =>
    rw [List.forall_mem_cons] at ht
    refine ht.1.bind fun holds _ => ?_
    cases holds with
    | true => exact ih ht.2
    | false => exact .pure trivial

theorem gather {search : Search β} (hs : search.Ensures I p) {start : β} (hstart : p start) :
    (Search.gather search start).Ensures I p := by
  intro s hI
  obtain ⟨hend, hfound⟩ := hs start s hI hstart
  refine ⟨hend, fun b hb => ?_⟩
  obtain ⟨_, _, rfl⟩ := Except.map_eq_ok (show (search start s).outcome.map _ = .ok b from hb)
  exact hfound

theorem foldlM {f : γ → β → Eval γ} {bs : List β} {start : γ} (hstart : q start)
    (hf : ∀ c, q c → ∀ b ∈ bs, (f c b).Ensures I q) : (bs.foldlM f start).Ensures I q := by
  induction bs generalizing start with
  | nil => exact .pure hstart
  | cons b rest ih =>
    rw [List.foldlM_cons]
    exact (hf start hstart b List.mem_cons_self).bind fun c hc =>
      ih hc fun c hc b hb => hf c hc b (List.mem_cons_of_mem _ hb)

end Eval.Ensures

/-! ## Searches -/

/-- Terms that are handed on have a property once variables are replaced by their values and they are ground. -/
def Search.Plugs (I : State → Prop) (raw value : Term → Prop) : Prop :=
  ∀ s t, I s → raw t → (s.bindings.plug t).isGround = true → value (s.bindings.plug t)

namespace Search.Ensures

variable {α β : Type} {p : β → Prop} {A : α → Prop} {raw value : Term → Prop}

theorem exhausted : (Search.exhausted : Search α).Ensures I A := fun _ _ hs hA => ⟨hs, hA⟩

theorem collect {f : α → α} (hf : ∀ a, A a → A (f a)) : (Search.collect f).Ensures I A :=
  fun found _ hs hA => ⟨hs, hf found hA⟩

theorem accept {f : α → α} (hf : ∀ a, A a → A (f a)) : (Search.accept f).Ensures I A :=
  fun found _ hs hA => ⟨hs, hf found hA⟩

theorem endingWith {search : Search α} (h : search.Ensures I A) (flow : Flow) :
    (Search.endingWith flow search).Ensures I A :=
  fun found s hs hA => h found s hs hA

theorem after {m : Eval β} (hm : m.Ensures I p) {k : β → Search α} (hk : ∀ b, p b → (k b).Ensures I A) :
    (Search.after m k).Ensures I A := by
  intro found s hs hA
  obtain ⟨hI, hp⟩ := hm s hs
  rw [Search.after]
  rcases hrun : m.run s with ⟨e | b, s₁⟩ <;> rw [hrun] at hI hp
  · exact ⟨hI, hA⟩
  · exact hk b (hp b rfl) found s₁ hI hA

theorem each {bs : List β} {k : β → Search α} (hk : ∀ b ∈ bs, (k b).Ensures I A) : (Search.each bs k).Ensures I A := by
  induction bs with
  | nil => exact exhausted
  | cons b rest ih =>
    rw [List.forall_mem_cons] at hk
    intro found s hs hA
    have hb := hk.1 found s hs hA
    simp only [Search.each]
    rcases hrun : k b found s with ⟨_ | _ | _, found₁, s₁⟩ <;> rw [hrun] at hb
    · exact hb
    · exact ih hk.2 found₁ s₁ hb.1 hb.2
    · exact hb

theorem noting {k : Search α} (hk : k.Ensures I A) : (Search.noting k).Ensures I fun found => A found.1 :=
  fun found s => hk found.1 s

theorem orElse {search : Search (α × Bool)} (hs : search.Ensures I fun found => A found.1) {otherwise : Eval Unit}
    (ho : otherwise.Ensures I fun _ => True) : (Search.orElse search otherwise).Ensures I A := by
  intro found s hI hA
  have hend := hs (found, false) s hI hA
  rw [Search.orElse]
  rcases hrun : search (found, false) s with ⟨e | flow, ⟨found₁, flag⟩, s₁⟩ <;> rw [hrun] at hend
  · exact hend
  · cases flag with
    | true => exact hend
    | false =>
      have hnext := (ho s₁ hend.1).1
      dsimp only
      rcases hrun₁ : otherwise.run s₁ with ⟨e | _, s₂⟩ <;> rw [hrun₁] at hnext
      all_goals exact ⟨hnext, hend.2⟩

/-- The continuation is called with ground terms. -/
theorem ground (hplug : Plugs I raw value) {k : Term → Search α} (hk : ∀ v, value v → (k v).Ensures I A) {t : Term}
    (ht : raw t) : (Search.ground k t).Ensures I A := by
  intro found s hs hA
  simp only [Search.ground, Search.withBindings]
  split
  · next hground => exact hk _ (hplug s t hs ht hground) found s hs hA
  · exact ⟨hs, hA⟩

/-- Of a field that is added the key and the value are ground. -/
theorem addUnique (hplug : Plugs I raw value) {conflict : Term → Term → Term → EvalError} {note : Eval Unit}
    {k v : Term} (hk : raw k) (hv : raw v) (hn : note.Ensures I fun _ => True) :
    (Search.addUnique conflict note k v).Ensures I fun fields => ∀ f ∈ fields, value f.1 ∧ value f.2 := by
  refine .ground hplug (fun v hv => .ground hplug (fun k hk found s hs hfound => ?_) hk) hv
  cases (Term.findField? k found).filter fun old => !(old == v) with
  | some old => exact ⟨hs, hfound⟩
  | none =>
    have hinsert : (Search.collect (Term.insertField k v)).Ensures I
        fun fields => ∀ f ∈ fields, value f.1 ∧ value f.2 :=
      .collect fun fields hfields => Term.forall_insertField hfields hk hv
    exact Search.Ensures.after hn (fun _ _ => hinsert) found s hs hfound

theorem acceptValue {V : Term → Prop} (rs : RuleSet) {value : Term} (hv : V value) :
    (Env.acceptValue rs value).Ensures I (IfSome V) := by
  intro found s hs hfound
  cases found with
  | none => exact ⟨hs, ifSome_some hv⟩
  | some old =>
    simp only [Env.acceptValue]
    split
    · exact ⟨hs, hfound⟩
    · exact ⟨hs, hfound⟩

end Search.Ensures

/-! ## Rules -/

/-- What the rules in an environment are made of ensures an invariant. Operands of functions, terms that are handed on
and those among them that are ground have properties of their own, and so has the text of clauses. -/
structure Env.Upholds (env : Env) (rules : RuleSemantics) (I : State → Prop) (fit : Clause → Prop)
    (operand raw value : Term → Prop) : Prop where
  hereditary : Term.Hereditary value
  emit op depth text : (env.emit op depth text).Ensures I fun _ => True
  resolve reference : Eval.Ensures I (fun _ => True) (env.resolve rules reference)
  plugs : Search.Plugs I raw value
  params {α : Type} {A : α → Prop} {k : Search α} {c : Clause} {args : List Term} :
    fit c → (∀ t ∈ args, operand t) → k.Ensures I A →
      (Search.extending (Bindings.unifyAll c.head.params args) k).Ensures I A
  body {α : Type} {A : α → Prop} {k : Search α} {c : Clause} :
    fit c → k.Ensures I A → (env.evalBody rules c.body k).Ensures I A
  key {α : Type} {A : α → Prop} {k : Term → Search α} {c : Clause} {t : Term} :
    fit c → c.head.key = some t → (∀ v, raw v → (k v).Ensures I A) → (env.evalTerm rules t k).Ensures I A
  value {α : Type} {A : α → Prop} {k : Term → Search α} {c : Clause} :
    fit c → (∀ v, raw v → (k v).Ensures I A) → (env.evalTerm rules c.value k).Ensures I A

namespace Env.Upholds

variable {env : Env} {rules : RuleSemantics} {fit : Clause → Prop} {operand raw value : Term → Prop}

/-! ### Clauses -/

section

variable (h : env.Upholds rules I fit operand raw value) (rs : RuleSet) {args : Option (List Term)}

include h

theorem ensures_evalClause (ha : IfSome (fun ts => ∀ t ∈ ts, operand t) args) {c : Clause} (hc : fit c) :
    (env.evalClause rules rs args c).Ensures I (IfSome value) := by
  refine .get fun s _ => (h.emit .enter s.depth _).bind fun _ _ => .gather ?_ ifSome_none
  have hbody : ∀ flow, (env.evalBody rules c.body (Search.endingWith flow
      (env.evalTerm rules c.value (Search.ground fun value =>
        Search.after (env.emit .exit s.depth fun _ => rs.name) fun _ => acceptValue rs value)))).Ensures I
        (IfSome value) := by
    refine fun flow => h.body hc (.endingWith (h.value hc fun v hv => .ground h.plugs (fun v hv => ?_) hv) flow)
    exact .after (h.emit .exit s.depth _) fun _ _ => .acceptValue rs hv
  cases args with
  | none => exact hbody _
  | some ts => exact h.params hc (ha ts rfl) (hbody _)

theorem ensures_evalChain (ha : IfSome (fun ts => ∀ t ∈ ts, operand t) args) {cs : List Clause}
    (hcs : ∀ c ∈ cs, fit c) : (env.evalChain rules rs args cs).Ensures I (IfSome value) := by
  induction cs with
  | nil => exact .pure ifSome_none
  | cons c rest ih =>
    rw [List.forall_mem_cons] at hcs
    refine (h.ensures_evalClause rs ha hcs.1).bind fun found hfound => ?_
    cases found with
    | some v => exact .pure hfound
    | none => exact ih hcs.2

/-- Of equal values either may stay. -/
theorem ensures_evalAgreeing {keep : Term → Term → Term} (hkeep : ∀ a b, keep a b = a ∨ keep a b = b)
    (ha : IfSome (fun ts => ∀ t ∈ ts, operand t) args) {ruleList : List Rule}
    (hrules : ∀ r ∈ ruleList, ∀ c ∈ r.clauses, fit c) {found : Option Term} (hf : IfSome value found) :
    (env.evalAgreeing rules rs args keep ruleList found).Ensures I (IfSome value) := by
  induction ruleList generalizing found with
  | nil => exact .pure hf
  | cons rule rest ih =>
    rw [List.forall_mem_cons] at hrules
    simp only [Env.evalAgreeing]
    refine (h.ensures_evalChain rs ha hrules.1).bind fun next hnext => ?_
    split
    · exact ih hrules.2 hf
    · exact ih hrules.2 hnext
    · next old new =>
      split
      · refine ih hrules.2 (ifSome_some ?_)
        rcases hkeep old new with hk | hk <;> rw [hk]
        · exact hf old rfl
        · exact hnext new rfl
      · exact .throw _

end

/-! ### Indices -/

section

variable (h : env.Upholds rules I fit operand raw value)

include h

theorem ensures_hits (found : Term → List (Term × List Nat) → List Nat) (table : IndexTable) :
    Eval.Ensures I (fun _ => True)
      (ExceptT.mk (RuleIndex.hits found (fun r => (env.resolve rules r).run) table)) := by
  induction table with
  | nil => exact fun s hs => ⟨hs, fun _ _ => trivial⟩
  | cons entry rest ih =>
    obtain ⟨reference, buckets⟩ := entry
    rw [Coupling.hits_cons]
    exact (h.resolve reference).bind fun _ _ => ih.bind fun _ _ => .pure trivial

/-- Candidates are rules of the set. -/
theorem ensures_candidates (rs : RuleSet) :
    (env.candidates rules rs).Ensures I fun candidates => ∀ r ∈ candidates, r ∈ rs.rules := by
  simp only [Env.candidates]
  split
  · exact .pure fun _ hr => hr
  · simp only [Coupling.candidates_eq, bind_assoc, pure_bind]
    refine (h.ensures_hits _ _).bind fun byEquality _ => (h.ensures_hits _ _).bind fun byMembership _ => ?_
    refine .pure fun r hr => ?_
    obtain ⟨i, _, hi⟩ := List.mem_filterMap.1 hr
    exact List.mem_of_getElem? hi

/-! ### Documents -/

theorem ensures_deriveMembers (rs : RuleSet) {r : Rule} (hr : fit r.first) {members : List Term}
    (hm : ∀ t ∈ members, value t) :
    (env.deriveMembers rules rs members r).Ensures I fun members => ∀ t ∈ members, value t := by
  simp only [Env.deriveMembers]
  split
  · exact .pure hm
  · next key hkey =>
    refine .get fun s _ => (h.emit .enter s.depth _).bind fun _ _ => .gather ?_ hm
    refine h.body hr (h.key hr hkey fun v hv => .ground h.plugs (fun member hmember => ?_) hv)
    exact .after (h.emit .exit s.depth _) fun _ _ => .collect fun members hm => Term.forall_insertMember hm hmember

theorem ensures_deriveFields (rs : RuleSet) {r : Rule} (hr : fit r.first) {fields : List (Term × Term)}
    (hf : ∀ f ∈ fields, value f.1 ∧ value f.2) :
    (env.deriveFields rules rs fields r).Ensures I fun fields => ∀ f ∈ fields, value f.1 ∧ value f.2 := by
  simp only [Env.deriveFields]
  split
  · exact .pure hf
  · next key hkey =>
    refine .get fun s _ => (h.emit .enter s.depth _).bind fun _ _ => .gather ?_ hf
    refine h.body hr (h.key hr hkey fun k hk => h.value hr fun v hv => ?_)
    exact .addUnique h.plugs hk hv (h.emit .exit s.depth _)

/-- The document of a rule set is made of such values. -/
theorem ensures_evalDocument {rs : RuleSet} (hrules : ∀ r ∈ rs.rules, ∀ c ∈ r.clauses, fit c)
    (hdefault : ∀ r, rs.default = some r → ∀ c ∈ r.clauses, fit c) :
    (env.evalDocument rules rs).Ensures I (IfSome value) := by
  by_cases hkind : rs.kind = .function
  · simp only [Env.evalDocument, hkind]
    exact .pure ifSome_none
  rw [Coupling.evalDocument_eq env rules hkind]
  refine (h.ensures_candidates rs).bind fun candidates hmem => ?_
  have hclauses : ∀ r ∈ candidates, ∀ c ∈ r.clauses, fit c := fun r hr => hrules r (hmem r hr)
  have hfirst : ∀ r ∈ candidates, fit r.first := fun r hr => hclauses r hr _ List.mem_cons_self
  unfold Coupling.documentFrom
  split
  · refine (h.ensures_evalAgreeing rs (fun _ _ => .inl rfl) ifSome_none hclauses ifSome_none).bind fun found hfound => ?_
    split
    · exact .pure hfound
    · split
      · next rule hrule => exact h.ensures_evalClause rs ifSome_none (hdefault rule hrule _ List.mem_cons_self)
      · exact .pure ifSome_none
  · refine Eval.Ensures.bind (.foldlM (List.forall_mem_nil _) fun members hm r hr => ?_) fun members hm =>
      .pure (ifSome_some (h.hereditary.set.2 hm))
    exact h.ensures_deriveMembers rs (hfirst r hr) hm
  · refine Eval.Ensures.bind (.foldlM (List.forall_mem_nil _) fun fields hf r hr => ?_) fun fields hf =>
      .pure (ifSome_some (h.hereditary.object.2 hf))
    exact h.ensures_deriveFields rs (hfirst r hr) hf
  · exact .pure ifSome_none

theorem ensures_evalFunction {rs : RuleSet} (hrules : ∀ r ∈ rs.rules, ∀ c ∈ r.clauses, fit c) {args : List Term}
    (ha : ∀ t ∈ args, operand t) : (env.evalFunction rules rs args).Ensures I (IfSome value) :=
  h.ensures_evalAgreeing rs (fun _ _ => .inr rfl) (ifSome_some ha) hrules ifSome_none

end

end Env.Upholds
end PolicyEngine
