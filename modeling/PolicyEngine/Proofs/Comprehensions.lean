import Mathlib.Data.Set.Basic
import PolicyEngine.Proofs.Acceptance
import PolicyEngine.Proofs.Derivation
import PolicyEngine.Proofs.Environments
import PolicyEngine.Proofs.Grounded

/-!
Partial documents and comprehensions. The rules of a partial document add to one collection, each to what the ones
before it have derived; a comprehension collects for itself. A document is the union of what the comprehensions of its
rules collect, and where two of these disagree on a key there is no document.
-/
namespace PolicyEngine

/-! ## Contents -/

/-- All that belongs to something in a collection. -/
def extent {γ : Type} (R : γ → γ → Prop) (xs : List γ) : Set γ := { x | ∃ y ∈ xs, R x y }

section Contents

variable {γ : Type} {R : γ → γ → Prop} {xs ys zs : List γ}

theorem extent_nil (R : γ → γ → Prop) : extent R [] = ∅ := by
  ext x
  simp [extent]

theorem extent_cons (R : γ → γ → Prop) (y : γ) (xs : List γ) :
    extent R (y :: xs) = { x | R x y } ∪ extent R xs := by
  ext x
  simp [extent]

theorem extent_append (R : γ → γ → Prop) (xs ys : List γ) :
    extent R (xs ++ ys) = extent R xs ∪ extent R ys := by
  ext x
  simp [extent, or_and_right, exists_or]

theorem mem_extent (hR : ∀ x, R x x) {x : γ} (h : x ∈ xs) : x ∈ extent R xs := ⟨x, h, hR x⟩

theorem within_of_extent (hR : ∀ x, R x x) (h : extent R xs ⊆ extent R ys) : Within R xs ys :=
  fun _ hx => h (mem_extent hR hx)

/-- A collection in the order of its keys that has the contents of two others. -/
structure Joins (key : γ → Term) (R : γ → γ → Prop) (xs ys zs : List γ) : Prop where
  sorted : Term.SortedBy key zs
  extent : extent R zs = extent R xs ∪ extent R ys

namespace Joins

variable {key : γ → Term} {ys' zs' : List γ}

theorem refl (R : γ → γ → Prop) (h : Term.SortedBy key xs) : Joins key R xs [] xs :=
  ⟨h, by rw [extent_nil, Set.union_empty]⟩

theorem trans (h : Joins key R xs ys zs) (h' : Joins key R zs ys' zs') : Joins key R xs (ys ++ ys') zs' :=
  ⟨h'.sorted, by rw [h'.extent, h.extent, extent_append, Set.union_assoc]⟩

/-- Something is added to the second collection and to the one that has the contents of both. -/
theorem add (h : Joins key R xs ys zs) {added : Set γ} (hsorted : Term.SortedBy key zs')
    (hys : PolicyEngine.extent R ys' = added ∪ PolicyEngine.extent R ys)
    (hzs : PolicyEngine.extent R zs' = added ∪ PolicyEngine.extent R zs) : Joins key R xs ys' zs' :=
  ⟨hsorted, by rw [hzs, hys, h.extent, Set.union_left_comm]⟩

end Joins

end Contents

namespace Term

variable {t key value : Term} {members ts : List Term} {fields fs : List (Term × Term)}

/-! ### Members -/

theorem extent_insertMember (t : Term) (members : List Term) :
    extent Same (insertMember t members) = { u | Same u t } ∪ extent Same members := by
  ext u
  constructor
  · rintro ⟨m, hm, hum⟩
    rcases mem_insertMember hm with rfl | hm
    · exact .inl hum
    · exact .inr ⟨m, hm, hum⟩
  · rintro (hut | ⟨m, hm, hum⟩)
    · obtain ⟨m, hm, htm⟩ := exists_mem_insertMember t members
      exact ⟨m, hm, beq_trans hut htm⟩
    · exact ⟨m, mem_insertMember_of_mem hm, hum⟩

theorem extent_sortMembers (ts : List Term) : extent Same (sortMembers ts) = extent Same ts := by
  induction ts with
  | nil => rfl
  | cons t rest ih =>
    rw [extent_cons, ← ih]
    exact extent_insertMember t (sortMembers rest)

/-- The set with the contents of a list is the set of the members of that list. -/
theorem set_beq_setOf (h : Joins id Same [] ts members) : (Term.set members == setOf ts) = true := by
  have hextent : extent Same members = extent Same (sortMembers ts) := by
    rw [h.extent, extent_nil, Set.empty_union, extent_sortMembers]
  exact set_beq_of_within h.sorted (sortedBy_sortMembers ts) (within_of_extent beq_refl hextent.le)
    (within_of_extent beq_refl hextent.ge)

/-! ### Fields -/

theorem sameField_refl (f : Term × Term) : SameField f f := ⟨beq_refl _, beq_refl _⟩

theorem extent_insertField (hclash : Coupling.clash? key value fields = none) :
    extent SameField (insertField key value fields) = { f | SameField f (key, value) } ∪ extent SameField fields := by
  ext f
  constructor
  · rintro ⟨g, hg, hfg⟩
    rcases sameField_of_mem_insertField hg with hsame | hg
    · exact .inl (hfg.trans hsame.symm)
    · exact .inr ⟨g, hg, hfg⟩
  · rintro (hf | ⟨g, hg, hfg⟩)
    · obtain ⟨g, hg, hsame⟩ := exists_mem_insertField key value fields
      exact ⟨g, hg, hf.trans hsame⟩
    · obtain ⟨g', hg', hgg'⟩ := sameField_mem_insertField hclash hg
      exact ⟨g', hg', hfg.trans hgg'⟩

theorem mem_addField_of_mem {f : Term × Term} (h : f ∈ fields) : f ∈ addField key value fields := by
  induction fields with
  | nil => cases h
  | cons first rest ih =>
    obtain ⟨k, v⟩ := first
    rw [addField]
    split
    · exact List.mem_cons_of_mem _ h
    · exact h
    · rcases List.mem_cons.1 h with rfl | h
      · exact List.mem_cons_self
      · exact List.mem_cons_of_mem _ (ih h)

theorem exists_mem_addField (key value : Term) (fields : List (Term × Term)) :
    ∃ f ∈ addField key value fields, (key == f.1) = true := by
  induction fields with
  | nil => exact ⟨(key, value), List.mem_cons_self, beq_refl key⟩
  | cons first rest ih =>
    obtain ⟨k, v⟩ := first
    rw [addField]
    split
    · exact ⟨(key, value), List.mem_cons_self, beq_refl key⟩
    · next hcmp => exact ⟨(k, v), List.mem_cons_self, beq_iff_cmp.2 hcmp⟩
    · obtain ⟨f, hf, hkey⟩ := ih
      exact ⟨f, List.mem_cons_of_mem _ hf, hkey⟩

theorem SortedBy.addField (h : SortedBy Prod.fst fields) : SortedBy Prod.fst (addField key value fields) := by
  induction fields with
  | nil => exact List.pairwise_singleton _ _
  | cons first rest ih =>
    obtain ⟨k, v⟩ := first
    rw [SortedBy, List.pairwise_cons] at h
    rw [Term.addField]
    split
    · next hlt =>
      refine List.pairwise_cons.2 ⟨fun f hf => ?_, List.pairwise_cons.2 h⟩
      rcases List.mem_cons.1 hf with rfl | hf
      · exact hlt
      · exact cmp_trans _ _ _ hlt (h.1 f hf)
    · exact List.pairwise_cons.2 h
    · next hgt =>
      refine List.pairwise_cons.2 ⟨fun f hf => ?_, ih h.2⟩
      rcases mem_addField hf with rfl | hf
      · rw [cmp_swap, hgt]
        rfl
      · exact h.1 f hf

theorem sortedBy_sortFields (fs : List (Term × Term)) : SortedBy Prod.fst (sortFields fs) := by
  induction fs with
  | nil => exact List.Pairwise.nil
  | cons f rest ih => exact SortedBy.addField ih

theorem exists_mem_sortFields {f : Term × Term} (h : f ∈ fs) : ∃ g ∈ sortFields fs, (f.1 == g.1) = true := by
  induction fs with
  | nil => cases h
  | cons first rest ih =>
    rcases List.mem_cons.1 h with rfl | h
    · exact exists_mem_addField f.1 f.2 (sortFields rest)
    · obtain ⟨g, hg, hkey⟩ := ih h
      exact ⟨g, mem_addField_of_mem hg, hkey⟩

/-- No two fields have equal keys and different values. -/
def Unambiguous (fs : List (Term × Term)) : Prop := ∀ f ∈ fs, ∀ g ∈ fs, (f.1 == g.1) = true → (f.2 == g.2) = true

instance (fs : List (Term × Term)) : Decidable (Unambiguous fs) :=
  inferInstanceAs (Decidable (∀ f ∈ fs, ∀ g ∈ fs, (f.1 == g.1) = true → (f.2 == g.2) = true))

/-- Only unambiguous fields are those of an object. -/
theorem unambiguous_of_joins (h : Joins Prod.fst SameField [] fs fields) : Unambiguous fs := by
  have hextent : extent SameField fs ⊆ extent SameField fields := by
    rw [h.extent]
    exact Set.subset_union_right
  intro f hf g hg hkeys
  obtain ⟨f', hf', hff'⟩ := hextent (mem_extent sameField_refl hf)
  obtain ⟨g', hg', hgg'⟩ := hextent (mem_extent sameField_refl hg)
  obtain rfl : f' = g' := h.sorted.eq_of_keys hf' hg' (beq_trans (beq_symm hff'.1) (beq_trans hkeys hgg'.1))
  exact beq_trans hff'.2 (beq_symm hgg'.2)

/-- The object with the contents of a list is the object with the fields of that list. -/
theorem object_beq_objectOf (h : Joins Prod.fst SameField [] fs fields) :
    (Term.object fields == objectOf fs) = true := by
  have hextent : extent SameField fields = extent SameField fs := by
    rw [h.extent, extent_nil, Set.empty_union]
  refine object_beq_of_within h.sorted (sortedBy_sortFields fs) (fun f hf => ?_) fun g hg => ?_
  · obtain ⟨g, hg, hfg⟩ := hextent.le (mem_extent sameField_refl hf)
    obtain ⟨g', hg', hkey⟩ := exists_mem_sortFields hg
    exact ⟨g', hg', hfg.trans ⟨hkey, unambiguous_of_joins h g hg g' (mem_sortFields hg') hkey⟩⟩
  · exact hextent.ge (mem_extent sameField_refl (mem_sortFields hg))

end Term

/-! ## A comprehension beside the rule of a document -/

namespace Coupling

variable {ι : Type} {C : Coupling ι} {α α' β : Type} {w : C.World} {P : Prop} {A : Gathering α α'}
  {B : β → β → Prop}

/-- The coupling when the second run may end in any error of its own. -/
def excusing (C : Coupling ι) : Coupling ι := { C with escapes := fun _ => True }

theorem Computes.excusing {m : Eval β} {m' : ι → Eval β} (hm : C.Computes w P B m m') :
    C.excusing.Computes w P B m m' := by
  refine ⟨hm.1, fun hP v hv s t hst hfol => ?_⟩
  obtain ⟨r', hr', hagree⟩ := hm.2 hP v hv s t hst hfol
  exact ⟨r', hr', hagree.imp_right fun ⟨e, he, _⟩ => ⟨e, he, trivial⟩⟩

theorem Lawful.excusing (h : C.Lawful) : C.excusing.Lawful :=
  { h with
    checkpoint := fun w => (h.checkpoint w).excusing
    emit := fun w op d d' text => (h.emit w op d d' text).excusing
    read := fun w path => (h.read w path).excusing
    listKeys := fun w path => (h.listKeys w path).excusing
    callBuiltin := fun w b args => (h.callBuiltin w b args).excusing }

theorem RulesAnswer.excusing {rules : RuleSemantics} {rules' : ι → RuleSemantics} (h : RulesAnswer C rules rules') :
    RulesAnswer C.excusing rules rules' :=
  ⟨fun w rs => (h.document w rs).excusing, fun w rs args => (h.function w rs args).excusing⟩

/-- The second search may note an event first. -/
theorem Simulates.noted (hquiet : ∀ {w s t t'}, C.rel w s t → t.Quiet t' → C.rel w s t') {m : Search α}
    {m' : ι → Search α'} (hm : C.Simulates w P A m m') (env : Env) (op : TraceOp) (d : Nat) (text : Unit → String) :
    C.Simulates w P A m fun i => Search.after (env.emit op d text) fun _ => m' i := by
  refine ⟨hm.1, fun hP v hv found found' s t hA hst hfol hadm => ?_⟩
  obtain ⟨r', hr', hmatch⟩ := hm.2 hP v hv found found' s _ hA (hquiet hst (env.quiet_emit op d text t)) hfol hadm
  refine ⟨r', hr'.mono fun i hi => ?_, hmatch⟩
  rw [env.run_emit] at hi
  simp only [Search.after, env.run_emit]
  exact hi

end Coupling

namespace Env

/-- The search of a set comprehension. -/
def comprehendSet (env : Env) (rules : RuleSemantics) (key : Term) (body : Body) : Search (List Term) :=
  env.evalBody rules body (env.evalTerm rules key (Search.ground fun t => Search.collect (Term.insertMember t)))

/-- The search of an object comprehension. -/
def comprehendObject (env : Env) (rules : RuleSemantics) (key value : Term) (body : Body) : Search (List (Term × Term)) :=
  env.evalBody rules body (env.evalTerm rules key fun key => env.evalTerm rules value fun value =>
    Search.addUnique (fun key old new => .conflict "object comprehension" (.comprehensionKey key old new)) (pure ())
      key value)

end Env

section Searches

variable {env : Env} {answers : List BuiltinAnswer} {w : Scopes} {key value : Term} {body : Body} {rs : RuleSet} {d : Nat}
  {P : Prop} {a : List Term} {start : List (Term × Term)}

/-- An evaluation beside an ideal one that may fail. -/
abbrev Coupling.besideIdeal (env : Env) (answers : List BuiltinAnswer) : Coupling Nat :=
  (Pairing.toIdeal env answers).coupling.excusing

namespace Coupling.besideIdeal

theorem lawful (hreg : env.registry.Regular) : (besideIdeal env answers).Lawful :=
  (Pairing.toIdeal.lawful hreg).coupling.excusing

theorem quiet (hreg : env.registry.Regular) {w : (besideIdeal env answers).World} {s t t' : State}
    (h : (besideIdeal env answers).rel w s t) (hq : t.Quiet t') : (besideIdeal env answers).rel w s t' :=
  (Pairing.toIdeal.lawful hreg).quiet h (.refl s) hq

theorem rulesAnswer (hreg : env.registry.Regular) (hdistinct : env.policy.Distinct) :
    RulesAnswer (besideIdeal env answers) env.rules env.idealTo :=
  (Pairing.toIdeal.rulesAnswer_rulesTo hdistinct hreg _).excusing

theorem term_any (env : Env) (t : Term) : t.Proper Vocabulary.any.names (env.TargetIn Vocabulary.any.mocks) :=
  t.proper_of_forall (fun _ => trivial) fun _ _ _ => trivial

/-- A rule adds the members of its set comprehension to those that are there. -/
theorem simulates_memberSearch (hreg : env.registry.Regular) (hdistinct : env.policy.Distinct) :
    (besideIdeal env answers).Simulates w P (Joins id Term.Same a) (env.comprehendSet env.rules key body)
      fun n => Coupling.memberSearch env (env.idealTo n) rs d key body := by
  have hlaw : (besideIdeal env answers).Lawful := lawful hreg
  have hr : RulesAnswer (besideIdeal env answers) env.rules env.idealTo := rulesAnswer hreg hdistinct
  refine bodyAnswers hlaw hr body (fun _ => Vocabulary.body_any env body) ?_
  refine (termsAnswer hlaw hr key).1 (fun _ => term_any env key) fun member =>
    simulates_ground hlaw And.right fun member => ?_
  refine Simulates.noted (quiet hreg) ?_ env _ d _
  refine simulates_collect hlaw (fun _ _ => trivial) fun _ found found' _ hjoins => ?_
  exact hjoins.add hjoins.sorted.insertMember (Term.extent_insertMember member found)
    (Term.extent_insertMember member found')

/-- A field is added to those of an object comprehension and to those of a document, which may have another value for
its key. -/
theorem simulates_addUnique (hreg : env.registry.Regular) {conflict conflict' : Term → Term → Term → EvalError}
    {op : TraceOp} {text : Unit → String} :
    (besideIdeal env answers).Simulates w P (Joins Prod.fst Term.SameField start)
      (Search.addUnique conflict (pure ()) key value)
      fun _ => Search.addUnique conflict' (env.emit op d text) key value := by
  have hlaw : (besideIdeal env answers).Lawful := lawful hreg
  refine simulates_ground hlaw (fun _ => value.varsIn_of_forall fun _ => trivial) fun value =>
    simulates_ground hlaw (fun _ => key.varsIn_of_forall fun _ => trivial) fun key => ⟨fun found s => ?_, ?_⟩
  · dsimp only
    cases (Term.findField? key found).filter fun old => !(old == value) with
    | some old => exact hlaw.advances_refl _ _ _
    | none => exact ⟨hlaw.grows_refl _, fun _ => trivial⟩
  rintro - u - found found' s t hjoins hst hfol -
  dsimp only at hfol ⊢
  cases hclash : clash? key value found with
  | some old =>
    -- a comprehension that fails is not followed
    rw [clash?] at hclash
    rw [hclash] at hfol
    exact (hfol.1 _ rfl).elim
  | none =>
    cases hclash' : clash? key value found' with
    | some old =>
      rw [clash?] at hclash'
      rw [hclash']
      exact ⟨_, .of_forall fun _ => rfl, .inr ⟨_, rfl, trivial⟩⟩
    | none =>
      have hadded := hjoins.add hjoins.sorted.insertField (Term.extent_insertField hclash)
        (Term.extent_insertField hclash')
      rw [clash?] at hclash hclash'
      simp only [hclash, hclash', Search.after, env.run_emit]
      refine ⟨_, .of_forall fun _ => rfl, .inl ⟨rfl, ⟨hadded, fun hstop => by cases hstop⟩, ?_, rfl⟩⟩
      have hquiet := env.quiet_emit op d text t
      rw [env.run_emit] at hquiet
      exact quiet hreg hst hquiet

theorem simulates_fieldSearch (hreg : env.registry.Regular) (hdistinct : env.policy.Distinct) :
    (besideIdeal env answers).Simulates w P (Joins Prod.fst Term.SameField start)
      (env.comprehendObject env.rules key value body)
      fun n => Coupling.fieldSearch env (env.idealTo n) rs d key value body := by
  have hlaw : (besideIdeal env answers).Lawful := lawful hreg
  have hr : RulesAnswer (besideIdeal env answers) env.rules env.idealTo := rulesAnswer hreg hdistinct
  refine bodyAnswers hlaw hr body (fun _ => Vocabulary.body_any env body) ?_
  refine (termsAnswer hlaw hr key).1 (fun _ => term_any env key) fun key => ?_
  refine (termsAnswer hlaw hr value).1 (fun _ => term_any env value) fun value => ?_
  exact simulates_addUnique hreg

end Coupling.besideIdeal

end Searches

/-! ## What evaluations find -/

/-- A computation comes to a result, in an environment and under overrides. It may stand anywhere in an evaluation: it
remembers documents only as their rule sets mean them, and its built-ins answer in keeping with given answers. -/
def Env.Finds {β : Type} (env : Env) (answers : List BuiltinAnswer) (σ : Scope) (b : Bindings) (m : Eval β) (x : β) :
    Prop :=
  ∃ s s₁ w, s.Remembers env.policy (env.Denotes answers) w ∧ σ.Agrees s.scope ∧ s.bindings = b ∧
    m.run s = (.ok x, s₁) ∧ BuiltinAnswer.Extends s₁.answers answers

/-- A state in which ideal rules derive a document: the answers of built-ins are given, and nothing is bound. -/
structure State.Deriving (env : Env) (answers : List BuiltinAnswer) (σ : Scope) (u : State) : Prop where
  calm : u.Calm env
  answered : u.answers = answers
  agrees : σ.Agrees u.scope
  bindings : u.bindings = {}

section Finds

variable {β γ : Type} {env : Env} {answers : List BuiltinAnswer} {σ : Scope} {b : Bindings} {rs : RuleSet} {s s₁ u : State}
  {v x : Option Term}

/-- Where nothing is remembered a computation may start. -/
theorem Env.finds_of_run {m : Eval β} {x : β} (hmemo : s.memo = []) (hscope : s.scope.id ≤ s.lastScope)
    (hrun : m.run s = (.ok x, s₁)) (hanswers : BuiltinAnswer.Extends s₁.answers answers) :
    env.Finds answers s.scope s.bindings m x :=
  ⟨s, s₁, _, .of_empty env.policy _ hmemo hscope, .refl _, rfl, hrun, hanswers⟩

theorem State.Deriving.quiet {u₁ : State} (h : u.Deriving env answers σ) (hq : u.Quiet u₁) : u₁.Deriving env answers σ := by
  have hscope : u₁.scope = u.scope := congrArg Frame.scope hq.frame
  exact ⟨h.calm.quiet hq, hq.answers.trans h.answered, hscope ▸ h.agrees,
    (congrArg Frame.bindings hq.frame).trans h.bindings⟩

theorem State.Deriving.of_idealizes {w : Scopes} (h : Pairing.Idealizes env answers w s₁ u) (hframe : s₁.frame = s.frame)
    (hagrees : σ.Agrees s.scope) (hbindings : s.bindings = {}) : u.Deriving env answers σ := by
  have hscope : s₁.scope = s.scope := congrArg Frame.scope hframe
  refine ⟨h.calm, h.answered, (hscope ▸ hagrees).trans h.agrees, ?_⟩
  exact h.bindings.trans ((congrArg Frame.bindings hframe).trans hbindings)

/-- The document that is found is the one that the ideal rules derive. -/
theorem Env.Finds.document (hreg : env.registry.Regular) (hdistinct : env.policy.Distinct) (hrs : rs ∈ env.policy.ruleSets)
    (hkind : rs.kind ≠ .function) (h : env.Finds answers σ b (env.rules.document rs) v) :
    ∃ u : State, u.Deriving env answers σ ∧
      ∀ᶠ n in Filter.atTop, ((env.evalDocument (env.idealTo n) rs).run u).1 = .ok v := by
  obtain ⟨s, s₁, w, hremembers, hagrees, _, hrun, hwithin⟩ := h
  have hcalm : ∀ b, State.Calm env { bindings := b, scope := σ, answers := answers, clock := { step := 0 } } :=
    fun _ => ⟨rfl, Bool.and_false _⟩
  have hst : Pairing.Idealizes env answers w s
      { bindings := s.bindings, scope := σ, answers := answers, clock := { step := 0 } } :=
    ⟨rfl, hagrees.symm, hcalm _, rfl, hremembers⟩
  have hfol : (Pairing.toIdeal env answers).coupling.Followed ((env.rules.document rs).run s).1
      ((env.rules.document rs).run s).2.answers := by
    rw [hrun]
    exact ⟨nofun, hwithin⟩
  obtain ⟨⟨out, t⟩, hev, hagree⟩ := ((Pairing.toIdeal.rulesAnswer_rulesTo hdistinct hreg _).document w rs).2 hrs w
    (Scopes.Later.refl w) s _ hst hfol
  obtain ⟨hres, _⟩ := hagree.resolve_right fun ⟨_, _, he⟩ => he
  change Coupling.Results _ ((env.rules.document rs).run s).1 _ at hres
  rw [hrun] at hres
  cases out with
  | error e => exact hres.elim
  | ok v' =>
    obtain ⟨rfl, _⟩ := hres
    refine ⟨{ bindings := {}, scope := σ, answers := answers, clock := { step := 0 } },
      ⟨hcalm {}, rfl, .refl σ, rfl⟩, ((Filter.tendsto_add_atTop_nat 1).eventually hev).mono fun n hn => ?_⟩
    simp only [Env.idealTo, RuleSet.forgetting, if_neg hkind, Eval.isolated, Eval.run_nested] at hn
    exact congrArg Prod.fst hn

/-- What a search has collected in one evaluation, the ideal search has added to a collection, unless it fails. -/
theorem Env.Finds.derive {search : Search β} {search' : Nat → Nat → Search β} {A : β → β → Prop} {start a c : β}
    (hsim : ∀ w d, (Coupling.besideIdeal env answers).Simulates w True A search fun n => search' n d)
    (h : env.Finds answers σ {} (Search.gather search start) c) (hA : A start a) (hu : u.Deriving env answers σ) :
    ∃ r', (∀ᶠ n in Filter.atTop, (env.deriveBy rs (search' n) a).run u = r') ∧
      ∀ a' u', r' = (.ok a', u') → A c a' ∧ u'.Deriving env answers σ := by
  obtain ⟨s, s₁, w, hremembers, hagrees, hbindings, hrun, hwithin⟩ := h
  have hu₁ := hu.quiet (env.quiet_emit .enter u.depth (fun _ => rs.name) u)
  have hst : Pairing.Idealizes env answers w s ((env.emit .enter u.depth fun _ => rs.name).run u).2 :=
    ⟨hu₁.bindings.trans hbindings.symm, hagrees.symm.trans hu₁.agrees, hu₁.calm, hu₁.answered, hremembers⟩
  rw [Search.run_gather] at hrun
  obtain ⟨hout, rfl⟩ := Prod.mk.inj hrun
  obtain ⟨flow, hflow, rfl⟩ := Except.map_eq_ok hout
  obtain ⟨r, hev, hmatch⟩ := (hsim w u.depth).2 trivial w (Scopes.Later.refl w) start a s _ hA hst
    ⟨fun _ he => Except.absurd_error hflow he, hwithin⟩ trivial
  refine ⟨(r.outcome.map fun _ => r.found, r.state), hev.mono fun n hn => ?_, fun a' u' hr => ?_⟩
  · have hn : search' n u.depth a _ = r := hn
    rw [env.run_deriveBy, Search.run_gather, hn]
  · obtain ⟨hmap, rfl⟩ := Prod.mk.inj hr
    obtain ⟨flow', hflow', rfl⟩ := Except.map_eq_ok hmap
    rcases hmatch with ⟨_, ⟨hfound, _⟩, hrel, hframe⟩ | ⟨e, he, _⟩
    · exact ⟨hfound, .of_idealizes hrel hframe hagrees hbindings⟩
    · exact Except.absurd_error hflow' he

/-- In evaluations of a rule that come to one end as the depth of ideal rules grows, something is added to every
collection in order, unless they fail. -/
def Env.Adds (env : Env) (answers : List BuiltinAnswer) (σ : Scope) (key : γ → Term) (R : γ → γ → Prop)
    (derive : Nat → List γ → Rule → Eval (List γ)) (rule : Rule) (found : List γ) : Prop :=
  ∀ a (u : State), Term.SortedBy key a → u.Deriving env answers σ →
    ∃ r', (∀ᶠ n in Filter.atTop, (derive n a rule).run u = r') ∧
      ∀ a' u', r' = (.ok a', u') → Joins key R a found a' ∧ u'.Deriving env answers σ

/-- Rules that add one after the other add all that each of them adds. -/
theorem joins_of_foldlM {key : γ → Term} {R : γ → γ → Prop} {derive : Nat → List γ → Rule → Eval (List γ)}
    {ruleList : List Rule} {founds : List (List γ)} {start all : List γ}
    (hsteps : List.Forall₂ (env.Adds answers σ key R derive) ruleList founds)
    (hstart : Term.SortedBy key start) (hu : u.Deriving env answers σ)
    (hrun : ∀ᶠ n in Filter.atTop, ((ruleList.foldlM (derive n) start).run u).1 = .ok all) :
    Joins key R start founds.flatten all := by
  induction hsteps generalizing start u with
  | nil =>
    obtain ⟨_, hn⟩ := hrun.exists
    cases hn
    exact .refl R hstart
  | cons hstep _ ih =>
    obtain ⟨⟨out, u'⟩, hev, hnext⟩ := hstep start u hstart hu
    have hrest := (hev.and hrun).mono fun n hn => by
      have hfold := hn.2
      rw [Eval.run_foldlM_cons, hn.1] at hfold
      exact hfold
    cases out with
    | error e =>
      obtain ⟨_, hn⟩ := hrest.exists
      cases hn
    | ok a' =>
      obtain ⟨hjoins, hu'⟩ := hnext a' u' rfl
      exact hjoins.trans (ih hjoins.sorted hu' hrest)

/-- A document that is made of what its rules add one after another has what each of them has collected for itself. -/
theorem Env.Finds.joins {key : γ → Term} {R : γ → γ → Prop} {build : List γ → Term} (hbuild : build.Injective)
    {derive : Nat → List γ → Rule → Eval (List γ)} {founds : List (List γ)} (hreg : env.registry.Regular)
    (hdistinct : env.policy.Distinct) (hrs : rs ∈ env.policy.ruleSets) (hkind : rs.kind ≠ .function)
    (heval : ∀ n, env.evalDocument (env.idealTo n) rs = do return some (build (← rs.rules.foldlM (derive n) [])))
    (hsteps : List.Forall₂ (env.Adds answers σ key R derive) rs.rules founds)
    (h : env.Finds answers σ b (env.rules.document rs) v) :
    ∃ all, v = some (build all) ∧ Joins key R [] founds.flatten all := by
  obtain ⟨u, hu, hev⟩ := h.document hreg hdistinct hrs hkind
  have hfold : ∀ {n}, ((env.evalDocument (env.idealTo n) rs).run u).1 = .ok v →
      ∃ all, ((rs.rules.foldlM (derive n) []).run u).1 = .ok all ∧ some (build all) = v := by
    intro n hn
    rw [heval] at hn
    obtain ⟨all, hall, hbuilt⟩ := Eval.run_map_ok (Prod.ext hn rfl)
    exact ⟨all, congrArg Prod.fst hall, hbuilt⟩
  obtain ⟨n, hn⟩ := hev.exists
  obtain ⟨all, _, rfl⟩ := hfold hn
  refine ⟨all, rfl, joins_of_foldlM hsteps .nil hu (hev.mono fun m hm => ?_)⟩
  obtain ⟨all', hall', hsame⟩ := hfold hm
  rw [hall', hbuild (Option.some.inj hsame)]

/-! ### Comprehensions -/

/-- A computed value, if it is ground, is the first value of a search that hands on nothing else. -/
theorem Env.Finds.of_first {m : Eval β} {f : β → Term} (hground : m.Gives fun y => (f y).isGround = true)
    (h : env.Finds answers σ b (Search.first fun k => Search.after m fun y => k (f y)) x) :
    ∃ y, x = some (f y) ∧ env.Finds answers σ b m y := by
  obtain ⟨s, s₁, w, hremembers, hagrees, hbindings, hrun, hwithin⟩ := h
  rw [Search.first, Search.run_gather, Search.after] at hrun
  rcases hm : m.run s with ⟨e | y, s₂⟩ <;> rw [hm] at hrun
  · cases hrun
  · have hy : (f y).isGround = true := (hground s trivial).2 y (congrArg Prod.fst hm)
    simp only [Search.ground, Search.withBindings, Bindings.plug_of_isGround hy, hy, if_true, Search.accept,
      Except.map] at hrun
    cases hrun
    exact ⟨y, rfl, s, s₁, w, hremembers, hagrees, hbindings, hm, hwithin⟩

theorem Env.gives_comprehendSet (env : Env) (rules : RuleSemantics) (key : Term) (body : Body) :
    (Search.gather (env.comprehendSet rules key body) []).Gives fun members => (Term.set members).isGround = true := by
  refine Eval.Ensures.mono (p := fun members => ∀ t ∈ members, t.isGround = true) (.gather ?_ (List.forall_mem_nil _)) ?_
  · refine env.keeps_evalBody rules body (env.keeps_evalTerm rules key fun v => ?_)
    refine .ground (env.upholds_ground rules).plugs (fun t ht => .collect fun members hm => ?_) trivial
    exact Term.forall_insertMember hm ht
  · exact fun members => Term.hereditary_isGround.set.2

theorem Env.gives_comprehendObject (env : Env) (rules : RuleSemantics) (key value : Term) (body : Body) :
    (Search.gather (env.comprehendObject rules key value body) []).Gives
      fun fields => (Term.object fields).isGround = true := by
  refine Eval.Ensures.mono (p := fun fields => ∀ f ∈ fields, f.1.isGround = true ∧ f.2.isGround = true)
    (.gather ?_ (List.forall_mem_nil _)) ?_
  · refine env.keeps_evalBody rules body (env.keeps_evalTerm rules key fun k => env.keeps_evalTerm rules value fun v => ?_)
    exact .addUnique (env.upholds_ground rules).plugs trivial trivial (Eval.gives_anything _)
  · exact fun fields => Term.hereditary_isGround.object.2

theorem Env.Finds.of_setCompr {rules : RuleSemantics} {key : Term} {body : Body}
    (h : env.Finds answers σ b (Search.first (env.evalTerm rules (.setCompr key body))) x) :
    ∃ members, x = some (.set members) ∧
      env.Finds answers σ b (Search.gather (env.comprehendSet rules key body) []) members := by
  have heval : env.evalTerm (α := Option Term) rules (.setCompr key body) = fun k =>
      Search.after (Search.gather (env.comprehendSet rules key body) []) fun members => k (.set members) := by
    funext k
    simp only [evalTerm]
    rfl
  rw [heval] at h
  exact h.of_first (env.gives_comprehendSet rules key body)

theorem Env.Finds.of_objectCompr {rules : RuleSemantics} {key value : Term} {body : Body}
    (h : env.Finds answers σ b (Search.first (env.evalTerm rules (.objectCompr key value body))) x) :
    ∃ fields, x = some (.object fields) ∧
      env.Finds answers σ b (Search.gather (env.comprehendObject rules key value body) []) fields := by
  have heval : env.evalTerm (α := Option Term) rules (.objectCompr key value body) = fun k =>
      Search.after (Search.gather (env.comprehendObject rules key value body) []) fun fields => k (.object fields) := by
    funext k
    simp only [evalTerm]
    rfl
  rw [heval] at h
  exact h.of_first (env.gives_comprehendObject rules key value body)

end Finds

/-! ## Documents as unions -/

theorem exists_map_of_forall₂ {α γ δ : Type} {f : γ → δ} {S : α → γ → Prop} {as : List α} {xs : List δ}
    (h : List.Forall₂ (fun a x => ∃ c, x = f c ∧ S a c) as xs) : ∃ cs, xs = cs.map f ∧ List.Forall₂ S as cs := by
  induction h with
  | nil => exact ⟨[], rfl, .nil⟩
  | cons hfirst _ ih =>
    obtain ⟨c, rfl, hc⟩ := hfirst
    obtain ⟨cs, rfl, hcs⟩ := ih
    exact ⟨c :: cs, rfl, .cons hc hcs⟩

/-- The comprehension that a clause of a partial document stands for. -/
def Clause.comprehension? (c : Clause) : Option Term :=
  match c.head.key, c.head.value with
  | some key, some value => some (.objectCompr key value c.body)
  | some key, none => some (.setCompr key c.body)
  | none, _ => none

theorem Clause.comprehension?_of_partialSet {c : Clause} (h : c.head.kind = .partialSet) :
    ∃ key, c.head.key = some key ∧ c.comprehension? = some (.setCompr key c.body) := by
  rw [Head.kind] at h
  split at h
  · cases h
  · rw [comprehension?]
    cases hkey : c.head.key <;> cases hvalue : c.head.value <;> rw [hkey, hvalue] at h <;> cases h
    exact ⟨_, rfl, rfl⟩

theorem Clause.comprehension?_of_partialObject {c : Clause} (h : c.head.kind = .partialObject) :
    ∃ key, c.head.key = some key ∧ c.comprehension? = some (.objectCompr key c.value c.body) := by
  rw [Head.kind] at h
  split at h
  · cases h
  · rw [comprehension?, Clause.value]
    cases hkey : c.head.key <;> cases hvalue : c.head.value <;> rw [hkey, hvalue] at h <;> cases h
    exact ⟨_, rfl, rfl⟩

namespace Env

variable {env : Env} {rules : RuleSemantics} {answers : List BuiltinAnswer} {σ : Scope} {rs : RuleSet}

/-- Without indices all rules of a set are candidates. -/
theorem evalDocument_of_partialSet (hindexed : env.options.indexed = false) (hkind : rs.kind = .partialSet) :
    env.evalDocument rules rs = do return some (.set (← rs.rules.foldlM (env.deriveMembers rules rs) [])) := by
  simp only [evalDocument, hkind, candidates, hindexed, Bool.not_false, Bool.true_or, if_true, pure_bind]

theorem evalDocument_of_partialObject (hindexed : env.options.indexed = false) (hkind : rs.kind = .partialObject) :
    env.evalDocument rules rs = do return some (.object (← rs.rules.foldlM (env.deriveFields rules rs) [])) := by
  simp only [evalDocument, hkind, candidates, hindexed, Bool.not_false, Bool.true_or, if_true, pure_bind]

/-- The comprehension that a rule stands for comes to a value, with nothing bound. -/
def Comprehends (env : Env) (answers : List BuiltinAnswer) (σ : Scope) (rule : Rule) (x : Option Term) : Prop :=
  ∃ comprehension, rule.first.comprehension? = some comprehension ∧
    env.Finds answers σ {} (Search.first (env.evalTerm env.rules comprehension)) x

section Documents

variable {modules : List Module} {values : List (Option Term)}

theorem kind_of_rule (hcompile : Policy.compile modules = .ok env.policy) (hrs : rs ∈ env.policy.ruleSets) {rule : Rule}
    (hrule : rule ∈ rs.rules) : rule.first.head.kind = rs.kind :=
  (Policy.compile_eq_ok_iff.1 hcompile).2.1.kind_of_mem hrs hrule

/-- A document has what the comprehensions of its rules have, if each rule adds what its comprehension has. -/
theorem joins_of_comprehensions {γ : Type} {key : γ → Term} {R : γ → γ → Prop} {build : List γ → Term}
    {derive : Nat → List γ → Rule → Eval (List γ)} (hbuild : build.Injective) (hreg : env.registry.Regular)
    (hdistinct : env.policy.Distinct) (hrs : rs ∈ env.policy.ruleSets) (hkind : rs.kind ≠ .function)
    (heval : ∀ n, env.evalDocument (env.idealTo n) rs = do return some (build (← rs.rules.foldlM (derive n) [])))
    (hvalues : List.Forall₂ (env.Comprehends answers σ) rs.rules values)
    (hadds : ∀ rule ∈ rs.rules, ∀ x, env.Comprehends answers σ rule x →
      ∃ found, x = some (build found) ∧ env.Adds answers σ key R derive rule found) :
    ∃ founds : List (List γ), values = founds.map (fun found => some (build found)) ∧
      ∀ b v, env.Finds answers σ b (env.rules.document rs) v →
        ∃ all, v = some (build all) ∧ Joins key R [] founds.flatten all := by
  have hfound : List.Forall₂ (fun rule x => ∃ found, x = some (build found) ∧
      env.Adds answers σ key R derive rule found) rs.rules values := by
    refine ((List.forall₂_and_left _ _).2 ⟨fun _ hrule => hrule, hvalues⟩).imp ?_
    rintro rule x ⟨hrule, hx⟩
    exact hadds rule hrule x hx
  obtain ⟨founds, heq, hfounds⟩ := exists_map_of_forall₂ hfound
  exact ⟨founds, heq, fun b v hv => hv.joins hbuild hreg hdistinct hrs hkind heval hfounds⟩

variable (hcompile : Policy.compile modules = .ok env.policy)
  (hreg : env.registry.Regular) (hindexed : env.options.indexed = false) (hrs : rs ∈ env.policy.ruleSets)
  (hvalues : List.Forall₂ (env.Comprehends answers σ) rs.rules values)
include hcompile hreg hindexed hrs hvalues

/-- A partial set has the members of the comprehensions of its rules. -/
theorem members_of_comprehensions (hkind : rs.kind = .partialSet) : ∃ founds : List (List Term),
    values = founds.map (fun members => some (.set members)) ∧ ∀ b v, env.Finds answers σ b (env.rules.document rs) v →
      ∃ members, v = some (.set members) ∧ Joins id Term.Same [] founds.flatten members := by
  have hdistinct := Policy.distinct_of_compile hcompile
  refine joins_of_comprehensions (fun _ _ => Term.set.inj) hreg hdistinct hrs (by rw [hkind]; exact nofun)
    (fun n => evalDocument_of_partialSet hindexed hkind) hvalues ?_
  rintro rule hrule x ⟨comprehension, hcompr, hx⟩
  obtain ⟨key, hkey, hset⟩ := Clause.comprehension?_of_partialSet ((kind_of_rule hcompile hrs hrule).trans hkind)
  cases hcompr.symm.trans hset
  obtain ⟨members, rfl, hfound⟩ := hx.of_setCompr
  refine ⟨members, rfl, fun a u ha hu => ?_⟩
  simp only [deriveMembers_eq env _ rs hkey]
  exact hfound.derive (fun _ _ => Coupling.besideIdeal.simulates_memberSearch hreg hdistinct) (.refl _ ha) hu

/-- A partial object has the fields of the comprehensions of its rules. -/
theorem fields_of_comprehensions (hkind : rs.kind = .partialObject) : ∃ founds : List (List (Term × Term)),
    values = founds.map (fun fields => some (.object fields)) ∧ ∀ b v, env.Finds answers σ b (env.rules.document rs) v →
      ∃ fields, v = some (.object fields) ∧ Joins Prod.fst Term.SameField [] founds.flatten fields := by
  have hdistinct := Policy.distinct_of_compile hcompile
  refine joins_of_comprehensions (fun _ _ => Term.object.inj) hreg hdistinct hrs (by rw [hkind]; exact nofun)
    (fun n => evalDocument_of_partialObject hindexed hkind) hvalues ?_
  rintro rule hrule x ⟨comprehension, hcompr, hx⟩
  obtain ⟨key, hkey, hobject⟩ := Clause.comprehension?_of_partialObject ((kind_of_rule hcompile hrs hrule).trans hkind)
  cases hcompr.symm.trans hobject
  obtain ⟨fields, rfl, hfound⟩ := hx.of_objectCompr
  refine ⟨fields, rfl, fun a u ha hu => ?_⟩
  simp only [deriveFields_eq env _ rs hkey]
  exact hfound.derive (fun _ _ => Coupling.besideIdeal.simulates_fieldSearch hreg hdistinct) (.refl _ ha) hu

/-- Partial documents are the unions of the comprehensions of their rules: a set of what these collect, and an object of
the fields that they collect. There is no document where comprehensions have different values for a key. -/
theorem document_of_comprehensions :
    (rs.kind = .partialSet → ∃ founds : List (List Term), values = founds.map (fun members => some (.set members)) ∧
      ∀ b v, env.Finds answers σ b (env.rules.document rs) v →
        ∃ doc, v = some doc ∧ (doc == Term.setOf founds.flatten) = true) ∧
    (rs.kind = .partialObject → ∃ founds : List (List (Term × Term)),
      values = founds.map (fun fields => some (.object fields)) ∧
      (∀ b v, env.Finds answers σ b (env.rules.document rs) v →
        ∃ doc, v = some doc ∧ (doc == Term.objectOf founds.flatten) = true) ∧
      (¬ Term.Unambiguous founds.flatten → ∀ b v, ¬ env.Finds answers σ b (env.rules.document rs) v)) := by
  refine ⟨fun hkind => ?_, fun hkind => ?_⟩
  · obtain ⟨founds, heq, hdoc⟩ := members_of_comprehensions hcompile hreg hindexed hrs hvalues hkind
    refine ⟨founds, heq, fun b v hv => ?_⟩
    obtain ⟨members, rfl, hjoins⟩ := hdoc b v hv
    exact ⟨_, rfl, Term.set_beq_setOf hjoins⟩
  · obtain ⟨founds, heq, hdoc⟩ := fields_of_comprehensions hcompile hreg hindexed hrs hvalues hkind
    refine ⟨founds, heq, fun b v hv => ?_, fun hambiguous b v hv => ?_⟩
    · obtain ⟨fields, rfl, hjoins⟩ := hdoc b v hv
      exact ⟨_, rfl, Term.object_beq_objectOf hjoins⟩
    · obtain ⟨fields, rfl, hjoins⟩ := hdoc b v hv
      exact hambiguous (Term.unambiguous_of_joins hjoins)

end Documents

end Env

namespace Tags

/-- A rule of a partial document, with each tag on one side of the input for a key. -/
def tagging (name side : String) (value : Option Term) : Rule where
  first := { head :=
    { name := .var name, keys := [], key := some (.ref (.var "input") [.string side, .var "i"]), value := value } }

/-- A set, an object whose rules agree on a key that both of them have, and one whose rules do not. -/
def modules : List Module :=
  [⟨["t"], [tagging "all" "left" none, tagging "all" "right" none,
    tagging "index" "left" (some (.var "i")), tagging "index" "right" (some (.var "i")),
    tagging "side" "left" (some (.string "left")), tagging "side" "right" (some (.string "right"))]⟩]

def env : Env :=
  { policy := (Policy.compile modules).toOption.getD {}, registry := Registry.core, options := { indexed := false } }

theorem compile_modules : Policy.compile modules = .ok env.policy := Except.eq_ok_of_isOk (by decide +kernel) {}

def start : State where
  scope := { input := some (.object [(.string "left", .array [.string "a", .string "b"]),
    (.string "right", .array [.string "c", .string "b"])]) }
  clock := { step := 1 }

def all : RuleSet := env.policy.ruleSets.get ⟨0, by decide +kernel⟩
def index : RuleSet := env.policy.ruleSets.get ⟨1, by decide +kernel⟩
def side : RuleSet := env.policy.ruleSets.get ⟨2, by decide +kernel⟩

/-- The run of the comprehension that a rule stands for. -/
def comprehended (rule : Rule) : Except EvalError (Option Term) × State :=
  (Search.first (env.evalTerm env.rules (rule.first.comprehension?.getD .null))).run start

def value (rule : Rule) : Option Term := (comprehended rule).1.toOption.getD none

theorem finds_start {m : Eval (Option Term)} (hok : (m.run start).1.isOk = true)
    (hanswers : (m.run start).2.answers.isEmpty = true) :
    env.Finds [] start.scope {} m ((m.run start).1.toOption.getD none) :=
  Env.finds_of_run rfl (Nat.le_refl 0) (Prod.ext (Except.eq_ok_of_isOk hok none) rfl)
    (List.isEmpty_iff.1 hanswers ▸ .refl [])

theorem comprehends_value {rules : List Rule} (hcompr : rules.all (fun rule => rule.first.comprehension?.isSome) = true)
    (hok : rules.all (fun rule => (comprehended rule).1.isOk) = true)
    (hanswers : rules.all (fun rule => (comprehended rule).2.answers.isEmpty) = true) :
    List.Forall₂ (env.Comprehends [] start.scope) rules (rules.map value) := by
  refine List.forall₂_map_right_iff.2 (List.forall₂_same.2 fun rule hrule => ?_)
  obtain ⟨comprehension, h⟩ := Option.isSome_iff_exists.1 (List.all_eq_true.1 hcompr rule hrule)
  have hfinds := finds_start (List.all_eq_true.1 hok rule hrule) (List.all_eq_true.1 hanswers rule hrule)
  rw [h] at hfinds
  refine ⟨comprehension, h, ?_⟩
  rw [value, comprehended, h]
  exact hfinds

theorem comprehends_all : List.Forall₂ (env.Comprehends [] start.scope) all.rules (all.rules.map value) :=
  comprehends_value (by decide +kernel) (by decide +kernel) (by decide +kernel)

theorem comprehends_index : List.Forall₂ (env.Comprehends [] start.scope) index.rules (index.rules.map value) :=
  comprehends_value (by decide +kernel) (by decide +kernel) (by decide +kernel)

theorem comprehends_side : List.Forall₂ (env.Comprehends [] start.scope) side.rules (side.rules.map value) :=
  comprehends_value (by decide +kernel) (by decide +kernel) (by decide +kernel)

def members : Option Term → List Term
  | some (.set members) => members
  | _ => []

def fields : Option Term → List (Term × Term)
  | some (.object fields) => fields
  | _ => []

theorem flatMap_members {values : List (Option Term)} {founds : List (List Term)}
    (h : values = founds.map fun members => some (.set members)) : values.flatMap members = founds.flatten := by
  rw [h, List.flatMap_map]
  exact List.flatMap_id

theorem flatMap_fields {values : List (Option Term)} {founds : List (List (Term × Term))}
    (h : values = founds.map fun fields => some (.object fields)) : values.flatMap fields = founds.flatten := by
  rw [h, List.flatMap_map]
  exact List.flatMap_id

/-- The set has the tags of both sides, the object has their places, and there is no object of the sides, as one of the
tags is on both. -/
theorem document_tags :
    (∃ doc, env.Finds [] start.scope {} (env.rules.document all) (some doc) ∧
      (doc == .set [.string "a", .string "b", .string "c"]) = true) ∧
    (∃ doc, env.Finds [] start.scope {} (env.rules.document index) (some doc) ∧
      (doc == .object [(.string "a", .number 0), (.string "b", .number 1), (.string "c", .number 0)]) = true) ∧
    List.Forall₂ (env.Comprehends [] start.scope) side.rules (side.rules.map value) ∧
      ∀ b v, ¬ env.Finds [] start.scope b (env.rules.document side) v := by
  refine ⟨?_, ?_, comprehends_side, ?_⟩
  · obtain ⟨founds, hfounds, hdoc⟩ := (Env.document_of_comprehensions compile_modules (Registry.regular_core _) rfl
      (List.get_mem _ _) comprehends_all).1 (by decide +kernel)
    have hfinds : env.Finds [] start.scope {} (env.rules.document all) _ := finds_start (by decide +kernel) (by decide +kernel)
    obtain ⟨doc, heq, hset⟩ := hdoc {} _ hfinds
    rw [heq] at hfinds
    rw [← flatMap_members hfounds] at hset
    exact ⟨doc, hfinds, Term.beq_trans hset (by decide +kernel)⟩
  · obtain ⟨founds, hfounds, hdoc, -⟩ := (Env.document_of_comprehensions compile_modules (Registry.regular_core _) rfl
      (List.get_mem _ _) comprehends_index).2 (by decide +kernel)
    have hfinds : env.Finds [] start.scope {} (env.rules.document index) _ :=
      finds_start (by decide +kernel) (by decide +kernel)
    obtain ⟨doc, heq, hobject⟩ := hdoc {} _ hfinds
    rw [heq] at hfinds
    rw [← flatMap_fields hfounds] at hobject
    exact ⟨doc, hfinds, Term.beq_trans hobject (by decide +kernel)⟩
  · obtain ⟨founds, hfounds, -, hnone⟩ := (Env.document_of_comprehensions compile_modules (Registry.regular_core _) rfl
      (List.get_mem _ _) comprehends_side).2 (by decide +kernel)
    exact hnone (flatMap_fields hfounds ▸ by decide +kernel)

end Tags

end PolicyEngine
