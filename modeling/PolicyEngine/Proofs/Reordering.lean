import PolicyEngine.Proofs.Declarations
import PolicyEngine.Proofs.Derivation
import PolicyEngine.Proofs.Indexing
import PolicyEngine.Proofs.Queries
import PolicyEngine.Proofs.Standing

/-!
The order in which the rules of a document are declared. What the rules of a document come to in one order they come to
in every other, unless a rule set is refused because it is in progress already.
-/
namespace PolicyEngine

/-! ## A rule set in the place of another -/

namespace RuleSet

/-- Puts a rule set in the place of one with its path and kind. Functions are left in place. -/
def inPlace (new rs : RuleSet) : RuleSet :=
  if rs.path = new.path ∧ rs.kind = new.kind ∧ rs.kind ≠ .function then new else rs

variable {new rs : RuleSet}

theorem stands_id : Stands id := ⟨fun _ => rfl, fun _ => rfl, fun _ _ => rfl⟩

theorem inPlace_of_path_ne (h : rs.path ≠ new.path) : new.inPlace rs = rs := by
  rw [inPlace, if_neg fun hsame => h hsame.1]

theorem Reorders.inPlace (h : rs.Reorders new) (hkind : rs.kind ≠ .function) : new.inPlace rs = new := by
  rw [RuleSet.inPlace, if_pos ⟨h.path.symm, h.kind.symm, hkind⟩]

end RuleSet

section Reordered

variable {path : DataPath} {policy policy' : Policy}

/-- A policy with the rules of a document in another order is the policy with another rule set in one place. -/
theorem Policy.Reorders.standing (h : policy.Reorders path policy') (hdistinct : policy'.Distinct) {rs' : RuleSet}
    (hrs' : rs' ∈ policy'.ruleSets) (hpath : rs'.path = path) (hkind : rs'.kind ≠ .function) :
    policy.standing rs'.inPlace = policy' := by
  obtain ⟨sets⟩ := policy
  obtain ⟨sets'⟩ := policy'
  rw [Policy.standing, Policy.mk.injEq]
  have hplace : ∀ rs new, new ∈ sets' → rs.Reorders new ∧ (rs.path ≠ path → new = rs) → rs'.inPlace rs = new := by
    rintro rs new hnew ⟨hreorders, hsame⟩
    by_cases hrs : rs.path = path
    · obtain rfl : new = rs' := hdistinct rs' hrs' new hnew (hreorders.path.trans (hrs.trans hpath.symm))
      exact hreorders.inPlace (hreorders.kind ▸ hkind)
    · rw [hsame hrs, RuleSet.inPlace_of_path_ne (hpath ▸ hrs)]
  clear hdistinct hrs'
  simp only [Policy.Reorders] at h
  induction h with
  | nil => rfl
  | cons hfirst _ ih =>
    rw [List.map_cons, hplace _ _ List.mem_cons_self hfirst]
    exact congrArg _ (ih fun rs new hnew => hplace rs new (List.mem_cons_of_mem _ hnew))

theorem Policy.Reorders.ruleSet? (h : policy.Reorders path policy') {rs : RuleSet}
    (hrs : policy.ruleSet? path = some rs) : ∃ rs', policy'.ruleSet? path = some rs' ∧ rs.Reorders rs' := by
  obtain ⟨sets⟩ := policy
  obtain ⟨sets'⟩ := policy'
  simp only [Policy.Reorders] at h
  induction h with
  | nil => cases hrs
  | @cons first first' _ _ hfirst _ ih =>
    rw [ruleSet?_cons] at hrs ⊢
    rw [hfirst.1.path]
    split at hrs
    · next hpath =>
      cases hrs
      exact ⟨first', if_pos hpath, hfirst.1⟩
    · next hpath =>
      rw [if_neg hpath]
      exact ih hrs

theorem Policy.Reorders.length (h : policy.Reorders path policy') :
    policy'.ruleSets.length = policy.ruleSets.length :=
  (List.Forall₂.length_eq h).symm

end Reordered

theorem Policy.covering?_of_ruleSet? {policy : Policy} {path : DataPath} {rs : RuleSet}
    (h : policy.ruleSet? path = some rs) : policy.covering? path = some rs := by
  rw [covering?]
  cases hlength : path.length with
  | zero =>
    rw [List.length_eq_zero_iff] at hlength
    rw [coveringUpTo, ← hlength, h]
  | succ n =>
    rw [coveringUpTo, ← hlength, List.take_length, h]
    rfl

/-! ## The document at a path -/

namespace Env

variable {env : Env} {path : DataPath} {rs : RuleSet} {s : State} {stand : RuleSet → RuleSet}

/-- The document at the path of a rule set is the one that its selected rules derive. -/
theorem run_document_via (hstands : RuleSet.Stands stand) (hrs : env.policy.ruleSet? path = some rs)
    (hkind : rs.kind ≠ .function) (hfailing : env.failing = []) (hdata : s.scope.data = [])
    (hroot : env.root.fits = true) (hinput : ∀ t, s.scope.input = some t → t.fits = true) (hmemo : s.memo = [])
    (hprogress : s.inProgress = []) (hdepth : s.depth < env.options.maxDepth) (n : Nat) :
    ∃ t, (s.entered rs.name).Quiet t ∧ ((env.document (env.rulesVia stand (n + 1)) path).run s).1 =
      ((Coupling.documentFrom env (env.rulesVia stand n) (stand rs)
        ((stand rs).rules.filter (env.selects s.scope.input))).run t).1 := by
  have hpath := (Policy.mem_of_ruleSet? hrs).2
  have hname : (stand rs).name = rs.name := congrArg DataPath.name (hstands.path rs)
  have hnew : s.remembered? (stand rs).path = none := by simp [State.remembered?, hmemo]
  obtain ⟨t, hcandidates, hquiet⟩ := run_candidates (env.rulesVia stand n) hfailing (stand rs) (s := s.entered rs.name)
    hdata hroot hinput
  refine ⟨t, hquiet, ?_⟩
  have hdocument : ((env.evalDocument (env.rulesVia stand n) (stand rs)).run (s.entered rs.name)).1 =
      ((Coupling.documentFrom env (env.rulesVia stand n) (stand rs)
        ((stand rs).rules.filter (env.selects s.scope.input))).run t).1 := by
    rw [Coupling.evalDocument_eq env _ (hstands.kind rs ▸ hkind), Eval.run_bind, hcandidates]
    rfl
  rw [run_document_plain _ _ _ hdata, run_baseDocument_covered _ _ (Policy.covering?_of_ruleSet? hrs), ← hdocument,
    rulesVia]
  simp only [RuleSet.run_recalling, hstands.kind, if_neg hkind, hnew, run_entering, hprogress, List.contains_nil,
    Bool.false_eq_true, if_false, Nat.not_le.2 hdepth, Eval.run_inside, hname, hpath, List.drop_length]
  rcases (env.evalDocument (env.rulesVia stand n) (stand rs)).run (s.entered rs.name) with ⟨e | v, t₁⟩
  · rfl
  · cases v <;> rfl

end Env

/-! ## Rule sets with the same head -/

namespace RuleSet.Reorders

variable {rs rs' : RuleSet} (h : rs.Reorders rs') (env : Env) (rules : RuleSemantics)
include h

theorem name : rs'.name = rs.name := congrArg DataPath.name h.path

theorem valueConflict : Env.valueConflict rs' = Env.valueConflict rs := by
  funext first second
  simp only [Env.valueConflict, h.name, h.kind]

theorem evalClause (args : Option (List Term)) (clause : Clause) :
    env.evalClause rules rs' args clause = env.evalClause rules rs args clause := by
  have haccept : Env.acceptValue rs' = Env.acceptValue rs := by
    funext value found
    simp only [Env.acceptValue, h.valueConflict]
  simp only [Env.evalClause, h.name, haccept]

theorem evalChain (args : Option (List Term)) (clauses : List Clause) :
    env.evalChain rules rs' args clauses = env.evalChain rules rs args clauses := by
  induction clauses with
  | nil => rfl
  | cons clause rest ih => simp only [Env.evalChain, h.evalClause, ih]

theorem evalAgreeing (args : Option (List Term)) (keep : Term → Term → Term) (ruleList : List Rule)
    (found : Option Term) :
    env.evalAgreeing rules rs' args keep ruleList found = env.evalAgreeing rules rs args keep ruleList found := by
  induction ruleList generalizing found with
  | nil => rfl
  | cons rule rest ih => simp only [Env.evalAgreeing, h.evalChain, h.valueConflict, ih]

/-- What rules derive depends on nothing of their rule set but its path, kind and default. -/
theorem documentFrom (ruleList : List Rule) :
    Coupling.documentFrom env rules rs' ruleList = Coupling.documentFrom env rules rs ruleList := by
  have hmembers : env.deriveMembers rules rs' = env.deriveMembers rules rs := by
    funext members rule
    simp only [Env.deriveMembers, h.name]
  have hfields : env.deriveFields rules rs' = env.deriveFields rules rs := by
    funext fields rule
    simp only [Env.deriveFields, h.name]
  simp only [Coupling.documentFrom, h.kind, h.default, h.evalAgreeing, h.evalClause, hmembers, hfields]

end RuleSet.Reorders

/-! ## From one order to another -/

section Part

variable {env : Env} {f : String → List Term → Option (Option Term)} {path : DataPath} {rs : RuleSet} {s t : State}

/-- A state in which the rules of a document are about to be evaluated. -/
structure State.Begins (env : Env) (f : String → List Term → Option (Option Term)) (s : State) : Prop
    extends s.Fresh env f where
  data : s.scope.data = []
  scope : s.scope.id ≤ s.lastScope
  input : ∀ t, s.scope.input = some t → t.fits = true

/-- The rules of a document that derived it from the start derive it with ideal rules. -/
theorem State.Begins.comes (hreg : env.registry.Regular) (hf : env.Settled f) (hdistinct : env.policy.Distinct)
    (hs : s.Begins env f) (hrs : rs ∈ env.policy.ruleSets) (ht : (s.entered rs.name).Quiet t) {n : Nat}
    {ruleList : List Rule} (hlist : ∀ r ∈ ruleList, r ∈ rs.rules) {v : Option Term}
    (hrun : ((Coupling.documentFrom env (env.rulesTo n) rs ruleList).run t).1 = .ok v) :
    env.Comes f s.scope {} (fun n => Coupling.documentFrom env (env.idealTo n) rs ruleList) v := by
  have hideal : ∀ answers, Coupling.RulesAnswer (Pairing.toIdeal env answers).coupling (env.rulesTo n) env.idealTo :=
    fun _ => Pairing.toIdeal.rulesAnswer_rulesTo hdistinct hreg n
  have hcomputes : ∀ answers w, (Pairing.toIdeal env answers).coupling.Computes w (rs ∈ env.policy.ruleSets)
      (Both (IfSome (Term.VarsIn Vocabulary.any.names))) (Coupling.documentFrom env (env.rulesTo n) rs ruleList)
      fun n => Coupling.documentFrom env (env.idealTo n) rs ruleList := fun answers w =>
    Coupling.computes_documentFrom (Pairing.toIdeal.lawful hreg).coupling (hideal answers)
      rs ((Pairing.toIdeal.lawful hreg).policyProper rs) fun _ => hlist
  have hframing : ∀ c, (Coupling.framing env (BuiltinAnswer.From f)).Computes c (rs ∈ env.policy.ruleSets)
      (Both (IfSome (Term.VarsIn Vocabulary.any.names))) (Coupling.documentFrom env (env.rulesTo n) rs ruleList)
      fun _ => Coupling.documentFrom env (env.rulesTo n) rs ruleList := fun c =>
    Coupling.computes_documentFrom hf.framing (Coupling.framing.rulesAnswer hf.framing n)
      rs (fun _ => Coupling.framing.proper rs) fun _ => hlist
  have hcalm : (s.entered rs.name).Calm env := ⟨hs.calm.1, hs.calm.2⟩
  have hcomes := Env.comes_of_run hcomputes hframing hrs (hcalm.quiet ht) (by rw [ht.eq]; exact hs.memo)
    (by rw [ht.eq]; exact hs.scope) (ht.answers ▸ hs.answered) (Prod.ext hrun rfl)
  rw [ht.eq] at hcomes
  exact hcomes

/-- An evaluation that remembers documents is ready for the rules of a document, which is busy then. -/
theorem State.Begins.ready (hs : s.Begins env f) (hrs : rs ∈ env.policy.ruleSets)
    (ht : (s.entered rs.name).Quiet t) : ∃ w, t.Ready env f [rs.name] w s.scope {} := by
  have hnested : (s.entered rs.name).Nested env.policy :=
    (State.nested_of_empty hs.inProgress hs.depth).entered hrs (by rw [hs.inProgress]; exact List.not_mem_nil)
  have hmindful : (s.entered rs.name).Mindful env f [rs.name] _ :=
    ⟨⟨hs.calm.1, hs.calm.2⟩, hs.answered, hnested, fun name hname => List.mem_append_right _ hname,
      .of_empty _ _ hs.memo hs.scope⟩
  exact ⟨_, State.Ready.quiet ⟨hmindful, .refl _, rfl⟩ ht⟩

variable {policy' : Policy} {v : Option Term}

end Part

/-! ## Engines -/

/-- An engine whose evaluations depend on nothing but its modules, input and store: its built-ins are regular and those
that are not deterministic answer by a fixed function, nothing ends an evaluation from outside, the store answers, every
array of its documents can be addressed, and rule sets may be nested as deep as there are. -/
structure Engine.SelfContained (f : String → List Term → Option (Option Term)) (e : Engine) : Prop where
  unlimited : e.Unlimited
  regular : e.registry.Regular
  settled : ∀ policy txn, (e.env policy txn).Settled f
  inMemory : e.store.failing = []
  root : e.store.root.fits = true
  input : ∀ t, e.input = some t → t.fits = true
  depth : ∀ policy, Policy.compile e.modules = .ok policy → policy.ruleSets.length ≤ e.options.maxDepth

/-- An engine that differs from another in the order of the rules of a document. -/
structure Engine.Reorders (path : DataPath) (e e' : Engine) : Prop where
  modules : Module.Reorders path e.modules e'.modules
  same : e' = { e with modules := e'.modules, policy := e'.policy, generation := e'.generation }

namespace Engine

variable {e e' : Engine} {f : String → List Term → Option (Option Term)} {path : DataPath} {name : String}

/-- What an evaluation of an engine is against, and where it starts. -/
def snapshot (policy : Policy) (e : Engine) : Env :=
  { e with store := e.store.beginRead.2 }.env policy e.store.beginRead.1

theorem evalRule_result (hname : DataPath.parse? name = some path) (hcompiled : e.Compiled) {policy : Policy}
    (hpolicy : Policy.compile e.modules = .ok policy) :
    (e.evalRule name).1.result = (e.snapshot policy).readAt path e.start := by
  rw [evalRule, hname]
  exact e.run_compiled hcompiled hpolicy _ _

theorem SelfContained.begins (h : e.SelfContained f) (policy : Policy) :
    e.start.Begins (e.snapshot policy) f :=
  ⟨⟨h.unlimited.calm_start policy _ _, rfl, rfl, rfl, nofun⟩, rfl, Nat.le_refl 0, h.input⟩

theorem Reorders.symm (h : e.Reorders path e') : e'.Reorders path e := by
  refine ⟨h.modules.symm, ?_⟩
  rw [h.same]

theorem Reorders.start (h : e.Reorders path e') : e'.start = e.start := by
  rw [h.same]
  rfl

theorem Reorders.snapshot (h : e.Reorders path e') (policy policy' : Policy) :
    e'.snapshot policy' = { e.snapshot policy with policy := policy' } := by
  rw [h.same]
  rfl

end Engine

namespace Exchanged

/-- The time of day, which an evaluation is given at its start. -/
def now : Builtin := { Builtin.ofContextual "time.now_ns" [] .number Builtin.nowNs with deterministic := false }

/-- An engine with rules in one package and the time of day. -/
def engine (ruleList : List Rule) (input : Term) : Engine where
  modules := [⟨["t"], ruleList⟩]
  input := some input
  registry := ⟨[now]⟩
  clock := { step := 1 }
  time := 7

/-- What the time of day is whenever it is asked for. -/
def answer (_ : String) (_ : List Term) : Option (Option Term) := some (some (Term.ofInt 7))

/-- A rule for members of a set. -/
def member (key : Term) : Rule where
  first := { head := { name := .var "s", keys := [], key := some key } }

/-- A document holds if another one does. -/
def follows (name : String) : Rule := Hidden.holds "q" [Hidden.asks [.string "t", .string name] []]

def stop : Term := .object [(.string "stop", .number 1)]

end Exchanged

end PolicyEngine
