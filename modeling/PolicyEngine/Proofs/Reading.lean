import PolicyEngine.Proofs.Layout
import PolicyEngine.Proofs.Recollection
import PolicyEngine.Proofs.Retention

/-!
Reading a document as a whole and reading it key by key. Where no rule has to do with a key the two give the same.
A rule set without a value hides what is stored at its path from the one who reads there, and leaves it in place for
the one who reads the document around it; and above rule sets there is always an object.
-/
namespace PolicyEngine

/-! ## Documents without overrides -/

namespace Env

variable (env : Env) (rules : RuleSemantics) {path : DataPath} {rs : RuleSet} {s : State}

theorem run_document_plain (path : DataPath) (h : s.scope.data = []) :
    (env.document rules path).run s = (env.baseDocument rules path).run s := by
  simp only [document, Eval.run_bind, Eval.run_get, h, Scope.covering?, Scope.below, List.filter_nil, layOverrides]
  rcases (env.baseDocument rules path).run s with ⟨_ | _, _⟩ <;> rfl

/-- At or below a rule set its document is read. -/
theorem run_baseDocument_covered (h : env.policy.covering? path = some rs) :
    (env.baseDocument rules path).run s =
      match (rules.document rs).run s with
      | (.ok v, s) => (.ok (v.bind fun doc => doc.lookupKeys (path.drop rs.path.length)), s)
      | (.error e, s) => (.error e, s) := by
  simp only [baseDocument, h, Eval.run_bind]
  rcases (rules.document rs).run s with ⟨_ | _, _⟩ <;> rfl

/-- The state after a base document was read. -/
def reading (path : DataPath) (s : State) : State :=
  { s with requests := s.requests.push ("read " ++ (StorePath.ofKeys path).text) }

theorem quiet_reading (path : DataPath) (s : State) : s.Quiet (reading path s) := ⟨rfl, rfl, rfl⟩

theorem run_read_unfailing (hfailing : env.failing = []) (path : StorePath) (s : State) :
    (env.read path).run s = (.ok (env.root.at? path), { s with requests := s.requests.push ("read " ++ path.text) }) := by
  rw [run_read, hfailing]
  rfl

theorem run_read_ofKeys (hfailing : env.failing = []) (path : DataPath) (s : State) :
    (env.read (StorePath.ofKeys path)).run s = (.ok (env.root.at? (StorePath.ofKeys path)), reading path s) :=
  env.run_read_unfailing hfailing _ s

/-- Where there are no rules the store is read. -/
theorem run_baseDocument_stored (hfailing : env.failing = []) (h : env.policy.covering? path = none)
    (hbelow : env.policy.below path = []) :
    (env.baseDocument rules path).run s = (.ok (env.root.at? (StorePath.ofKeys path)), reading path s) := by
  simp only [baseDocument, h, Eval.run_bind, env.run_read_ofKeys hfailing, hbelow]
  rfl

/-- Above rule sets their documents are laid over what is stored, if that is an object. -/
theorem run_baseDocument_laid (hfailing : env.failing = []) (h : env.policy.covering? path = none)
    (hbelow : env.policy.below path ≠ []) :
    (env.baseDocument rules path).run s =
      match (layRules rules path (env.policy.below path)
        (Term.orEmpty (env.root.at? (StorePath.ofKeys path)))).run (reading path s) with
      | (.ok doc, s) => (.ok (some doc), s)
      | (.error e, s) => (.error e, s) := by
  have hlaid : (env.baseDocument rules path).run s =
      (do return some (← layRules rules path (env.policy.below path)
        (Term.orEmpty (env.root.at? (StorePath.ofKeys path)))) : Eval (Option Term)).run (reading path s) := by
    rw [baseDocument, h]
    simp only [Eval.run_bind, env.run_read_ofKeys hfailing]
    cases hsets : env.policy.below path with
    | nil => exact absurd hsets hbelow
    | cons first rest =>
      cases env.root.at? (StorePath.ofKeys path) with
      | none => rfl
      | some t => cases t <;> rfl
  rw [hlaid, Eval.run_bind]
  rcases (layRules rules path (env.policy.below path)
    (Term.orEmpty (env.root.at? (StorePath.ofKeys path)))).run (reading path s) with ⟨_ | _, _⟩ <;> rfl

end Env

/-! ## Documents that are laid -/

/-- The documents of rule sets, each at its path below another. -/
def laidAt (path : DataPath) (entries : List (RuleSet × Option Term)) : List (List String × Option Term) :=
  entries.map fun e => (e.1.path.drop path.length, e.2)

/-- Functions have no documents. -/
def RuleSet.hasDocument (rs : RuleSet) : Bool := rs.kind ≠ .function

theorem run_setIn (value doc : Term) (path : List String) (s : State) :
    (setIn value doc path).run s = ((Term.setPath value doc path).mapError fun e => .internal (.unsettable e), s) := rfl

namespace Env

variable {env : Env} {rules : RuleSemantics} {path : DataPath} {rs : RuleSet} {sets : List RuleSet} {doc doc' : Term}
  {s s₁ : State}

/-- Documents of rule sets, one for each that has one. -/
structure Documents (known : RuleSet → Option Term → Prop) (sets : List RuleSet)
    (entries : List (RuleSet × Option Term)) : Prop where
  sets : entries.map Prod.fst = sets.filter RuleSet.hasDocument
  known : ∀ e ∈ entries, known e.1 e.2

theorem Documents.skip {known : RuleSet → Option Term → Prop} {entries : List (RuleSet × Option Term)}
    (h : Documents known sets entries) (hkind : rs.hasDocument = false) : Documents known (rs :: sets) entries := by
  refine ⟨?_, h.known⟩
  rw [h.sets, List.filter_cons, hkind]
  rfl

theorem Documents.cons {known : RuleSet → Option Term → Prop} {entries : List (RuleSet × Option Term)}
    (h : Documents known sets entries) (hkind : rs.hasDocument = true) {v : Option Term} (hv : known rs v) :
    Documents known (rs :: sets) ((rs, v) :: entries) := by
  refine ⟨?_, List.forall_mem_cons.2 ⟨hv, h.known⟩⟩
  rw [List.map_cons, h.sets, List.filter_cons, hkind]
  rfl

theorem Documents.skipped {known : RuleSet → Option Term → Prop} {entries : List (RuleSet × Option Term)}
    (h : Documents known (rs :: sets) entries) (hkind : rs.hasDocument = false) : Documents known sets entries := by
  refine ⟨?_, h.known⟩
  rw [h.sets, List.filter_cons, hkind]
  rfl

theorem Documents.uncons {known : RuleSet → Option Term → Prop} {entries : List (RuleSet × Option Term)}
    (h : Documents known (rs :: sets) entries) (hkind : rs.hasDocument = true) :
    ∃ v rest, entries = (rs, v) :: rest ∧ known rs v ∧ Documents known sets rest := by
  have hsets := h.sets
  rw [List.filter_cons, hkind, if_pos rfl] at hsets
  obtain ⟨⟨rs', v⟩, rest, rfl, hrs', hrest⟩ := List.map_eq_cons_iff.1 hsets
  obtain rfl : rs' = rs := hrs'
  obtain ⟨hv, hknown⟩ := List.forall_mem_cons.1 h.known
  exact ⟨v, rest, rfl, hv, hrest, hknown⟩

/-- What is read at a path without overrides, given the documents of rule sets. -/
inductive Reads (env : Env) (known : RuleSet → Option Term → Prop) (path : DataPath) : Option Term → Prop
  | within {rs : RuleSet} {v : Option Term} (hcovering : env.policy.covering? path = some rs) (hv : known rs v) :
    Reads env known path (v.bind fun doc => doc.lookupKeys (path.drop rs.path.length))
  | stored (hcovering : env.policy.covering? path = none) (hbelow : env.policy.below path = []) :
    Reads env known path (env.root.at? (StorePath.ofKeys path))
  | above {entries : List (RuleSet × Option Term)} {doc : Term} (hcovering : env.policy.covering? path = none)
    (hbelow : env.policy.below path ≠ []) (hdocs : Documents known (env.policy.below path) entries)
    (hlay : Term.layOver (laidAt path entries) (some (Term.orEmpty (env.root.at? (StorePath.ofKeys path)))) =
      .ok (some doc)) :
    Reads env known path (some doc)

variable {v : Option Term}

end Env

/-! ## Reading under a key -/

theorem Term.lookupKeys_append (t : Term) (path rest : List String) :
    t.lookupKeys (path ++ rest) = (t.lookupKeys path).bind (·.lookupKeys rest) := by
  induction path generalizing t with
  | nil => rfl
  | cons key path ih =>
    rw [List.cons_append, lookupKeys, lookupKeys, Option.bind_assoc]
    exact Option.bind_congr fun u _ => ih u

theorem StorePath.ofKeys_snoc (path : DataPath) (key : String) :
    ofKeys (path ++ [key]) = ofKeys path ++ [.key key] := List.map_append

theorem Term.at?_snoc (t : Term) (path : StorePath) (segment : PathSegment) :
    t.at? (path ++ [segment]) = (t.at? path).bind (·.child? segment) := by
  induction path generalizing t with
  | nil => exact Option.bind_fun_some (t.child? segment)
  | cons first rest ih =>
    simp only [List.cons_append, at?, Option.bind_assoc]
    exact congrArg _ (funext ih)

/-- What is laid below a key of a path is what is laid at the longer path. -/
theorem under_laidAt (path : DataPath) (key : String) {entries : List (RuleSet × Option Term)}
    (hpaths : ∀ e ∈ entries, path <+: e.1.path) :
    Term.under key (laidAt path entries) =
      laidAt (path ++ [key]) (entries.filter fun e => (path ++ [key]).isPrefixOf e.1.path) := by
  induction entries with
  | nil => rfl
  | cons e rest ih =>
    rw [List.forall_mem_cons] at hpaths
    obtain ⟨⟨keys, hkeys⟩, hrest⟩ := hpaths
    have hdrop : e.1.path.drop path.length = keys := by rw [← hkeys, List.drop_left]
    have hrest := ih hrest
    simp only [Term.under, laidAt] at hrest
    simp only [Term.under, laidAt, List.map_cons, List.filterMap_cons, hdrop, List.filter_cons, hrest]
    rw [← hkeys]
    cases keys with
    | nil =>
      have hnot : ¬ ((path ++ [key]).isPrefixOf (path ++ [])) = true := by
        rw [List.isPrefixOf_iff_prefix, List.prefix_append_right_inj]
        exact fun h => absurd h.length_le (Nat.not_succ_le_zero 0)
      rw [if_neg hnot]
    | cons k keys =>
      have hbegins : ((path ++ [key]).isPrefixOf (path ++ k :: keys)) = true ↔ k = key := by
        rw [List.isPrefixOf_iff_prefix, List.prefix_append_right_inj, List.cons_prefix_cons]
        exact ⟨fun h => h.1.symm, fun h => ⟨h.symm, List.nil_prefix⟩⟩
      by_cases hk : k = key
      · have hlater : (path ++ k :: keys).drop (path ++ [key]).length = keys := by
          rw [List.length_append, List.drop_length_add_append]
          rfl
        rw [if_pos (hbegins.2 hk), List.map_cons, ← hkeys, hlater]
        simp only [if_pos hk]
      · rw [if_neg (fun h => hk (hbegins.1 h))]
        simp only [if_neg hk]

namespace Env

/-- What is read at a key below an object that was read: what the object has under the key. But above rule sets there
is always an object; and at a rule set without a document there is nothing, although the object has what is stored
under the key. -/
inductive ReadsUnder (env : Env) (path : DataPath) (key : String) (fields : List (Term × Term)) : Option Term → Prop
  | same (hbelow : env.policy.below (path ++ [key]) = []) :
    ReadsUnder env path key fields (Term.findField? (.string key) fields)
  | above (hbelow : env.policy.below (path ++ [key]) ≠ []) :
    ReadsUnder env path key fields (some (Term.orEmpty (Term.findField? (.string key) fields)))
  | hidden (hset : (env.policy.ruleSet? (path ++ [key])).isSome)
    (hstored : Term.findField? (.string key) fields =
      (Term.orEmpty (env.root.at? (StorePath.ofKeys path))).lookup (.string key)) :
    ReadsUnder env path key fields none

variable {env : Env} {known : RuleSet → Option Term → Prop} {path : DataPath} {key : String} {rs : RuleSet}
  {fields : List (Term × Term)} {entries : List (RuleSet × Option Term)}

theorem Documents.filter (h : Documents known (env.policy.below path) entries) (q : RuleSet → Bool) :
    Documents known ((env.policy.below path).filter q) (entries.filter fun e => q e.1) := by
  refine ⟨?_, fun e he => h.known e (List.mem_filter.1 he).1⟩
  rw [List.filter_filter]
  calc (entries.filter fun e => q e.1).map Prod.fst
      = (entries.map Prod.fst).filter q := by rw [List.filter_map]; rfl
    _ = _ := by
      rw [h.sets, List.filter_filter]
      simp only [Bool.and_comm]

theorem Documents.below (hord : Policy.Ordered env.policy.ruleSets) (h : Documents known (env.policy.below path) entries) :
    ∀ e ∈ entries, path <+: e.1.path ∧ e.1.path ≠ path := by
  intro e he
  have hin : e.1 ∈ (env.policy.below path).filter RuleSet.hasDocument := h.sets ▸ List.mem_map_of_mem he
  exact ((Policy.mem_below_iff hord).1 (List.mem_filter.1 hin).1).2

theorem Documents.nil (h : Documents known [] entries) : entries = [] := List.map_eq_nil_iff.1 h.sets

theorem laidAt_ne_nil (h : ∀ e ∈ entries, path <+: e.1.path ∧ e.1.path ≠ path) : ∀ e ∈ laidAt path entries, e.1 ≠ [] := by
  intro e he
  obtain ⟨⟨rs, v⟩, hin, rfl⟩ := List.mem_map.1 he
  obtain ⟨⟨keys, hkeys⟩, hne⟩ := h _ hin
  simp only at hkeys hne ⊢
  rw [← hkeys, List.drop_left]
  rintro rfl
  rw [List.append_nil] at hkeys
  exact hne hkeys.symm

/-- Within a rule set the documents fit together. -/
theorem readsUnder_within (hord : Policy.Ordered env.policy.ruleSets) (hsep : Policy.Separate env.policy.ruleSets)
    {v : Option Term} (hcovering : env.policy.covering? path = some rs) (hv : known rs v)
    (hread : (v.bind fun doc => doc.lookupKeys (path.drop rs.path.length)) = some (.object fields)) :
    ∃ v, env.Reads known (path ++ [key]) v ∧ env.ReadsUnder path key fields v := by
  obtain ⟨hrs, hbegins⟩ := Policy.mem_of_covering? hcovering
  have hlonger : rs.path <+: path ++ [key] := hbegins.trans (List.prefix_append path [key])
  refine ⟨_, .within (Policy.covering?_eq_some hsep hrs hlonger) hv, ?_⟩
  have hvalue : (v.bind fun doc => doc.lookupKeys ((path ++ [key]).drop rs.path.length)) =
      Term.findField? (.string key) fields := by
    rw [List.drop_append_of_le_length hbegins.length_le]
    cases v with
    | none => cases hread
    | some doc =>
      have hread : doc.lookupKeys (path.drop rs.path.length) = some (.object fields) := hread
      change doc.lookupKeys (path.drop rs.path.length ++ [key]) = _
      rw [Term.lookupKeys_append, hread, Option.bind_some, Term.lookupKeys, Term.lookup]
      cases Term.findField? (.string key) fields <;> rfl
  rw [hvalue]
  exact .same (Policy.below_eq_nil hord hsep hrs hlonger)

/-- Where nothing but the store is read the documents fit together. -/
theorem readsUnder_stored (hord : Policy.Ordered env.policy.ruleSets) (hsep : Policy.Separate env.policy.ruleSets)
    (hcovering : env.policy.covering? path = none) (hbelow : env.policy.below path = [])
    (hread : env.root.at? (StorePath.ofKeys path) = some (.object fields)) :
    ∃ v, env.Reads known (path ++ [key]) v ∧ env.ReadsUnder path key fields v := by
  have hlonger : env.policy.covering? (path ++ [key]) = none := by
    cases hsome : env.policy.covering? (path ++ [key]) with
    | none => rfl
    | some rs =>
      have hpath := Policy.path_of_covering?_append hsep hcovering hsome
      have hin : rs ∈ env.policy.below path := by
        refine (Policy.mem_below_iff hord).2 ⟨(Policy.mem_of_covering? hsome).1, ?_, ?_⟩ <;> rw [hpath]
        · exact List.prefix_append path [key]
        · simp
      rw [hbelow] at hin
      cases hin
  have hnone : env.policy.below (path ++ [key]) = [] := by
    rw [← Policy.filter_below_of_none hord hsep hlonger, hbelow]
    rfl
  refine ⟨_, .stored hlonger hnone, ?_⟩
  rw [StorePath.ofKeys_snoc, Term.at?_snoc, hread]
  exact .same hnone

/-- Above rule sets a document is found under a key if it was laid there or is stored there. -/
theorem readsUnder_above (hord : Policy.Ordered env.policy.ruleSets) (hsep : Policy.Separate env.policy.ruleSets)
    (hfunctions : ∀ rs ∈ env.policy.ruleSets, rs.hasDocument = false → known rs none)
    (hstored : ∀ items, env.root.at? (StorePath.ofKeys path) = some (.array items) →
      (Term.array items).child? (.key key) = none)
    (hcovering : env.policy.covering? path = none) (hdocs : Documents known (env.policy.below path) entries)
    (hlay : Term.layOver (laidAt path entries) (some (Term.orEmpty (env.root.at? (StorePath.ofKeys path)))) =
      .ok (some (.object fields))) :
    ∃ v, env.Reads known (path ++ [key]) v ∧ env.ReadsUnder path key fields v := by
  have hbelow := hdocs.below hord
  -- what is stored under the key, in the object over which documents are laid
  obtain ⟨stored, hempty⟩ : ∃ stored, Term.orEmpty (env.root.at? (StorePath.ofKeys path)) = .object stored := by
    cases env.root.at? (StorePath.ofKeys path) with
    | none => exact ⟨_, rfl⟩
    | some t => cases t <;> exact ⟨_, rfl⟩
  have hchild : env.root.at? (StorePath.ofKeys (path ++ [key])) = Term.findField? (.string key) stored := by
    rw [StorePath.ofKeys_snoc, Term.at?_snoc]
    rcases hat : env.root.at? (StorePath.ofKeys path) with _ | t <;> rw [hat] at hempty hstored
    · cases hempty
      rfl
    · cases t with
      | array items =>
        cases hempty
        exact hstored items rfl
      | _ =>
        cases hempty
        rfl
  rw [hempty] at hlay
  obtain ⟨_, hfields, hunder⟩ := Term.layOver_under key (laidAt_ne_nil hbelow) hlay
  cases hfields
  rw [under_laidAt path key fun e he => (hbelow e he).1] at hunder
  have hfilter := hdocs.filter fun rs => (path ++ [key]).isPrefixOf rs.path
  cases hlonger : env.policy.covering? (path ++ [key]) with
  | some rs =>
    have hpath := Policy.path_of_covering?_append hsep hcovering hlonger
    have hrs := (Policy.mem_of_covering? hlonger).1
    have hnone : env.policy.below (path ++ [key]) = [] := Policy.below_eq_nil hord hsep hrs (hpath ▸ List.prefix_rfl)
    have hdrop : (path ++ [key]).drop rs.path.length = [] := by rw [hpath, List.drop_length]
    have hset : (env.policy.ruleSet? (path ++ [key])).isSome := hpath ▸ Policy.ruleSet?_isSome hrs
    have hlookup : (Term.orEmpty (env.root.at? (StorePath.ofKeys path))).lookup (.string key) =
        Term.findField? (.string key) stored := by rw [hempty]; rfl
    rw [Policy.filter_below_of_covering? hord hsep hrs hpath] at hfilter
    cases hkind : rs.hasDocument with
    | false =>
      rw [(hfilter.skipped hkind).nil] at hunder
      refine ⟨none, .within hlonger (hfunctions rs hrs hkind), .hidden hset ?_⟩
      rw [hlookup]
      exact (Except.ok.inj hunder).symm
    | true =>
      obtain ⟨v, rest, hsame, hv, hrest⟩ := hfilter.uncons hkind
      have hread : env.Reads known (path ++ [key]) _ := .within hlonger hv
      rw [hdrop] at hread
      rw [hsame, hrest.nil] at hunder
      simp only [laidAt, List.map_cons, List.map_nil, hpath, List.drop_length] at hunder
      cases v with
      | none =>
        refine ⟨none, hread, .hidden hset ?_⟩
        rw [hlookup]
        exact (Except.ok.inj hunder).symm
      | some value =>
        refine ⟨some value, hread, ?_⟩
        rw [show some value = Term.findField? (.string key) fields from Except.ok.inj hunder]
        exact .same hnone
  | none =>
    rw [Policy.filter_below_of_none hord hsep hlonger] at hfilter
    by_cases hnone : env.policy.below (path ++ [key]) = []
    · rw [hnone] at hfilter
      rw [hfilter.nil] at hunder
      refine ⟨_, .stored hlonger hnone, ?_⟩
      rw [hchild, show Term.findField? (.string key) stored = _ from Except.ok.inj hunder]
      exact .same hnone
    · have hlaid := Term.layOver_orEmpty (laidAt_ne_nil (hfilter.below hord)) hunder
      rw [← hchild] at hlaid
      exact ⟨_, .above hlonger hnone hfilter hlaid, .above hnone⟩

/-- What is read under a key of an object that was read, given the documents of rule sets. -/
theorem Reads.under (hord : Policy.Ordered env.policy.ruleSets) (hsep : Policy.Separate env.policy.ruleSets)
    (hfunctions : ∀ rs ∈ env.policy.ruleSets, rs.hasDocument = false → known rs none)
    (hstored : env.policy.below path ≠ [] → ∀ items, env.root.at? (StorePath.ofKeys path) = some (.array items) →
      (Term.array items).child? (.key key) = none)
    (h : env.Reads known path (some (.object fields))) :
    ∃ v, env.Reads known (path ++ [key]) v ∧ env.ReadsUnder path key fields v := by
  generalize hread : some (Term.object fields) = r at h
  cases h with
  | within hcovering hv => exact readsUnder_within hord hsep hcovering hv hread.symm
  | stored hcovering hbelow => exact readsUnder_stored hord hsep hcovering hbelow hread.symm
  | above hcovering hbelow hdocs hlay =>
    cases hread
    exact readsUnder_above hord hsep hfunctions (hstored hbelow) hcovering hdocs hlay

end Env

/-! ## Reading twice -/

/-- The state at the start of an evaluation, with settled answers of built-ins. -/
structure State.Fresh (env : Env) (f : String → List Term → Option (Option Term)) (s : State) : Prop where
  calm : s.Calm env
  memo : s.memo = []
  inProgress : s.inProgress = []
  depth : s.depth = 0
  answered : BuiltinAnswer.From f s.answers

section Twice

variable {env : Env} {f : String → List Term → Option (Option Term)} {path : DataPath} {s s₁ : State} {v : Option Term}

theorem State.Fresh.mindful (h : s.Fresh env f) (hscope : s.scope.id ≤ s.lastScope) : ∃ w, s.Mindful env f [] w :=
  ⟨_, h.calm, h.answered, State.nested_of_empty h.inProgress h.depth, nofun, .of_empty _ _ h.memo hscope⟩

end Twice

/-! ### Rules without values beside stored documents -/

namespace Env

/-- The result of reading a document. -/
def readAt (env : Env) (path : DataPath) (s : State) : Except EvalError (Option Term) :=
  ((env.document env.rules path).run s).1

/-- The fields of the object at a path; none if no object is read there. -/
def fieldsAt? (env : Env) (path : DataPath) (s : State) : Option (List (Term × Term)) :=
  match env.readAt path s with
  | .ok (some (.object fields)) => some fields
  | _ => none

end Env

namespace Hidden

/-- A rule whose body never holds. -/
def never (name : String) (keys : List Term) : Rule where
  first := { head := { name := .var name, keys := keys }, body := [.ofKind (.term (.bool false))] }

def modules : List Module := [⟨["t"], [never "p" [], never "s" [.string "c"]]⟩]

/-- Numbers are stored where the rules are. -/
def env : Env where
  policy := (Policy.compile modules).toOption.getD {}
  root := .object [(.string "t", .object [(.string "p", .number 1), (.string "s", .number 5)])]

def start : State := { clock := { step := 1 } }

def fields : List (Term × Term) := (env.fieldsAt? ["t"] start).getD []

theorem compile_modules : Policy.compile modules = .ok env.policy := Except.eq_ok_of_isOk (by decide +kernel) {}

def asks (keys : List Term) (overrides : List (Term × Term)) : Expr := .mk (.term (.ref (.var "data") keys)) false overrides 0

def ofInput (key : String) : Expr := .ofKind (.term (.ref (.var "input") [.string key]))

def holds (name : String) (body : Body) : Rule where
  first := { head := { name := .var name, keys := [] }, body := body }

end Hidden
end PolicyEngine
