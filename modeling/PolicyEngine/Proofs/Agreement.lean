import PolicyEngine.Proofs.Loading
import PolicyEngine.Proofs.Naming
import PolicyEngine.Proofs.Reading
import PolicyEngine.Proofs.Unaffected

/-!
A document by its path and by a query. Asked for by its path a document is computed as a whole. A reference in a query
goes down key by key instead, to the first rule set or to where no rule has to do with the path, and from there on
through the value or the store. Over documents loaded from JSON both arrive at the same.
-/
namespace PolicyEngine

/-! ## Searches with one result -/

/-- From a state a search goes on with a result, if it is a value, and with nothing else. The environment is given
back. -/
def Search.Passes (search : (Term → Search α) → Search α) (s : State) (r : Except EvalError (Option Term)) : Prop :=
  ∃ s', s'.bindings = s.bindings ∧ ∀ k found, search k found s = Search.afterSome (Eval.ofExcept r) k found s'

namespace Search

variable {s : State}

theorem afterSome_run (m : Eval (Option β)) (k : β → Search α) (found : α) (s : State) :
    afterSome m k found s = afterSome (Eval.ofExcept (m.run s).1) k found (m.run s).2 := by
  simp only [afterSome, after, Eval.run_ofExcept]
  rcases m.run s with ⟨_ | _ | _, _⟩ <;> rfl

theorem after_ok {m : Eval β} {b : β} {s s' : State} (h : m.run s = (.ok b, s')) (k : β → Search α) (found : α) :
    after m k found s = k b found s' := by
  simp only [after, h]

theorem afterSome_none (k : β → Search α) (found : α) (s : State) :
    afterSome (Eval.ofExcept (.ok none)) k found s = ⟨.ok .more, found, s⟩ := rfl

theorem afterSome_some (b : β) (k : β → Search α) (found : α) (s : State) :
    afterSome (Eval.ofExcept (.ok (some b))) k found s = k b found s := rfl

end Search

theorem Bindings.plug_string (b : Bindings) (key : String) : b.plug (.string key) = .string key := by
  rw [plug_eq_plugTo]
  cases b.assignments.length <;> rfl

/-! ## Following keys -/

namespace Env

variable (env : Env) (rules : RuleSemantics) {s : State}

/-- A key is looked up in a value as it stands. -/
theorem walk_value_cons (v : Term) (key : String) (operands : List Term) (k : Term → Search α) :
    env.walk rules (.value v) (.string key :: operands) k = match v.lookup (.string key) with
      | some u => env.walk rules (.value u) operands k
      | none => Search.exhausted := by
  funext found s
  simp only [walk, evalTerm, settle, Bindings.plug_string]
  rfl

/-- Keys below a value lead to the value under them. -/
theorem walk_value (keys : List String) (v : Term) (k : Term → Search α) (found : α) (s : State) :
    env.walk rules (.value v) (keys.map .string) k found s =
      Search.afterSome (Eval.ofExcept (.ok (v.lookupKeys keys))) k found s := by
  induction keys generalizing v with
  | nil =>
    simp only [List.map_nil, walk]
    rfl
  | cons key rest ih =>
    rw [List.map_cons, walk_value_cons, Term.lookupKeys]
    cases v.lookup (.string key) with
    | none => rfl
    | some u => exact ih u

theorem walk_child_cons (parent : StorePath) (segment : PathSegment) (t : Term) (key : String) (operands : List Term)
    (k : Term → Search α) :
    env.walk rules (.child parent segment t) (.string key :: operands) k =
      env.walk rules (.child (parent ++ [segment]) (.key key) (.string key)) operands k := by
  funext found s
  simp only [walk, evalTerm, settle, Bindings.plug_string]
  rfl

variable {env}

/-- A stored document is read by its path. A parent that is a set would be looked into, but there are none. -/
theorem run_arrive_child (hroot : env.root.IsJson) (hfailing : env.failing = []) (parent : StorePath)
    (segment : PathSegment) (key : Term) (s : State) :
    ∃ requests, (env.arrive rules (.child parent segment key)).run s =
      (.ok (env.root.at? (parent ++ [segment])), { s with requests := requests }) := by
  simp only [arrive, Eval.run_bind, env.run_read_unfailing hfailing]
  cases env.root.at? (parent ++ [segment]) with
  | some v => exact ⟨_, rfl⟩
  | none =>
    simp only [Eval.run_bind, env.run_read_unfailing hfailing]
    split
    · next members hset =>
      cases hroot.at? hset with
      | scalar h => cases h
    · exact ⟨_, rfl⟩

/-- In a document from JSON, keys below a stored document lead to the document at the path of all keys. -/
theorem passes_walk_child (hroot : env.root.IsJson) (hfailing : env.failing = []) (path : DataPath) (key : String)
    (t : Term) (keys : List String) (s : State) :
    Search.Passes (α := α) (env.walk rules (.child (StorePath.ofKeys path) (.key key) t) (keys.map .string)) s
      (.ok (env.root.at? (StorePath.ofKeys (path ++ key :: keys)))) := by
  induction keys generalizing path key t with
  | nil =>
    obtain ⟨requests, hrun⟩ := run_arrive_child rules hroot hfailing (StorePath.ofKeys path) (.key key) t s
    refine ⟨{ s with requests := requests }, rfl, fun k found => ?_⟩
    rw [List.map_nil, walk, Search.afterSome_run, hrun, StorePath.ofKeys_snoc]
  | cons next rest ih =>
    have hkeys : path ++ key :: next :: rest = path ++ [key] ++ next :: rest := by simp
    rw [List.map_cons, hkeys]
    obtain ⟨s', hbindings, hwalk⟩ := ih (path ++ [key]) next (.string next)
    refine ⟨s', hbindings, fun k found => ?_⟩
    rw [walk_child_cons, ← StorePath.ofKeys_snoc, hwalk]

end Env

/-- Where no rule has to do with a path, none has to do with a path below it. -/
theorem Policy.apart_append {policy : Policy} (hord : Ordered policy.ruleSets) (hsep : Separate policy.ruleSets)
    {path : DataPath} (h : policy.overlaps path = false) (keys : DataPath) :
    policy.covering? (path ++ keys) = none ∧ policy.below (path ++ keys) = [] := by
  rw [overlaps, Bool.or_eq_false_iff, hasBelow_eq, Bool.not_eq_false', List.isEmpty_iff, Option.isSome_eq_false_iff,
    Option.isNone_iff_eq_none] at h
  obtain ⟨hcovering, hbelow⟩ := h
  have hapart : ∀ rs ∈ policy.ruleSets, ¬ rs.path <+: path ∧ ¬ path <+: rs.path := by
    intro rs hrs
    have haround : ¬ rs.path <+: path := fun hbegins => by
      rw [covering?_eq_some hsep hrs hbegins] at hcovering
      cases hcovering
    refine ⟨haround, fun hbegins => ?_⟩
    have hmem : rs ∈ policy.below path :=
      (mem_below_iff hord).2 ⟨hrs, hbegins, fun heq => haround (heq ▸ List.prefix_rfl)⟩
    rw [hbelow] at hmem
    cases hmem
  constructor
  · cases hc : policy.covering? (path ++ keys) with
    | none => rfl
    | some rs =>
      obtain ⟨hrs, hbegins⟩ := mem_of_covering? hc
      rcases List.prefix_or_prefix_of_prefix hbegins (List.prefix_append path keys) with h | h
      · exact absurd h (hapart rs hrs).1
      · exact absurd h (hapart rs hrs).2
  · refine List.eq_nil_iff_forall_not_mem.2 fun rs hrs => ?_
    obtain ⟨hin, hbegins, -⟩ := (mem_below_iff hord).1 hrs
    exact (hapart rs hin).2 ((List.prefix_append path keys).trans hbegins)

namespace Env

variable (env : Env) (rules : RuleSemantics) {s : State}

/-- Where no rule has to do with a path the store is asked. -/
theorem walk_data_stored {path : DataPath} (h : env.policy.overlaps path = false) (hdata : s.scope.data = [])
    (key : String) (operands : List Term) (k : Term → Search α) (found : α) :
    env.walk rules (.data path) (.string key :: operands) k found s =
      env.walk rules (.child (StorePath.ofKeys path) (.key key) (.string key)) operands k found s := by
  have hsettle : (env.settle rules (.string key) (.data path)).run s =
      (.ok (some (.stored (StorePath.ofKeys path))), s) := by
    have htouches : s.scope.touches path = false := by rw [Scope.touches, hdata, List.any_nil]
    simp only [settle, Eval.run_bind, Eval.run_get, h, htouches]
    rfl
  rw [walk, Search.afterSome_run, hsettle]
  simp only [Search.afterSome_some, evalTerm, Bindings.plug_string]
  rfl

/-- The document of a rule set is needed as a whole. -/
theorem walk_data_whole {path : DataPath} (h : env.policy.overlaps path = true)
    (hrs : (env.policy.ruleSet? path).isSome = true) (key : String) (operands : List Term) (k : Term → Search α)
    (found : α) : env.walk rules (.data path) (.string key :: operands) k found s =
      Search.afterSome (env.document rules path) (fun v => env.walk rules (.value v) (.string key :: operands) k)
        found s := by
  have hsettle : (env.settle rules (.string key) (.data path)).run s =
      (((env.document rules path).run s).1.map fun doc => doc.map Footing.value, ((env.document rules path).run s).2) := by
    simp only [settle, Eval.run_bind, Eval.run_get, h, hrs, Bool.not_true, Bool.false_eq_true, if_false, if_true]
    rcases (env.document rules path).run s with ⟨_ | _, _⟩ <;> rfl
  rw [walk, Search.afterSome_run, hsettle, Search.afterSome_run (env.document rules path)]
  rcases (env.document rules path).run s with ⟨_ | _ | v, s₁⟩
  · rfl
  · rfl
  · dsimp only [Except.map, Option.map]
    rw [Search.afterSome_some, Search.afterSome_some, walk_value_cons]
    simp only [evalTerm, Bindings.plug_string]
    rfl

/-- Above rule sets the path is followed key by key. -/
theorem walk_data_next {path : DataPath} (h : env.policy.overlaps path = true) (hrs : env.policy.ruleSet? path = none)
    (key : String) (operands : List Term) (k : Term → Search α) (found : α) :
    env.walk rules (.data path) (.string key :: operands) k found s =
      env.walk rules (.data (path ++ [key])) operands k found s := by
  have hsettle : (env.settle rules (.string key) (.data path)).run s = (.ok (some (.data (path ++ [key]))), s) := by
    simp only [settle, Eval.run_bind, Eval.run_get, h, hrs, Bindings.plug_string]
    rfl
  rw [walk, Search.afterSome_run, hsettle, Search.afterSome_some]

variable {env}

/-- Following the keys of a path arrives at the document at the path. No rule set lies around the part of the path that
was followed. -/
theorem passes_walk_data (hord : Policy.Ordered env.policy.ruleSets) (hsep : Policy.Separate env.policy.ruleSets)
    (hroot : env.root.IsJson) (hfailing : env.failing = []) (hreg : env.registry.Unaffected) (keys : List String)
    {path : DataPath} (hopen : ∀ rs ∈ env.policy.ruleSets, rs.path <+: path → rs.path = path)
    (hs : s.Beside env s) (hdata : s.scope.data = []) :
    Search.Passes (α := α) (env.walk env.rules (.data path) (keys.map .string)) s
      ((env.document env.rules (path ++ keys)).run s).1 := by
  induction keys generalizing path with
  | nil =>
    have hframe := (hs.run_document hreg path).2
    refine ⟨_, congrArg Frame.bindings hframe, fun k found => ?_⟩
    rw [List.map_nil, walk, Search.afterSome_run, List.append_nil]
    rfl
  | cons key rest ih =>
    rw [List.map_cons]
    cases h : env.policy.overlaps path with
    | false =>
      obtain ⟨hcovering, hbelow⟩ := Policy.apart_append hord hsep h (key :: rest)
      rw [env.run_document_plain env.rules _ hdata, env.run_baseDocument_stored env.rules hfailing hcovering hbelow]
      obtain ⟨s', hbindings, hwalk⟩ := passes_walk_child env.rules hroot hfailing path key (.string key) rest s
      exact ⟨s', hbindings, fun k found => by rw [env.walk_data_stored env.rules h hdata, hwalk]⟩
    | true =>
      cases hrs : env.policy.ruleSet? path with
      | some rs =>
        have hpath : rs.path = path := by simpa using List.find?_some hrs
        have hmem := List.mem_of_find?_eq_some hrs
        have hcovering : ∀ keys, env.policy.covering? (path ++ keys) = some rs := fun keys =>
          Policy.covering?_eq_some hsep hmem (hpath ▸ List.prefix_append path keys)
        have hframe := (hs.run_document hreg path).2
        refine ⟨((env.document env.rules path).run s).2, congrArg Frame.bindings hframe, fun k found => ?_⟩
        rw [env.walk_data_whole env.rules h (by rw [hrs]; rfl), Search.afterSome_run,
          env.run_document_plain env.rules _ hdata, env.run_document_plain env.rules _ hdata,
          env.run_baseDocument_covered env.rules (hcovering _),
          env.run_baseDocument_covered env.rules (by rw [← hcovering [], List.append_nil]), hpath, List.drop_left,
          List.drop_length]
        rcases (env.rules.document rs).run s with ⟨_ | _ | doc, s₁⟩
        · rfl
        · rfl
        · exact env.walk_value env.rules (key :: rest) doc k found s₁
      | none =>
        have hnext : ∀ rs ∈ env.policy.ruleSets, rs.path <+: path ++ [key] → rs.path = path ++ [key] := by
          intro rs hmem hbegins
          rcases List.prefix_concat_iff.1 hbegins with heq | hbegins
          · exact heq
          · have hsome := Policy.ruleSet?_isSome hmem
            rw [hopen rs hmem hbegins, hrs] at hsome
            cases hsome
        obtain ⟨s', hbindings, hwalk⟩ := ih hnext
        refine ⟨s', hbindings, fun k found => ?_⟩
        rw [env.walk_data_next env.rules h hrs, hwalk, List.append_assoc, List.singleton_append]

/-- Over ground stored documents the document at a path is ground. -/
theorem ground_document (hroot : env.root.isGround = true) (hfailing : env.failing = [])
    (hreg : env.registry.Unaffected) (hs : s.Beside env s) (hdata : s.scope.data = []) (path : DataPath)
    {v : Option Term} (hv : ((env.document env.rules path).run s).1 = .ok v) : GroundIfSome v := by
  rw [env.run_document_plain env.rules _ hdata] at hv
  cases hcovering : env.policy.covering? path with
  | some rs =>
    have hground : ∀ v, ((env.rules.document rs).run s).1 = .ok v → GroundIfSome v :=
      fun _ => ground_rulesTo _ hs.grounded rs
    rw [env.run_baseDocument_covered env.rules hcovering] at hv
    rcases hrun : (env.rules.document rs).run s with ⟨e | doc, s₁⟩ <;> rw [hrun] at hv <;> cases hv
    intro t ht
    obtain ⟨d, rfl, hlookup⟩ := Option.bind_eq_some_iff.1 ht
    exact Term.hereditary_isGround.lookupKeys (hground (some d) (congrArg Prod.fst hrun) d rfl) hlookup
  | none =>
    by_cases hbelow : env.policy.below path = []
    · rw [env.run_baseDocument_stored env.rules hfailing hcovering hbelow] at hv
      cases hv
      exact fun t ht => Term.hereditary_isGround.at? hroot ht
    · rw [env.run_baseDocument_laid env.rules hfailing hcovering hbelow] at hv
      have hstart : (Term.orEmpty (env.root.at? (StorePath.ofKeys path))).isGround = true := by
        unfold Term.orEmpty
        split
        · next fields hfields => exact Term.hereditary_isGround.at? hroot hfields
        · rfl
      rcases hrun : (layRules env.rules path (env.policy.below path)
        (Term.orEmpty (env.root.at? (StorePath.ofKeys path)))).run (reading path s) with ⟨e | doc, s₁⟩ <;>
        rw [hrun] at hv <;> cases hv
      refine ifSome_some (ground_layRules hreg (hs.move (quiet_reading path s) (quiet_reading path s)) path ?_ hstart
        (congrArg Prod.fst hrun))
      exact fun rs hrs => Coupling.mem_of_mem_below hrs

end Env

/-! ## Queries -/

/-- That `x` equals the document at a path. -/
def DataPath.asking (path : DataPath) : ExprKind :=
  .term (.call (.ref (.var "eq") []) [.var "x", .ref (.var "data") (path.map .string)])

/-- The query that asks for the document at a path. -/
def DataPath.query (path : DataPath) : Body := [.mk path.asking false [] 0]

theorem DataPath.vars_query (path : DataPath) : Query.vars path.query = ["x"] := by
  have hkeys : Term.listVars (path.map .string) = [] := by
    induction path with
    | nil => rfl
    | cons key rest ih => exact ih
  simp only [Query.vars, query, asking, List.flatMap_cons, List.flatMap_nil, Query.exprVars, Expr.kind, Query.operandVars,
    Term.listVars, Term.vars, hkeys]
  decide +kernel

namespace Env

variable (env : Env) (rules : RuleSemantics) {s : State}

theorem evalKind_query (path : DataPath) (k : Search α) (found : α) (h : s.bindings = {}) :
    env.evalKind rules path.asking k found s =
      env.walk rules (.data []) (path.map .string) (fun v => Search.unifying (.var "x") v k) found s := by
  have hvar : ∀ K : Term → Search α, env.evalTerm rules (.var "x") K found s = K (.var "x") found s := by
    intro K
    have hderef : s.bindings.deref (.var "x") = .var "x" := by rw [h]; rfl
    simp only [evalTerm, Search.withBindings, hderef, show isRoot "x" = false from by decide, Bool.false_eq_true,
      if_false]
  have hroot : s.bindings.root? (.var "data") = some "data" := by rw [h]; decide
  rw [DataPath.asking, Coupling.evalKind_call]
  change env.evalTerm rules (.var "x") (fun x => env.evalTerm rules (.ref (.var "data") (path.map .string))
    fun y => Search.unifying x y k) found s = _
  rw [hvar]
  simp only [evalTerm, Search.withBindings, hroot]
  rfl

/-- A variable that nothing is bound to becomes a ground value, for the time of the search. -/
theorem unifying_query {v : Term} (hv : v.isGround = true) (h : s.bindings = {}) (k : Search α) (found : α) :
    Search.unifying (.var "x") v k found s =
      let r := k found { s with bindings := ⟨[("x", some v)]⟩ }
      { r with state := { r.state with bindings := r.state.bindings.undo s.bindings.mark } } := by
  have hderef : ({} : Bindings).deref v = v := by cases v <;> rfl
  have hunify : Bindings.unify (.var "x") v s.bindings = some ⟨[("x", some v)]⟩ := by
    have hbind : ({} : Bindings).bind "x" v = some ⟨[("x", some v)]⟩ := by
      simp only [Bindings.bind, hv, Bool.not_true, Bool.false_and, Bool.false_eq_true, if_false]
      rfl
    rw [h, Bindings.unify, show (Term.var "x").size + v.size + ({} : Bindings).size = v.size + 1 from Nat.add_comm 1 _,
      Bindings.unifyTo, hderef, show ({} : Bindings).deref (.var "x") = .var "x" from rfl]
    cases v <;> first | exact hbind | cases hv
  simp only [Search.unifying, Search.extending, hunify]

theorem solution_query (path : DataPath) {v : Term} (hv : v.isGround = true) :
    Query.solution (Query.vars path.query) ⟨[("x", some v)]⟩ = ⟨[("x", v)]⟩ := by
  have hplug : (⟨[("x", some v)]⟩ : Bindings).plug (.var "x") = v := Bindings.plug_of_bound rfl hv
  simp only [DataPath.vars_query, Query.solution, List.filterMap_cons, List.filterMap_nil, hplug, hv, if_true]

/-- What is done with the one solution of a query. -/
def collecting (path : DataPath) (depth : Nat) : Search (Array Solution) :=
  Search.after (env.emit .exit depth fun _ => "query") fun _ =>
    Search.handing (Query.vars path.query) Query.takeAll

theorem run_collecting (path : DataPath) (depth : Nat) {v : Term} (hv : v.isGround = true) (found : Array Solution) :
    ∃ s', env.collecting path depth found { s with bindings := ⟨[("x", some v)]⟩ } =
      ⟨.ok .more, found.push ⟨[("x", v)]⟩, s'⟩ := by
  simp only [collecting, Search.after, env.run_emit, Search.handing, Query.takeAll]
  split
  · exact ⟨_, by rw [solution_query path hv]⟩
  · exact ⟨_, by rw [solution_query path hv]⟩

theorem run_enterQuery (s : State) : (do
      let depth := (← get).depth
      env.emit .enter depth fun _ => "query"
      pure depth : Eval Nat).run s = (.ok s.depth, ((env.emit .enter s.depth fun _ => "query").run s).2) := by
  simp only [Eval.run_bind, Eval.run_get, env.run_emit]
  rfl

theorem run_enterExpr (hcalm : s.Calm env) (text : Unit → String) : (do
      env.checkpoint
      let depth := (← get).depth
      env.emit .eval depth text
      pure depth : Eval Nat).run s = (.ok s.depth, ((env.emit .eval s.depth text).run s).2) := by
  simp only [Eval.run_bind, env.run_checkpoint_calm hcalm, Eval.run_get, env.run_emit]
  rfl

/-- The query is evaluated after a check point, and nothing that matters happens before. -/
theorem evalQuery_query_eq (path : DataPath) (hcalm : s.Calm env) : ∃ s' text, s.Quiet s' ∧
    env.evalQuery path.query Query.takeAll #[] s =
      Search.orElse (env.evalKind env.rules path.asking (Search.noting (env.collecting path s.depth)))
        (env.emit .fail s.depth text) #[] s' := by
  let text : Unit → String := fun _ => (Expr.mk path.asking false [] 0).text
  have hquiet := env.quiet_emit .enter s.depth (fun _ => "query") s
  have hdepth : ((env.emit .enter s.depth fun _ => "query").run s).2.depth = s.depth := by rw [hquiet.eq]
  refine ⟨_, text, hquiet.trans (env.quiet_emit .eval s.depth text _), ?_⟩
  rw [evalQuery, Search.after_ok (env.run_enterQuery s)]
  simp only [DataPath.query, evalBody]
  rw [Coupling.evalExpr_eq, Search.after_ok (env.run_enterExpr (hcalm.quiet hquiet) text), hdepth]
  rfl

/-- What a query has found is what is at the end of the reference in it. -/
theorem evalQuery_query (path : DataPath) (hcalm : s.Calm env) (h : s.bindings = {})
    {r : Except EvalError (Option Term)} (hground : ∀ v, r = .ok (some v) → v.isGround = true)
    (hwalk : ∀ s', s.Quiet s' →
      Search.Passes (env.walk env.rules (α := Array Solution × Bool) (.data []) (path.map .string)) s' r) :
    ((env.evalQuery path.query Query.takeAll #[] s).outcome.map
        fun _ => (env.evalQuery path.query Query.takeAll #[] s).found.toList) =
      r.map fun v => v.toList.map fun v => ⟨[("x", v)]⟩ := by
  obtain ⟨s₁, text, hquiet, hquery⟩ := env.evalQuery_query_eq path hcalm
  obtain ⟨s₂, hbindings, hpasses⟩ := hwalk s₁ hquiet
  have hs₁ : s₁.bindings = {} := by rw [hquiet.eq]; exact h
  have hkind := (env.evalKind_query env.rules path (Search.noting (env.collecting path s.depth)) (#[], false) hs₁).trans
    (hpasses _ _)
  rw [hquery]
  simp only [Search.orElse, hkind]
  rcases r with e | _ | v
  · rfl
  · simp only [Search.afterSome_none, env.run_emit]
    rfl
  · have hv := hground v rfl
    obtain ⟨s₃, hfound⟩ := env.run_collecting path s.depth hv (s := s₂) #[]
    simp only [Search.afterSome_some, unifying_query hv (hbindings.trans hs₁), Search.noting, hfound]
    rfl

end Env

/-! ## Engines -/

namespace Engine

variable {e : Engine} {path : DataPath}

/-- What a query for the document at a path finds is what the path stands for. -/
theorem evalQuery_query (hcompiled : e.Compiled) (hunlimited : e.Unlimited) (hregistry : e.registry.Unaffected)
    (hstore : e.store.Loaded) (hpath : path.Plain) :
    (e.evalQuery path.query).1.result =
      (e.evalRule path.name).1.result.map fun v => v.toList.map fun v => ⟨[("x", v)]⟩ := by
  have hquery : (e.evalQuery path.query).1.result =
      let result := (e.run none (fun err => (.error err, #[])) fun env s =>
        let r := env.evalQuery path.query Query.takeAll #[] s
        ((r.outcome.map fun _ => (), r.found), r.state)).1.result
      result.1.map fun _ => result.2.toList := rfl
  have hrule : (e.evalRule path.name).1.result =
      (e.run none .error fun env s => (env.evalPath path).run s).1.result := by
    rw [evalRule, DataPath.parse?_name_iff.2 hpath]
  rw [hquery, hrule]
  cases hc : Policy.compile e.modules with
  | error cause =>
    rcases e.run_cases hcompiled with ⟨err, hrun⟩ | ⟨policy, _, _, hpolicy, _⟩
    · rw [hrun _ e.options, hrun _ e.options]
      rfl
    · cases hc.symm.trans hpolicy
  | ok policy =>
    rw [e.run_compiled hcompiled hc, e.run_compiled hcompiled hc]
    set env := { e with store := e.store.beginRead.2 }.env policy e.store.beginRead.1
    set s := { e with store := e.store.beginRead.2 }.start
    have hcalm : s.Calm env := hunlimited.calm_start policy e.store.beginRead.1 e.store.beginRead.2
    have hbeside : ∀ s', s.Quiet s' → s.Beside env s' := fun s' hquiet => ⟨hquiet, hcalm, nofun⟩
    have hground : ∀ v, ((env.document env.rules path).run s).1 = .ok (some v) → v.isGround = true := fun v hv =>
      Env.ground_document hstore.root.isGround hstore.answers hregistry (hbeside s (.refl s)) rfl path hv v rfl
    have hwalk : ∀ s', s.Quiet s' → Search.Passes (env.walk env.rules (α := Array Solution × Bool) (.data [])
        (path.map .string)) s' ((env.document env.rules path).run s).1 := by
      intro s' hquiet
      have hnear := hbeside s' hquiet
      have hopen : ∀ rs ∈ env.policy.ruleSets, rs.path <+: [] → rs.path = [] := fun _ _ => List.prefix_nil.1
      have hdata : s'.scope.data = [] := by
        rw [hquiet.eq]
        rfl
      have hpasses := Env.passes_walk_data (α := Array Solution × Bool) (Policy.ordered_of_compile hc)
        (Policy.separate_of_compile hc) hstore.root hstore.answers hregistry path hopen (hnear.move hquiet (.refl s')) hdata
      rwa [List.nil_append, (hnear.run_document hregistry path).1] at hpasses
    have hfound := env.evalQuery_query path hcalm rfl hground hwalk
    rw [show (env.evalPath path).run s = (env.document env.rules path).run s from rfl, ← hfound]
    generalize env.evalQuery path.query Query.takeAll #[] s = r
    obtain ⟨outcome, found, s'⟩ := r
    cases outcome <;> rfl

/-- A query for a document and a request by its path agree: one solution that binds the variable to the value of the
document, none where the document is undefined, and the same error. Both evaluations start from one engine, hence with the
same time of day and the same answers of the nondeterministic functions. Where these may differ from one evaluation to
the next, as the host's clock and the numbers it draws do, so may the values. -/
theorem evalQuery_agrees_evalRule (hcompiled : e.Compiled) (hunlimited : e.Unlimited)
    (hregistry : e.registry.Unaffected) (hstore : e.store.Loaded) (hpath : path.Plain) :
    let rule := (e.evalRule path.name).1.result
    let query := (e.evalQuery path.query).1.result
    (∀ v, rule = .ok (some v) ↔ query = .ok [⟨[("x", v)]⟩]) ∧ (rule = .ok none ↔ query = .ok []) ∧
      ∀ err, rule = .error err ↔ query = .error err := by
  intro rule query
  have hquery : query = rule.map fun v => v.toList.map fun v => ⟨[("x", v)]⟩ :=
    evalQuery_query hcompiled hunlimited hregistry hstore hpath
  rw [hquery]
  rcases rule with err | _ | v <;> simp [Except.map]

end Engine

namespace Served

/-- A rule whose value is a stored document. -/
def rule : Rule where
  first := { head := { name := .var "p", keys := [], value := some (.ref (.var "data") [.string "u", .string "k"]) } }

/-- The rule is at `data.t.p`, and the document at `data.u.k` is 1. -/
def engine : Engine where
  modules := [⟨["t"], [rule]⟩]
  store := { root := .object [(.string "u", .object [(.string "k", .number 1)])] }
  clock := { step := 1 }

theorem loaded : engine.store.Loaded where
  root := .object (fun f hf => ⟨"u", by rw [List.mem_singleton.1 hf]⟩) fun f hf => by
    rw [List.mem_singleton.1 hf]
    exact .object (fun f hf => ⟨"k", by rw [List.mem_singleton.1 hf]⟩) fun f hf => by
      rw [List.mem_singleton.1 hf]
      exact .scalar rfl
  answers := rfl

/-- The value of the rule is found by a query, too. -/
theorem evalQuery_served : ∃ v, (v == .number 1) = true ∧
    (engine.evalRule (DataPath.name ["t", "p"])).1.result = .ok (some v) ∧
      (engine.evalQuery (DataPath.query ["t", "p"])).1.result = .ok [⟨[("x", v)]⟩] := by
  have hcompiled : engine.Compiled := fun _ (h : none = some _) => nomatch h
  have hpath : DataPath.Plain ["t", "p"] := by decide
  obtain ⟨hfound, -, -⟩ := Engine.evalQuery_agrees_evalRule hcompiled ⟨⟨rfl, rfl⟩, rfl⟩
    (Registry.regular_core _).unaffected loaded hpath
  have hok : (engine.evalRule (DataPath.name ["t", "p"])).1.result.isOk = true := by decide +kernel
  have hone : ((engine.evalRule (DataPath.name ["t", "p"])).1.result.toOption.getD none).any (· == .number 1) =
      true := by
    decide +kernel
  generalize (engine.evalRule (DataPath.name ["t", "p"])).1.result = result at hfound hok hone ⊢
  match result with
  | .error _ => cases hok
  | .ok none => cases hone
  | .ok (some v) => exact ⟨v, hone, rfl, (hfound v).1 rfl⟩

end Served
end PolicyEngine
