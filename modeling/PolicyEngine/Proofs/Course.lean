import PolicyEngine.Eval.Query

/-!
The course of an evaluation. Here an evaluation goes the way it always goes, from the same state to the same state,
and keeps a record of the moments it comes through. What cannot be seen from a state is recorded with it: the scopes
that were opened for an expression whose evaluation is not over, and the errors with which rule sets are refused.

What runs no rules and opens no scope is taken as one step. The rest is the evaluator again, with a course in place of
a state.
-/
namespace PolicyEngine

/-- A moment of an evaluation. -/
structure Moment where
  state : State
  /-- The numbers of the open scopes, the innermost first. -/
  opened : List Nat := []
  /-- The error for which a rule set is not entered at this moment. -/
  refused : Option EvalError := none

/-- How far an evaluation has come, and the moments before, the latest first. -/
structure Course where
  now : Moment
  past : List Moment := []

namespace Course

def start (s : State) : Course := { now := { state := s } }

def state (c : Course) : State := c.now.state

def moments (c : Course) : List Moment := c.now :: c.past

/-- Goes on to a moment. -/
def reach (m : Moment) (c : Course) : Course := ⟨m, c.moments⟩

/-- Goes on to a state. -/
def go (s : State) (c : Course) : Course := c.reach { state := s, opened := c.now.opened }

/-- Does not enter a rule set. -/
def refuse (e : EvalError) (c : Course) : Course := c.reach { c.now with refused := some e }

/-- Opens a scope with its own number. -/
def openScope (scope : Scope) (c : Course) : Course :=
  let s := c.state.openScope scope
  c.reach { state := s, opened := s.scope.id :: c.now.opened }

/-- Closes the innermost of the open scopes and goes back to an enclosing one. -/
def closeScope (scope : Nat) (enclosing : Scope) (c : Course) : Course :=
  c.reach { state := c.state.closeScope scope enclosing, opened := c.now.opened.tail }

/-! ## Computations -/

abbrev Eval := ExceptT EvalError (StateM Course)

/-- A computation that is one step. -/
def step (m : PolicyEngine.Eval β) : Eval β := ExceptT.mk fun c =>
  let (r, s) := m.run c.state
  (r, c.go s)

/-- Runs a computation in an extended environment and takes the extension back. -/
def extending (extend : Bindings → Option Bindings) (otherwise : β) (m : Eval β) : Eval β := ExceptT.mk fun c =>
  match extend c.state.bindings with
  | none => (.ok otherwise, c)
  | some b =>
    let (r, c') := m.run (c.go { c.state with bindings := b })
    (r, c'.go { c'.state with bindings := c'.state.bindings.undo c.state.bindings.mark })

/-- Whether a test holds for all of a list; it is not made after one for which it does not. -/
def forAll (test : β → Eval Bool) : List β → Eval Bool
  | [] => pure true
  | b :: rest => do
    if ← test b then forAll test rest else pure false

/-! ## Searches -/

/-- Where a search ends: why, with what accumulated, and after which course. -/
structure Step (α : Type) where
  outcome : Except EvalError Flow
  found : α
  course : Course

abbrev Search (α : Type) := α → Course → Step α

namespace Search

/-- A search that is one step. -/
def leaf (search : PolicyEngine.Search α) : Search α := fun found c =>
  let r := search found c.state
  ⟨r.outcome, r.found, c.go r.state⟩

def after (m : Eval β) (k : β → Search α) : Search α := fun found c =>
  match m.run c with
  | (.ok b, c) => k b found c
  | (.error e, c) => ⟨.error e, found, c⟩

def afterSome (m : Eval (Option β)) (k : β → Search α) : Search α :=
  after m fun
    | some b => k b
    | none => leaf .exhausted

def withBindings (k : Bindings → Search α) : Search α := fun found c => k c.state.bindings found c

def extending (extend : Bindings → Option Bindings) (k : Search α) : Search α := fun found c =>
  match extend c.state.bindings with
  | none => ⟨.ok .more, found, c⟩
  | some b =>
    let ⟨outcome, found, c'⟩ := k found (c.go { c.state with bindings := b })
    ⟨outcome, found, c'.go { c'.state with bindings := c'.state.bindings.undo c.state.bindings.mark }⟩

def unifying (x y : Term) (k : Search α) : Search α := extending (Bindings.unify x y) k

def each : List β → (β → Search α) → Search α
  | [], _ => leaf .exhausted
  | b :: rest, k => fun found c =>
    match k b found c with
    | ⟨.ok .more, found, c⟩ => each rest k found c
    | r => r

def endingWith (flow : Flow) (search : Search α) : Search α := fun found c =>
  let r := search found c
  { r with outcome := r.outcome.map fun _ => flow }

def gather (search : Search β) (start : β) : Eval β := ExceptT.mk fun c =>
  let r := search start c
  (r.outcome.map fun _ => r.found, r.course)

def noting (k : Search α) : Search (α × Bool) := fun found c =>
  let r := k found.1 c
  ⟨r.outcome, (r.found, true), r.course⟩

def orElse (search : Search (α × Bool)) (otherwise : Eval Unit) : Search α := fun found c =>
  match search (found, false) c with
  | ⟨.ok flow, (found, false), c⟩ =>
    match otherwise.run c with
    | (.ok (), c) => ⟨.ok flow, found, c⟩
    | (.error e, c) => ⟨.error e, found, c⟩
  | ⟨outcome, (found, _), c⟩ => ⟨outcome, found, c⟩

/-- Goes on in an enclosing scope, and comes back. -/
def enclosed (scope : Scope) (k : Search α) : Search α := fun found inner =>
  let ⟨outcome, found, c⟩ := k found (inner.go { inner.state with scope := scope })
  ⟨outcome, found, c.go { c.state with scope := inner.state.scope }⟩

/-- Runs a search in a scope of its own, which is open until the search is over. -/
def inScope (scope : Scope) (search : Search α → Search α) (k : Search α) : Search α := fun found c =>
  let opened := c.openScope scope
  let r := search (enclosed c.state.scope k) found opened
  { r with course := r.course.closeScope opened.state.scope.id c.state.scope }

/-- The first ground value that a search hands on. -/
def first (search : (Term → Search (Option Term)) → Search (Option Term)) : Eval (Option Term) :=
  gather (search fun t => leaf (.ground (fun t => .accept fun _ => some t) t)) none

end Search

/-! ## Documents and calls -/

/-- How the rules of a policy are evaluated. -/
structure RuleSemantics where
  document : RuleSet → Eval (Option Term)
  function : RuleSet → List Term → Eval (Option Term)

section

variable (env : Env) (rules : RuleSemantics)

def layRules (path : DataPath) : List RuleSet → Term → Eval Term
  | [], doc => pure doc
  | rs :: rest, doc => do
    if rs.kind = .function then layRules path rest doc
    else match ← rules.document rs with
      | some value => layRules path rest (← step (setIn value doc (rs.path.drop path.length)))
      | none => layRules path rest doc

def baseDocument (path : DataPath) : Eval (Option Term) := do
  match env.policy.covering? path with
  | some rs => return (← rules.document rs).bind fun doc => doc.lookupKeys (path.drop rs.path.length)
  | none =>
    let stored ← step (env.read (StorePath.ofKeys path))
    match env.policy.below path with
    | [] => return stored
    | sets =>
      let doc := match stored with
        | some (.object fields) => .object fields
        | _ => Term.emptyObject
      return some (← layRules rules path sets doc)

def document (path : DataPath) : Eval (Option Term) := do
  let overrides := (← get).state.scope.data
  match Scope.covering? path overrides with
  | some (doc, later) => step (Env.layOverrides path (Scope.below path later) doc)
  | none =>
    let doc ← baseDocument env rules path
    step (Env.layOverrides path (Scope.below path overrides) doc)

def resolve (reference : Term) : Eval (Option Term) := do
  match RefChain.ofTerm? reference with
  | none => return none
  | some chain =>
    let base ← match chain.root with
      | "input" => pure ((← get).state.scope.input.bind fun doc => doc.lookupKeys chain.keys)
      | "data" => document env rules chain.keys
      | _ => pure none
    return base.bind fun doc => chain.rest.foldlM (fun t key => t.lookup key) doc

def apply (callee : Callee) (args : List Term) : Eval (Option Term) :=
  match callee with
  | .builtin b => step (env.callBuiltin b args)
  | .rules rs => if args.all Term.isGround then rules.function rs args else pure none
  | .constant v => pure (some v)

/-! ## Terms and bodies -/

def arrive : Cursor → Eval (Option Term)
  | .value v => pure (some v)
  | .data path => document env rules path
  | .child parent segment key => do
    match ← step (env.read (parent ++ [segment])) with
    | some v => pure (some v)
    | none =>
      match ← step (env.read parent) with
      | some (.set members) => pure (if Term.containsMember key members then some key else none)
      | _ => pure none

def settle (operand : Term) : Cursor → Eval (Option Footing)
  | .value v => pure (some (.value v))
  | .child parent segment _ => pure (some (.stored (parent ++ [segment])))
  | .data path => do
    let s := (← get).state
    let whole : Eval (Option Footing) := do return (← document env rules path).map .value
    if !env.policy.overlaps path then
      if s.scope.touches path then whole else pure (some (.stored (StorePath.ofKeys path)))
    else if (env.policy.ruleSet? path).isSome then whole
    else match s.bindings.plug operand with
      | .string key => pure (some (.data (path ++ [key])))
      | _ => whole

mutual

def evalTerm {α : Type} : Term → (Term → Search α) → Search α
  | .var name, k => Search.withBindings fun b =>
    match b.deref (.var name) with
    | .var unbound =>
      if isRoot unbound then
        Search.afterSome (step (Env.rootCursor unbound)) fun c => Search.afterSome (arrive env rules c) k
      else k (.var unbound)
    | value => k (b.plug value)
  | .ref head operands, k => Search.withBindings fun b =>
    match b.root? head with
    | some name => Search.afterSome (step (Env.rootCursor name)) fun c => walk c operands k
    | none => evalTerm head fun
      | .var _ => Search.leaf .exhausted
      | v => walk (.value v) operands k
  | .call operator arguments, k =>
    match operator.refName? with
    | none => Search.leaf (.raise (.internal (.invalidOperator operator)))
    | some name => Search.after (step (env.resolveFunction name)) fun (callee, _) =>
      evalCall callee none arguments [] k (Search.leaf .exhausted)
  | .arrayCompr term body, k =>
    Search.after (Search.gather (evalBody body
      (evalTerm term fun t => Search.leaf (.ground (fun t => .collect fun items => items.push t) t))) #[])
      fun items => k (.array items.toList)
  | .setCompr term body, k =>
    Search.after (Search.gather (evalBody body
      (evalTerm term fun t => Search.leaf (.ground (fun t => .collect (Term.insertMember t)) t))) [])
      fun members => k (.set members)
  | .objectCompr key value body, k =>
    Search.after (Search.gather (evalBody body (evalTerm key fun key => evalTerm value fun value =>
      Search.leaf (.addUnique (fun key old new => .conflict "object comprehension" (.comprehensionKey key old new))
        (pure ()) key value))) [])
      fun fields => k (.object fields)
  | .array items, k =>
    if Term.anyNeedsEval items then evalTerms items fun items => k (.array items)
    else Search.withBindings fun b => k (b.plug (.array items))
  | .set members, k =>
    if Term.anyNeedsEval members then evalTerms members fun members => k (Term.setOf members)
    else Search.withBindings fun b => k (b.plug (.set members))
  | .object fields, k =>
    if Term.fieldsNeedEval fields then evalFields fields fun fields => k (Term.objectOf fields)
    else Search.withBindings fun b => k (b.plug (.object fields))
  | t, k => k t

def evalTerms {α : Type} : List Term → (List Term → Search α) → Search α
  | [], k => k []
  | t :: rest, k => evalTerm t fun v => evalTerms rest fun vs => k (v :: vs)

def evalFields {α : Type} : List (Term × Term) → (List (Term × Term) → Search α) → Search α
  | [], k => k []
  | (key, value) :: rest, k =>
    evalTerm key fun x => evalTerm value fun y => evalFields rest fun fields => k ((x, y) :: fields)

def walk {α : Type} : Cursor → List Term → (Term → Search α) → Search α
  | c, [], k => Search.afterSome (arrive env rules c) k
  | c, operand :: rest, k => Search.afterSome (settle env rules operand c) fun
    | .data path => walk (.data path) rest k
    | .value v => evalTerm operand fun key => Search.withBindings fun b =>
      let key := b.plug key
      if key.isGround then
        match v.lookup key with
        | some v => walk (.value v) rest k
        | none => Search.leaf .exhausted
      else Search.each v.entries fun (name, v) => Search.after (step env.checkpoint) fun _ =>
        Search.unifying key name (walk (.value v) rest k)
    | .stored path => evalTerm operand fun key => Search.withBindings fun b =>
      let key := b.plug key
      if key.isGround then
        match PathSegment.ofTerm? key with
        | some segment => walk (.child path segment key) rest k
        | none => Search.afterSome (step do return (← env.read path).bind (·.lookup key)) fun v =>
          walk (.value v) rest k
      else Search.afterSome (step (env.listKeys path)) fun names => Search.each names fun name =>
        Search.after (step env.checkpoint) fun _ => Search.unifying key name
          (match PathSegment.ofTerm? name with
          | some segment => walk (.child path segment name) rest k
          | none => walk (.value name) rest k)

def evalCall {α : Type} (callee : Callee) (output : Option Nat) :
    List Term → List Term → (Term → Search α) → Search α → Search α
  | [], operands, k, _ => Search.afterSome (apply env rules callee operands.reverse) k
  | t :: rest, operands, k, done =>
    if output = some operands.length then
      Search.afterSome (apply env rules callee operands.reverse) fun result =>
        evalTerm t fun t => Search.unifying t result done
    else if callee.lenient then
      Search.after (Search.gather
        (evalTerm t fun t => Search.leaf (.ground (fun t => .collect (Term.insertMember t)) t)) [])
        fun values => evalCall callee output rest (lenientOperand values :: operands) k done
    else evalTerm t fun v => evalCall callee output rest (v :: operands) k done

def evalKind {α : Type} : ExprKind → Search α → Search α
  | .term (.call operator arguments), k =>
    match operator.refName? with
    | none => Search.leaf (.raise (.internal (.invalidOperator operator)))
    | some name =>
      match name == "eq" || name == "assign", arguments with
      | true, [x, y] => evalTerm x fun x => evalTerm y fun y => Search.unifying x y k
      | _, arguments => Search.after (step (env.resolveFunction name)) fun (callee, arity) =>
        evalCall callee (Env.outputPosition arity arguments.length) arguments []
          (fun result => if result == .bool false then Search.leaf .exhausted else k) k
  | .term t, k => evalTerm t fun
    | .bool false | .var _ => Search.leaf .exhausted
    | _ => k
  | .someDecl [.call operator arguments], k =>
    match operator.refName?, arguments with
    | some "internal.member_2", [value, domain] => evalTerm domain fun domain =>
      Search.each domain.entries fun entry => Search.after (step env.checkpoint) fun _ =>
        Search.extending (Bindings.bindEntry none value entry) k
    | some "internal.member_3", [key, value, domain] => evalTerm domain fun domain =>
      Search.each domain.entries fun entry => Search.after (step env.checkpoint) fun _ =>
        Search.extending (Bindings.bindEntry (some key) value entry) k
    | _, arguments => Search.leaf (.raise (.internal (.invalidGenerator (.call operator arguments))))
  | .someDecl symbols, k => Search.extending (fun b => some (b.hideAll symbols)) k
  | .every key value domain body, k => Search.after (Search.first (evalTerm domain)) fun
    | none => k
    | some domain => Search.after
      (forAll (fun entry => do
        step env.checkpoint
        extending (Bindings.bindEntry key value entry) false
          (Search.gather (evalBody body (Search.leaf (.accept fun _ => true))) false)) domain.entries)
      fun holds => if holds then k else Search.leaf .exhausted

def evalOverrides : List (Term × Term) → Scope → Eval (Option Scope)
  | [], scope => pure (some scope)
  | (target, replacement) :: rest, scope =>
    match env.overrideTarget target with
    | .error e => throw e
    | .ok target =>
      match env.mockedBy? target replacement with
      | some (name, other) => evalOverrides rest (scope.mock name (.alias other))
      | none => do
        match ← Search.first (evalTerm replacement) with
        | none => pure none
        | some value => evalOverrides rest (← step (scope.override target value))

def evalExpr {α : Type} : Expr → Search α → Search α
  | .mk kind negated overrides index, k =>
    let text : Unit → String := fun _ => (Expr.mk kind negated overrides index).text
    let search {β : Type} (k : Search β) : Search β :=
      if negated then
        Search.after (Search.gather (evalKind kind (Search.leaf (.accept fun _ => true))) false) fun holds =>
          if holds then Search.leaf .exhausted else k
      else evalKind kind k
    Search.after (step do
        env.checkpoint
        let depth := (← get).depth
        env.emit .eval depth text
        pure depth) fun depth =>
      Search.orElse
        (if overrides.isEmpty then search (Search.noting k)
        else Search.afterSome (do evalOverrides overrides (← get).state.scope) fun scope =>
          Search.inScope scope search (Search.noting k))
        (step (env.emit .fail depth text))

def evalBody {α : Type} : List Expr → Search α → Search α
  | [], k => k
  | e :: rest, k => evalExpr e (evalBody rest k)

end

/-! ## Rules -/

def evalClause (rs : RuleSet) (args : Option (List Term)) (clause : Clause) : Eval (Option Term) := do
  let depth := (← get).state.depth
  step (env.emit .enter depth fun _ => rs.name)
  let constant := clause.value.isGround && !clause.value.needsEval
  let body := evalBody env rules clause.body
    (Search.endingWith (if constant then .stop else .more)
      (evalTerm env rules clause.value fun value => Search.leaf (.ground (fun value =>
        .after (env.emit .exit depth fun _ => rs.name) fun _ => Env.acceptValue rs value) value)))
  Search.gather
    (match args with
    | none => body
    | some args => Search.extending (Bindings.unifyAll clause.head.params args) body) none

def evalChain (rs : RuleSet) (args : Option (List Term)) : List Clause → Eval (Option Term)
  | [] => pure none
  | clause :: rest => do
    match ← evalClause env rules rs args clause with
    | some value => pure (some value)
    | none => evalChain rs args rest

def evalAgreeing (rs : RuleSet) (args : Option (List Term)) (keep : Term → Term → Term) :
    List Rule → Option Term → Eval (Option Term)
  | [], found => pure found
  | rule :: rest, found => do
    match found, ← evalChain env rules rs args rule.clauses with
    | found, none => evalAgreeing rs args keep rest found
    | none, some value => evalAgreeing rs args keep rest (some value)
    | some old, some value =>
      if old == value then evalAgreeing rs args keep rest (some (keep old value))
      else throw (Env.valueConflict rs old value)

def candidates (rs : RuleSet) : Eval (List Rule) := do
  let index := RuleIndex.build env.policy.overlaps rs.rules
  if !env.options.indexed || index.isEmpty then return rs.rules
  let positions ← ExceptT.mk (index.candidates fun reference => (resolve env rules reference).run)
  return positions.filterMap fun i => rs.rules[i]?

def evalComplete (rs : RuleSet) : Eval (Option Term) := do
  match ← evalAgreeing env rules rs none (fun old _ => old) (← candidates env rules rs) none with
  | some value => pure (some value)
  | none =>
    match rs.default with
    | some rule => evalClause env rules rs none rule.first
    | none => pure none

def deriveMembers (rs : RuleSet) (members : List Term) (rule : Rule) : Eval (List Term) := do
  match rule.first.head.key with
  | none => pure members
  | some key =>
    let depth := (← get).state.depth
    step (env.emit .enter depth fun _ => rs.name)
    Search.gather
      (evalBody env rules rule.first.body (evalTerm env rules key fun member => Search.leaf (.ground (fun member =>
        .after (env.emit .exit depth fun _ => rs.name) fun _ => .collect (Term.insertMember member)) member)))
      members

def deriveFields (rs : RuleSet) (fields : List (Term × Term)) (rule : Rule) : Eval (List (Term × Term)) := do
  match rule.first.head.key with
  | none => pure fields
  | some key =>
    let depth := (← get).state.depth
    step (env.emit .enter depth fun _ => rs.name)
    Search.gather
      (evalBody env rules rule.first.body (evalTerm env rules key fun key =>
        evalTerm env rules rule.first.value fun value =>
          Search.leaf (.addUnique (fun key old new => .conflict rs.name (.documentKey key old new))
            (env.emit .exit depth fun _ => rs.name) key value)))
      fields

def evalDocument (rs : RuleSet) : Eval (Option Term) := do
  match rs.kind with
  | .complete => evalComplete env rules rs
  | .partialSet =>
    let members ← (← candidates env rules rs).foldlM (deriveMembers env rules rs) []
    return some (.set members)
  | .partialObject =>
    let fields ← (← candidates env rules rs).foldlM (deriveFields env rules rs) []
    return some (.object fields)
  | .function => pure none

def evalFunction (rs : RuleSet) (args : List Term) : Eval (Option Term) :=
  evalAgreeing env rules rs (some args) (fun _ new => new) rs.rules none

end

/-! ## Nesting -/

def recalling (rs : RuleSet) (m : Eval (Option Term)) : Eval (Option Term) := do
  if rs.kind = .function then return none
  match (← get).state.remembered? rs.path with
  | some value => pure value
  | none =>
    let value ← m
    step (modify fun s => s.remember rs.path value)
    pure value

def entering (env : Env) (rs : RuleSet) (m : Eval β) : Eval β := ExceptT.mk fun c =>
  let s := c.state
  if s.inProgress.contains rs.name then
    let e := .recursion (s.inProgress ++ [rs.name])
    (.error e, c.refuse e)
  else if env.options.maxDepth ≤ s.depth then
    let e := .internal (.depthExceeded rs.name)
    (.error e, c.refuse e)
  else
    let (r, c') := m.run (c.go
      { s with bindings := {}, inProgress := s.inProgress ++ [rs.name], depth := s.depth + 1 })
    let s' := c'.state
    (r, c'.go { s' with bindings := s.bindings, inProgress := s'.inProgress.dropLast, depth := s'.depth - 1 })

def rulesTo (env : Env) : Nat → RuleSemantics
  | 0 =>
    { document := fun rs => throw (.recursion [rs.name])
      function := fun rs _ => throw (.recursion [rs.name]) }
  | n + 1 =>
    { document := fun rs => recalling rs (entering env rs (evalDocument env (rulesTo env n) rs))
      function := fun rs args => entering env rs (evalFunction env (rulesTo env n) rs args) }

def rules (env : Env) : RuleSemantics := rulesTo env (env.policy.ruleSets.length + 1)

/-! ## Queries -/

def evalQuery (env : Env) (body : Body) (deliver : Solution → α → Reply × α) : Search α :=
  Search.after (step do
      let depth := (← get).depth
      env.emit .enter depth fun _ => "query"
      pure depth) fun depth =>
    evalBody env (rules env) body (Search.leaf (.after (env.emit .exit depth fun _ => "query") fun _ found s =>
      let (reply, found) := deliver (Query.solution (Query.vars body) s.bindings) found
      ⟨.ok reply.flow, found, { s with cancelled := s.cancelled || reply.cancel }⟩))

def evalPath (env : Env) (path : DataPath) : Eval (Option Term) := document env (rules env) path

end Course
end PolicyEngine
