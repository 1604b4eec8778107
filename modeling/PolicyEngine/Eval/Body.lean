import PolicyEngine.Builtin.Core
import PolicyEngine.Eval.Call

/-!
The evaluation of terms, expressions and bodies. Every function here is a search by recursion on the text of
the policy: a term is searched for its values, a body for the environments in which it holds. What rules
mean is a parameter.
-/
namespace PolicyEngine

/-- The segment that addresses the part of a stored document under a key, if the store can address it. -/
def PathSegment.ofTerm? : Term → Option PathSegment
  | .string s => some (.key s)
  | .number n => if n.isInteger then n.toUnsigned?.map .index else none
  | _ => none

/-- How far a reference has been followed: to a value, to a key below a stored document, or to a path below
`data` that rules may have to do with. -/
inductive Cursor where
  | value (value : Term)
  | child (parent : StorePath) (segment : PathSegment) (key : Term)
  | data (path : DataPath)

/-- What the next operand of a reference is looked up in; the data path includes that operand already. -/
inductive Footing where
  | value (value : Term)
  | stored (path : StorePath)
  | data (path : DataPath)

namespace Search

/-- Goes on with a value in which no variable is left. -/
def ground (k : Term → Search α) (t : Term) : Search α := withBindings fun b =>
  let t := b.plug t
  if t.isGround then k t else exhausted

/-- The first ground value that a search hands on. -/
def first (search : (Term → Search (Option Term)) → Search (Option Term)) : Eval (Option Term) :=
  gather (search (ground fun t => accept fun _ => some t)) none

/-- Adds a field to an object, where a key may have one value only. -/
def addUnique (conflict : Term → Term → Term → EvalError) (note : Eval Unit) (key value : Term) :
    Search (List (Term × Term)) :=
  ground (fun value => ground (fun key fields =>
    match (Term.findField? key fields).filter fun old => !(old == value) with
    | some old => raise (conflict key old value) fields
    | none => after note (fun _ => collect (Term.insertField key value)) fields) key) value

end Search

/-- Binds the patterns of a quantifier or a generator to a key and the value under it. -/
def Bindings.bindEntry (key : Option Term) (value : Term) (entry : Term × Term) (b : Bindings) : Option Bindings :=
  match key with
  | some pattern => (b.bindLocal pattern entry.1).bind fun b => b.bindLocal value entry.2
  | none => b.bindLocal value entry.2

/-- The names of the documents at the head of references. -/
def isRoot (name : String) : Bool := name == "input" || name == "data"

/-- The name of a root document, unless it is bound as a variable. -/
def Bindings.root? (b : Bindings) : Term → Option String
  | .var name => if isRoot name && (b.lookup name).isNone then some name else none
  | _ => none

/-- The one operand that the values found for an operand make. -/
def lenientOperand : List Term → Term
  | [] => .string Builtin.undefinedOperand
  | [t] => t
  | ts => .set ts

namespace Env

variable (env : Env) (rules : RuleSemantics)

/-- The document at the end of a reference. Members of a stored set have no path of their own. -/
def arrive : Cursor → Eval (Option Term)
  | .value v => pure (some v)
  | .data path => env.document rules path
  | .child parent segment key => do
    match ← env.read (parent ++ [segment]) with
    | some v => pure (some v)
    | none =>
      match ← env.read parent with
      | some (.set members) => pure (if Term.containsMember key members then some key else none)
      | _ => pure none

/-- Finds what an operand is to be looked up in. A path is followed key by key while rules lie below it;
where no rule and no override has to do with it the store is asked for parts, and otherwise the whole
document is needed. -/
def settle (operand : Term) : Cursor → Eval (Option Footing)
  | .value v => pure (some (.value v))
  | .child parent segment _ => pure (some (.stored (parent ++ [segment])))
  | .data path => do
    let s ← get
    let whole : Eval (Option Footing) := do return (← env.document rules path).map .value
    if !env.policy.overlaps path then
      if s.scope.touches path then whole else pure (some (.stored (StorePath.ofKeys path)))
    else if (env.policy.ruleSet? path).isSome then whole
    else match s.bindings.plug operand with
      | .string key => pure (some (.data (path ++ [key])))
      | _ => whole

/-- The document with a root name. -/
def rootCursor (name : String) : Eval (Option Cursor) := do
  if name == "input" then return (← get).scope.input.map .value
  else return some (.data [])

mutual

/-- The values of a term. An unbound variable is its own value. -/
def evalTerm {α : Type} : Term → (Term → Search α) → Search α
  | .var name, k => Search.withBindings fun b =>
    match b.deref (.var name) with
    | .var unbound =>
      if isRoot unbound then
        Search.afterSome (rootCursor unbound) fun c => Search.afterSome (env.arrive rules c) k
      else k (.var unbound)
    | value => k (b.plug value)
  | .ref head operands, k => Search.withBindings fun b =>
    match b.root? head with
    | some name => Search.afterSome (rootCursor name) fun c => walk c operands k
    | none => evalTerm head fun
      | .var _ => Search.exhausted
      | v => walk (.value v) operands k
  | .call operator arguments, k =>
    match operator.refName? with
    | none => Search.raise (.internal (.invalidOperator operator))
    | some name => Search.after (env.resolveFunction name) fun (callee, _) =>
      evalCall callee none arguments [] k Search.exhausted
  | .arrayCompr term body, k =>
    Search.after (Search.gather (evalBody body
      (evalTerm term (Search.ground fun t => Search.collect fun items => items.push t))) #[])
      fun items => k (.array items.toList)
  | .setCompr term body, k =>
    Search.after (Search.gather (evalBody body
      (evalTerm term (Search.ground fun t => Search.collect (Term.insertMember t)))) [])
      fun members => k (.set members)
  | .objectCompr key value body, k =>
    Search.after (Search.gather (evalBody body (evalTerm key fun key => evalTerm value fun value =>
      Search.addUnique (fun key old new => .conflict "object comprehension" (.comprehensionKey key old new))
        (pure ()) key value)) [])
      fun fields => k (.object fields)
  | .array items, k =>
    if Term.anyNeedsEval items then evalTerms items fun items => k (.array items)
    else Search.withBindings fun b => k (b.plug (.array items))
  | .set members, k =>
    if Term.anyNeedsEval members then evalTerms members fun members => k (Term.setOf members)
    else Search.withBindings fun b => k (b.plug (.set members))
  | .object fields, k =>
    if Term.fieldsNeedEval fields then evalFields fields fun fields => k (Term.objectOf fields)
    else Search.withBindings fun b => k (b.plug (.object fields))
  | t, k => k t

/-- The values of all terms of a list, in every combination. -/
def evalTerms {α : Type} : List Term → (List Term → Search α) → Search α
  | [], k => k []
  | t :: rest, k => evalTerm t fun v => evalTerms rest fun vs => k (v :: vs)

/-- The values of all keys and values of a list, in every combination. -/
def evalFields {α : Type} : List (Term × Term) → (List (Term × Term) → Search α) → Search α
  | [], k => k []
  | (key, value) :: rest, k =>
    evalTerm key fun x => evalTerm value fun y => evalFields rest fun fields => k ((x, y) :: fields)

/-- The values at the end of a reference. An operand with unbound variables stands for every key it can be
unified with. -/
def walk {α : Type} : Cursor → List Term → (Term → Search α) → Search α
  | c, [], k => Search.afterSome (env.arrive rules c) k
  | c, operand :: rest, k => Search.afterSome (env.settle rules operand c) fun
    | .data path => walk (.data path) rest k
    | .value v => evalTerm operand fun key => Search.withBindings fun b =>
      let key := b.plug key
      if key.isGround then
        match v.lookup key with
        | some v => walk (.value v) rest k
        | none => Search.exhausted
      else Search.each v.entries fun (name, v) => Search.after env.checkpoint fun _ =>
        Search.unifying key name (walk (.value v) rest k)
    | .stored path => evalTerm operand fun key => Search.withBindings fun b =>
      let key := b.plug key
      if key.isGround then
        match PathSegment.ofTerm? key with
        | some segment => walk (.child path segment key) rest k
        | none => Search.afterSome (do return (← env.read path).bind (·.lookup key)) fun v =>
          walk (.value v) rest k
      else Search.afterSome (env.listKeys path) fun names => Search.each names fun name =>
        Search.after env.checkpoint fun _ => Search.unifying key name
          (match PathSegment.ofTerm? name with
          | some segment => walk (.child path segment name) rest k
          | none => walk (.value name) rest k)

/-- The values of a call. The operand at the output position, if there is one, is unified with the value, and
the search goes on with `done`. -/
def evalCall {α : Type} (callee : Callee) (output : Option Nat) :
    List Term → List Term → (Term → Search α) → Search α → Search α
  | [], operands, k, _ => Search.afterSome (env.apply rules callee operands.reverse) k
  | t :: rest, operands, k, done =>
    if output = some operands.length then
      Search.afterSome (env.apply rules callee operands.reverse) fun result =>
        evalTerm t fun t => Search.unifying t result done
    else if callee.lenient then
      Search.after (Search.gather (evalTerm t (Search.ground fun t => Search.collect (Term.insertMember t))) [])
        fun values => evalCall callee output rest (lenientOperand values :: operands) k done
    else evalTerm t fun v => evalCall callee output rest (v :: operands) k done

/-- The environments in which what an expression asks holds. -/
def evalKind {α : Type} : ExprKind → Search α → Search α
  | .term (.call operator arguments), k =>
    match operator.refName? with
    | none => Search.raise (.internal (.invalidOperator operator))
    | some name =>
      match name == "eq" || name == "assign", arguments with
      | true, [x, y] => evalTerm x fun x => evalTerm y fun y => Search.unifying x y k
      | _, arguments => Search.after (env.resolveFunction name) fun (callee, arity) =>
        evalCall callee (outputPosition arity arguments.length) arguments []
          (fun result => if result == .bool false then Search.exhausted else k) k
  | .term t, k => evalTerm t fun
    | .bool false | .var _ => Search.exhausted
    | _ => k
  | .someDecl [.call operator arguments], k =>
    match operator.refName?, arguments with
    | some "internal.member_2", [value, domain] => evalTerm domain fun domain =>
      Search.each domain.entries fun entry => Search.after env.checkpoint fun _ =>
        Search.extending (Bindings.bindEntry none value entry) k
    | some "internal.member_3", [key, value, domain] => evalTerm domain fun domain =>
      Search.each domain.entries fun entry => Search.after env.checkpoint fun _ =>
        Search.extending (Bindings.bindEntry (some key) value entry) k
    | _, arguments => Search.raise (.internal (.invalidGenerator (.call operator arguments)))
  | .someDecl symbols, k => Search.extending (fun b => some (b.hideAll symbols)) k
  | .every key value domain body, k => Search.after (Search.first (evalTerm domain)) fun
    | none => k
    | some domain => Search.after
      (Eval.forAll (fun entry => do
        env.checkpoint
        Eval.extending (Bindings.bindEntry key value entry) false
          (Search.gather (evalBody body (Search.accept fun _ => true)) false)) domain.entries)
      fun holds => if holds then k else Search.exhausted

/-- Adds overrides to a scope; nothing when a replacement is undefined. -/
def evalOverrides : List (Term × Term) → Scope → Eval (Option Scope)
  | [], scope => pure (some scope)
  | (target, replacement) :: rest, scope =>
    match env.overrideTarget target with
    | .error e => throw e
    | .ok target =>
      match env.mockedBy? target replacement with
      | some (name, other) => evalOverrides rest (scope.mock name (.alias other))
      | none => do
        match ← Search.first (evalTerm replacement) with
        | none => pure none
        | some value => evalOverrides rest (← scope.override target value)

/-- The environments in which an expression holds. -/
def evalExpr {α : Type} : Expr → Search α → Search α
  | .mk kind negated overrides index, k =>
    let text : Unit → String := fun _ => (Expr.mk kind negated overrides index).text
    let search {β : Type} (k : Search β) : Search β :=
      if negated then
        Search.after (Search.gather (evalKind kind (Search.accept fun _ => true)) false) fun holds =>
          if holds then Search.exhausted else k
      else evalKind kind k
    Search.after (do
        env.checkpoint
        let depth := (← get).depth
        env.emit .eval depth text
        pure depth) fun depth =>
      Search.orElse
        (if overrides.isEmpty then search (Search.noting k)
        else Search.afterSome (do evalOverrides overrides (← get).scope) fun scope =>
          Search.inScope scope search (Search.noting k))
        (env.emit .fail depth text)

/-- The environments in which a body holds. -/
def evalBody {α : Type} : List Expr → Search α → Search α
  | [], k => k
  | e :: rest, k => evalExpr e (evalBody rest k)

end

end Env
end PolicyEngine
