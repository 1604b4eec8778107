import PolicyEngine.Eval.Body

/-!
The evaluation of rules. A rule set is evaluated in an environment of its own. Its document is computed once
in each scope, and a rule set that asks for itself, directly or through others, is an error.
-/
namespace PolicyEngine

/-- Unifies parameters with the operands of a call. -/
def Bindings.unifyAll (params args : List Term) (b : Bindings) : Option Bindings :=
  if params.length == args.length then (params.zip args).foldlM (fun b (p, a) => b.unify p a) b else none

namespace Env

variable (env : Env) (rules : RuleSemantics)

/-- Two values of one document or function call. -/
def valueConflict (rs : RuleSet) (first second : Term) : EvalError :=
  .conflict rs.name (if rs.kind = .function then .functionValue first second else .completeValue first second)

/-! ## Clauses -/

/-- Accepts a value of a clause, which has to equal the one found before. -/
def acceptValue (rs : RuleSet) (value : Term) : Search (Option Term) := fun found =>
  match found with
  | none => Search.accept (fun _ => some value) found
  | some old => if old == value then Search.accept id found else Search.raise (valueConflict rs old value) found

/-- The value of a clause: that of its head in all environments in which its body holds. Once a head without
variables has its value no other environment is looked for. -/
def evalClause (rs : RuleSet) (args : Option (List Term)) (clause : Clause) : Eval (Option Term) := do
  let depth := (← get).depth
  env.emit .enter depth fun _ => rs.name
  let constant := clause.value.isGround && !clause.value.needsEval
  let body := env.evalBody rules clause.body
    (Search.endingWith (if constant then .stop else .more)
      (env.evalTerm rules clause.value (Search.ground fun value =>
        Search.after (env.emit .exit depth fun _ => rs.name) fun _ => acceptValue rs value)))
  Search.gather
    (match args with
    | none => body
    | some args => Search.extending (Bindings.unifyAll clause.head.params args) body) none

/-- The value of the first clause that has one. -/
def evalChain (rs : RuleSet) (args : Option (List Term)) : List Clause → Eval (Option Term)
  | [] => pure none
  | clause :: rest => do
    match ← env.evalClause rules rs args clause with
    | some value => pure (some value)
    | none => evalChain rs args rest

/-- The value on which rules agree. `keep` chooses which of equal values stays. -/
def evalAgreeing (rs : RuleSet) (args : Option (List Term)) (keep : Term → Term → Term) :
    List Rule → Option Term → Eval (Option Term)
  | [], found => pure found
  | rule :: rest, found => do
    match found, ← env.evalChain rules rs args rule.clauses with
    | found, none => evalAgreeing rs args keep rest found
    | none, some value => evalAgreeing rs args keep rest (some value)
    | some old, some value =>
      if old == value then evalAgreeing rs args keep rest (some (keep old value))
      else throw (valueConflict rs old value)

/-! ## Documents and functions -/

/-- The rules that may succeed. -/
def candidates (rs : RuleSet) : Eval (List Rule) := do
  let index := RuleIndex.build env.policy.overlaps rs.rules
  if !env.options.indexed || index.isEmpty then return rs.rules
  let positions ← ExceptT.mk (index.candidates fun reference => (env.resolve rules reference).run)
  return positions.filterMap fun i => rs.rules[i]?

def evalComplete (rs : RuleSet) : Eval (Option Term) := do
  match ← env.evalAgreeing rules rs none (fun old _ => old) (← env.candidates rules rs) none with
  | some value => pure (some value)
  | none =>
    match rs.default with
    | some rule => env.evalClause rules rs none rule.first
    | none => pure none

/-- Adds the members that a rule derives. -/
def deriveMembers (rs : RuleSet) (members : List Term) (rule : Rule) : Eval (List Term) := do
  match rule.first.head.key with
  | none => pure members
  | some key =>
    let depth := (← get).depth
    env.emit .enter depth fun _ => rs.name
    Search.gather
      (env.evalBody rules rule.first.body (env.evalTerm rules key (Search.ground fun member =>
        Search.after (env.emit .exit depth fun _ => rs.name) fun _ => Search.collect (Term.insertMember member))))
      members

/-- Adds the fields that a rule derives. -/
def deriveFields (rs : RuleSet) (fields : List (Term × Term)) (rule : Rule) : Eval (List (Term × Term)) := do
  match rule.first.head.key with
  | none => pure fields
  | some key =>
    let depth := (← get).depth
    env.emit .enter depth fun _ => rs.name
    Search.gather
      (env.evalBody rules rule.first.body (env.evalTerm rules key fun key =>
        env.evalTerm rules rule.first.value fun value =>
          Search.addUnique (fun key old new => .conflict rs.name (.documentKey key old new))
            (env.emit .exit depth fun _ => rs.name) key value))
      fields

/-- The document that the rules of a set define. -/
def evalDocument (rs : RuleSet) : Eval (Option Term) := do
  match rs.kind with
  | .complete => env.evalComplete rules rs
  | .partialSet =>
    let members ← (← env.candidates rules rs).foldlM (env.deriveMembers rules rs) []
    return some (.set members)
  | .partialObject =>
    let fields ← (← env.candidates rules rs).foldlM (env.deriveFields rules rs) []
    return some (.object fields)
  | .function => pure none

/-- The value of a function. -/
def evalFunction (rs : RuleSet) (args : List Term) : Eval (Option Term) :=
  env.evalAgreeing rules rs (some args) (fun _ new => new) rs.rules none

end Env

/-! ## Nesting -/

/-- The document of a rule set, computed unless it is known in the current scope. -/
def RuleSet.recalling (rs : RuleSet) (m : Eval (Option Term)) : Eval (Option Term) := do
  if rs.kind = .function then return none
  match (← get).remembered? rs.path with
  | some value => pure value
  | none =>
    let value ← m
    modify fun s => s.remember rs.path value
    pure value

namespace Env

/-- Evaluates a rule set within those in progress, in an environment of its own. In the end the last rule set in progress
is taken away again. -/
def entering (env : Env) (rs : RuleSet) (m : Eval β) : Eval β := ExceptT.mk fun s =>
  if s.inProgress.contains rs.name then (.error (.recursion (s.inProgress ++ [rs.name])), s)
  else if env.options.maxDepth ≤ s.depth then (.error (.internal (.depthExceeded rs.name)), s)
  else
    let (r, s') := m.run
      { s with bindings := {}, inProgress := s.inProgress ++ [rs.name], depth := s.depth + 1 }
    (r, { s' with bindings := s.bindings, inProgress := s'.inProgress.dropLast, depth := s'.depth - 1 })

/-- The meaning of rules nested to a depth. -/
def rulesTo (env : Env) : Nat → RuleSemantics
  | 0 =>
    { document := fun rs => throw (.recursion [rs.name])
      function := fun rs _ => throw (.recursion [rs.name]) }
  | n + 1 =>
    { document := fun rs => rs.recalling (env.entering rs (env.evalDocument (rulesTo env n) rs))
      function := fun rs args => env.entering rs (env.evalFunction (rulesTo env n) rs args) }

/-- The meaning of the rules of the policy. The rule sets in progress all have different names, so they are
never nested deeper than their number. -/
def rules (env : Env) : RuleSemantics := env.rulesTo (env.policy.ruleSets.length + 1)

end Env
end PolicyEngine
