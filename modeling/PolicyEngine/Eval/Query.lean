import PolicyEngine.Eval.Rules

/-!
Queries: bodies whose solutions are reported to the caller, each with the values of the variables of the query.
-/
namespace PolicyEngine

/-- One solution of a query: the values of its variables, in the order of their names. -/
structure Solution where
  bindings : List (String × Term)

/-- What the caller wants after a solution. -/
structure Reply where
  flow : Flow := .more
  /-- Asks for the evaluation to be cancelled. -/
  cancel : Bool := false

namespace Query

/-- Variables whose values are reported: not those of the language and not generated ones. -/
def isReported (name : String) : Bool :=
  !isRoot name && name != wildcard && !("$".isPrefixOf name) && !("__".isPrefixOf name)

/-- The variables of a term, without the operator of a call. -/
def operandVars : Term → List String
  | .call _ arguments => Term.listVars arguments
  | t => t.vars

/-- The variables of an expression outside its local scopes. -/
def exprVars (e : Expr) : List String :=
  match e.kind with
  | .term t => operandVars t
  | .someDecl symbols => symbols.flatMap operandVars
  | .every _ _ domain _ => domain.vars

/-- The variables reported for a query, in order. -/
def vars (body : Body) : List String := (sortNames (body.flatMap exprVars)).filter isReported

/-- The values of those variables that have one. -/
def solution (names : List String) (b : Bindings) : Solution :=
  ⟨names.filterMap fun name =>
    let value := b.plug (.var name)
    if value.isGround then some (name, value) else none⟩

/-- The JSON object of the values of a solution. -/
def bindingsToJson : List (String × Term) → Except Term.SerializeError (List (String × Json))
  | [] => .ok []
  | (name, t) :: rest =>
    match t.toJson with
    | .error e => .error e
    | .ok value => (bindingsToJson rest).map ((name, value) :: ·)

/-- The JSON value of the solutions of a query; without solutions it has no field. -/
def solutionsToJson (solutions : List Solution) : Except Term.SerializeError Json :=
  if solutions.isEmpty then .ok (.object [])
  else do
    let items ← solutions.mapM fun s => do
      return Json.object [("bindings", .object (← bindingsToJson s.bindings))]
    return .object [("result", .array items)]

end Query

namespace Env

/-- Hands the solutions of a query to a caller until it wants no more. -/
def evalQuery (env : Env) (body : Body) (deliver : Solution → α → Reply × α) : Search α :=
  Search.after (do
      let depth := (← get).depth
      env.emit .enter depth fun _ => "query"
      pure depth) fun depth =>
    env.evalBody env.rules body (Search.after (env.emit .exit depth fun _ => "query") fun _ found s =>
      let (reply, found) := deliver (Query.solution (Query.vars body) s.bindings) found
      ⟨.ok reply.flow, found, { s with cancelled := s.cancelled || reply.cancel }⟩)

/-- The document at a path. -/
def evalPath (env : Env) (path : DataPath) : Eval (Option Term) := env.document env.rules path

end Env
end PolicyEngine
