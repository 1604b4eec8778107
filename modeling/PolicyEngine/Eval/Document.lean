import PolicyEngine.Eval.Search

/-!
Documents below `data`. A document comes from the overrides in force, from the rules of the policy or from
the store; where they overlap, rules are laid over stored documents and overrides over both.
-/
namespace PolicyEngine

/-- How the rules of a policy are evaluated: the document of a rule set, and the value of a function. -/
structure RuleSemantics where
  document : RuleSet → Eval (Option Term)
  function : RuleSet → List Term → Eval (Option Term)

/-- Writes a value into a document. -/
def setIn (value doc : Term) (path : List String) : Eval Term :=
  Eval.ofExcept ((Term.setPath value doc path).mapError fun e => .internal (.unsettable e))

namespace Scope

/-- The document at a path as an override gives it, and the overrides made after that one. -/
def covering? (path : DataPath) : List (DataPath × Term) → Option (Option Term × List (DataPath × Term))
  | [] => none
  | (p, doc) :: later =>
    match covering? path later with
    | some found => some found
    | none => if p.isPrefixOf path then some (doc.lookupKeys (path.drop p.length), later) else none

/-- The overrides strictly below a path. -/
def below (path : DataPath) (overrides : List (DataPath × Term)) : List (DataPath × Term) :=
  overrides.filter fun (p, _) => path.length < p.length && path.isPrefixOf p

/-- An override replaces the document at a path, a part of it, or a document around it. -/
def touches (path : DataPath) (s : Scope) : Bool :=
  s.data.any fun (p, _) => path.isPrefixOf p || p.isPrefixOf path

end Scope

namespace Env

variable (env : Env) (rules : RuleSemantics)

/-- Lays the documents of rule sets over a stored document at a path. -/
def layRules (path : DataPath) : List RuleSet → Term → Eval Term
  | [], doc => pure doc
  | rs :: rest, doc => do
    if rs.kind = .function then layRules path rest doc
    else match ← rules.document rs with
      | some value => layRules path rest (← setIn value doc (rs.path.drop path.length))
      | none => layRules path rest doc

/-- The document at a path without overrides. -/
def baseDocument (path : DataPath) : Eval (Option Term) := do
  match env.policy.covering? path with
  | some rs => return (← rules.document rs).bind fun doc => doc.lookupKeys (path.drop rs.path.length)
  | none =>
    let stored ← env.read (StorePath.ofKeys path)
    match env.policy.below path with
    | [] => return stored
    | sets =>
      let doc := match stored with
        | some (.object fields) => .object fields
        | _ => Term.emptyObject
      return some (← layRules rules path sets doc)

/-- Lays overrides over a document at a path. -/
def layOverrides (path : DataPath) : List (DataPath × Term) → Option Term → Eval (Option Term)
  | [], doc => pure doc
  | (p, value) :: rest, doc => do
    layOverrides path rest (some (← setIn value (doc.getD Term.emptyObject) (p.drop path.length)))

/-- The document at a path under the overrides in force. -/
def document (path : DataPath) : Eval (Option Term) := do
  let overrides := (← get).scope.data
  match Scope.covering? path overrides with
  | some (doc, later) => layOverrides path (Scope.below path later) doc
  | none => layOverrides path (Scope.below path overrides) (← env.baseDocument rules path)

/-- The value of a reference with scalar operands, for the index of a rule set. -/
def resolve (reference : Term) : Eval (Option Term) := do
  match RefChain.ofTerm? reference with
  | none => return none
  | some chain =>
    let base ← match chain.root with
      | "input" => pure ((← get).scope.input.bind fun doc => doc.lookupKeys chain.keys)
      | "data" => env.document rules chain.keys
      | _ => pure none
    return base.bind fun doc => chain.rest.foldlM (fun t key => t.lookup key) doc

end Env
end PolicyEngine
