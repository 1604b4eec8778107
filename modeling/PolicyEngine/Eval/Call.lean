import PolicyEngine.Eval.Document

/-!
Calls: which function a name stands for, and what it answers.
-/
namespace PolicyEngine

/-- What a call runs. -/
inductive Callee where
  | builtin (b : Builtin)
  | rules (rs : RuleSet)
  | constant (value : Term)

/-- The function takes undefined operands. -/
def Callee.lenient : Callee → Bool
  | .builtin b => b.lenient
  | _ => false

namespace Env

variable (env : Env) (rules : RuleSemantics)

/-- The function defined by rules at a dotted name. -/
def ruleFunction? (name : String) : Option RuleSet :=
  ((DataPath.parse? name).bind env.policy.ruleSet?).filter fun rs => rs.kind = .function

/-- The function with a name, and the number of its operands if that is fixed. Rules come before
built-ins. -/
def function? (name : String) : Option (Callee × Option Nat) :=
  match env.ruleFunction? name with
  | some rs => some (.rules rs, some rs.arity)
  | none => (env.registry.get? name).map fun b => (.builtin b, b.arity?)

def function (name : String) : Except EvalError (Callee × Option Nat) :=
  match env.function? name with
  | some found => .ok found
  | none => .error (.internal (.unknownFunction name))

/-- The function to call for a name under the overrides in force. What stands in for a function is called
with as many operands as the function has. -/
def resolveFunction (name : String) : Eval (Callee × Option Nat) := do
  let (callee, arity) ← Eval.ofExcept (env.function name)
  match ((← get).scope.functions.find? fun (n, _) => n == name).map Prod.snd with
  | none => pure (callee, arity)
  | some (.value v) => pure (.constant v, arity)
  | some (.alias target) =>
    let (callee, _) ← Eval.ofExcept (env.function target)
    pure (callee, arity)

/-- The position of the operand that receives the result of a call: the one after the last, if there is one
too many. -/
def outputPosition (arity : Option Nat) (count : Nat) : Option Nat :=
  arity.filter fun n => count == n + 1

/-- What a failing built-in answers, or that the evaluation fails. -/
def failedCall (b : Builtin) (args : List Term) (e : BuiltinError) : Except EvalError (Option Term) :=
  if b.lenient then .ok (some (.bool true))
  else if env.options.strict then .error (.builtin b.name args e)
  else .ok none

/-- Runs a built-in. -/
def runBuiltin (b : Builtin) (args : List Term) : Eval (Option Term) := do
  let s ← get
  let (result, host) := b.invoke ⟨b.name, env.time, s.depth, env.options.tracing⟩ args s.host
  set { s with host := host }
  match result with
  | .ok value => pure value
  | .error e => Eval.ofExcept (env.failedCall b args e)

/-- The answer of a built-in to operands. A call with unbound operands is undefined, and a nondeterministic
built-in keeps to its first answer. -/
def callBuiltin (b : Builtin) (args : List Term) : Eval (Option Term) := do
  if !args.all Term.isGround then return none
  if !b.lenient then Eval.ofExcept (b.checkOperands args)
  if b.deterministic then env.runBuiltin b args
  else match (← get).answered? b.name args with
    | some answer => pure answer
    | none =>
      let answer ← env.runBuiltin b args
      modify fun s => { s with answers := ⟨b.name, args, answer⟩ :: s.answers }
      pure answer

/-- The value of a call. -/
def apply (callee : Callee) (args : List Term) : Eval (Option Term) :=
  match callee with
  | .builtin b => env.callBuiltin b args
  | .rules rs => if args.all Term.isGround then rules.function rs args else pure none
  | .constant v => pure (some v)

/-! ## Overrides -/

/-- What an override replaces. -/
inductive OverrideTarget where
  | input (path : List String)
  | data (path : DataPath)
  | function (name : String)

/-- The document or function that a reference replaces. -/
def overrideTarget (target : Term) : Except EvalError OverrideTarget :=
  match RefChain.ofTerm? target with
  | none => .error (.internal (.invalidOverride target))
  | some chain =>
    match chain.name? with
    | none => .error (.internal (.invalidOverride target))
    | some name =>
      match chain.root with
      | "input" => .ok (.input chain.keys)
      | "data" =>
        if (env.policy.ruleSet? chain.keys).any (·.kind = .function) then .ok (.function (DataPath.name chain.keys))
        else .ok (.data chain.keys)
      | _ => if env.registry.contains name then .ok (.function name) else .error (.internal (.invalidOverride target))

/-- The function that a replacement names, when a function is to be replaced. -/
def mockedBy? (target : OverrideTarget) (replacement : Term) : Option (String × String) :=
  match target with
  | .function name => (replacement.refName?.filter fun n => (env.function? n).isSome).map fun n => (name, n)
  | _ => none

end Env

namespace Scope

def mock (name : String) (m : Mock) (s : Scope) : Scope := { s with functions := (name, m) :: s.functions }

/-- Puts a value in place of a document or a function. -/
def override (target : Env.OverrideTarget) (value : Term) (s : Scope) : Eval Scope :=
  match target with
  | .input path => do return { s with input := some (← setIn value (s.input.getD Term.emptyObject) path) }
  | .data path => pure { s with data := s.data ++ [(path, value)] }
  | .function name => pure (s.mock name (.value value))

end Scope
end PolicyEngine
