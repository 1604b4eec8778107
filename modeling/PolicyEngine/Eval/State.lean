import PolicyEngine.Builtin.Basic
import PolicyEngine.Eval.Bindings
import PolicyEngine.Policy.Index
import PolicyEngine.Store

/-!
The state of an evaluation, and what stays fixed throughout it.
-/
namespace PolicyEngine

/-- How a query is to be evaluated. -/
structure Options where
  /-- A failing built-in ends the evaluation; otherwise its call is undefined. -/
  strict : Bool := true
  /-- Rules are selected by an index. -/
  indexed : Bool := true
  /-- The number of rules and functions that may be evaluated within each other. -/
  maxDepth : Nat := 4096
  timer : Option TimerConfig := none
  /-- Evaluation ends when cancellation is asked for. -/
  cancellable : Bool := false
  tracing : Bool := false

/-- What an evaluation does not change. -/
structure Env where
  policy : Policy := {}
  /-- The base documents. -/
  root : Term := Term.emptyObject
  /-- Paths at which the store fails to answer. -/
  failing : List String := []
  registry : Registry := {}
  options : Options := {}
  /-- The time at which the evaluation started, in nanoseconds. -/
  time : Int := 0

/-- What stands in for a function: another function, or a value. -/
inductive Mock where
  | alias (name : String)
  | value (value : Term)

/-- The overrides in force. -/
structure Scope where
  input : Option Term := none
  /-- Replaced documents in the order of their replacement; later ones take precedence. -/
  data : List (DataPath × Term) := []
  /-- Replaced functions, the newest first. -/
  functions : List (String × Mock) := []
  /-- Tells scopes apart; zero without overrides. -/
  id : Nat := 0

/-- A document computed in a scope; nothing when it is undefined. -/
structure MemoEntry where
  scope : Nat
  path : DataPath
  value : Option Term

/-- The answer of a nondeterministic built-in to operands. -/
structure BuiltinAnswer where
  name : String
  operands : List Term
  result : Option Term

structure State where
  bindings : Bindings := {}
  scope : Scope := {}
  /-- The number of scopes opened so far. -/
  lastScope : Nat := 0
  memo : List MemoEntry := []
  /-- The names of the rule sets being evaluated, the innermost last. -/
  inProgress : List String := []
  depth : Nat := 0
  answers : List BuiltinAnswer := []
  timer : Timer := {}
  clock : Clock
  /-- Cancellation was asked for. -/
  cancelled : Bool := false
  host : Host := {}
  /-- The requests made to the store. -/
  requests : Array String := #[]

/-- A computation that may change the state and may fail. -/
abbrev Eval := ExceptT EvalError (StateM State)

/-- A result that was found without looking at the state. -/
def Eval.ofExcept (r : Except EvalError β) : Eval β := ExceptT.mk (pure r)

namespace State

/-- The value computed for a document in the current scope, if there is one. -/
def remembered? (path : DataPath) (s : State) : Option (Option Term) :=
  (s.memo.find? fun e => e.scope == s.scope.id && e.path == path).map MemoEntry.value

def remember (path : DataPath) (value : Option Term) (s : State) : State :=
  { s with memo := ⟨s.scope.id, path, value⟩ :: s.memo }

/-- Opens a scope with its own number. -/
def openScope (scope : Scope) (s : State) : State :=
  { s with scope := { scope with id := s.lastScope + 1 }, lastScope := s.lastScope + 1 }

/-- Goes back to an enclosing scope and forgets the documents of a scope that is over. -/
def closeScope (scope : Nat) (enclosing : Scope) (s : State) : State :=
  { s with scope := enclosing, memo := s.memo.filter fun e => e.scope != scope }

def answered? (name : String) (operands : List Term) (s : State) : Option (Option Term) :=
  (s.answers.find? fun a => a.name == name && a.operands == operands).map BuiltinAnswer.result

end State

namespace Env

/-- A point at which an evaluation may be ended from outside. -/
def checkpoint (env : Env) : Eval Unit := do
  let s ← get
  if env.options.cancellable && s.cancelled then throw .cancelled
  let (result, timer, clock) := s.timer.tick Clock.read s.clock
  set { s with timer := timer, clock := clock }
  Eval.ofExcept (result.mapError .timeout)

/-- Adds an event to the trace, if there is one. -/
def emit (env : Env) (op : TraceOp) (depth : Nat) (subject : Unit → String) : Eval Unit :=
  if env.options.tracing then modify fun s => { s with host := s.host.emit ⟨op, depth, subject ()⟩ }
  else pure ()

/-- Reads a base document. -/
def read (env : Env) (path : StorePath) : Eval (Option Term) := do
  modify fun s => { s with requests := s.requests.push ("read " ++ path.text) }
  if env.failing.contains path.text then throw (.storage (.unreadable path.text))
  pure (env.root.at? path)

/-- The keys directly below a base document. -/
def listKeys (env : Env) (path : StorePath) : Eval (Option (List Term)) := do
  modify fun s => { s with requests := s.requests.push ("list " ++ path.text) }
  if env.failing.contains path.text then throw (.storage (.unlistable path.text))
  pure ((env.root.at? path).bind Term.childKeys?)

end Env
end PolicyEngine
