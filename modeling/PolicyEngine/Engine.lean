import PolicyEngine.Eval.Query

/-!
The engine: modules, an input, a store, built-ins and options, and the evaluation of queries and documents
against them. Modules are compiled at the first evaluation after they change. Every evaluation reads the
store through a transaction and leaves the engine ready for the next one, whatever its outcome.
-/
namespace PolicyEngine

structure Engine where
  modules : List Module := []
  /-- The policy compiled from the modules, unless they have changed since. -/
  policy : Option Policy := none
  /-- The number of compilations so far. -/
  generation : Nat := 0
  input : Option Term := none
  store : Store := {}
  /-- The store came from outside, and only its owner adds data to it. -/
  externalStore : Bool := false
  registry : Registry := Registry.core
  options : Options := {}
  /-- The budget of evaluations whose options set none. -/
  fallbackTimer : Option TimerConfig := none
  /-- Cancellation was asked for. -/
  cancelled : Bool := false
  clock : Clock
  /-- The time of day given to evaluations, in nanoseconds. -/
  time : Int := 0
  /-- The counter of built-ins that number their calls. -/
  counter : Nat := 0

/-- The result of an evaluation and what was observed of it. -/
structure Report (β : Type) where
  result : β
  events : List TraceEvent := []
  prints : List String := []
  /-- The requests made to the store. -/
  requests : List String := []

namespace Engine

/-! ## Changing the engine -/

def addModule (m : Module) (e : Engine) : Engine := { e with modules := e.modules ++ [m], policy := none }

def setInput (input : Option Term) (e : Engine) : Engine := { e with input := input }

/-- Starts over with an empty store of the engine's own. -/
def clearData (e : Engine) : Engine := { e with store := {}, externalStore := false }

/-- Merges data into the engine's own store. -/
def addData (data : Term) (e : Engine) : Except EvalError Unit × Engine :=
  if e.externalStore then (.error (.storage .externalStore), e)
  else
    let (store, result) := e.store.merge data
    (result.mapError .storage, { e with store := store })

/-- Reads base documents from a store of somebody else. -/
def setStore (store : Store) (e : Engine) : Engine := { e with store := store, externalStore := true }

/-- Compiles the modules if they have changed. -/
def compile (e : Engine) : Except EvalError Policy × Engine :=
  match e.policy with
  | some policy => (.ok policy, e)
  | none =>
    match Policy.compile e.modules with
    | .ok policy => (.ok policy, { e with policy := some policy, generation := e.generation + 1 })
    | .error cause => (.error (.compile cause), e)

/-! ## Evaluation -/

/-- What an evaluation against a policy and a transaction starts from. -/
def env (policy : Policy) (txn : Transaction) (e : Engine) : Env :=
  { policy := policy, root := e.store.view txn, failing := e.store.failing, registry := e.registry
    options := e.options, time := e.time }

/-- The state in which an evaluation starts. The clock is read once. -/
def start (e : Engine) : State :=
  let (now, clock) := e.clock.read
  let timer : Timer := { config := e.options.timer.orElse fun _ => e.fallbackTimer }
  { scope := { input := e.input }, clock := clock, timer := (now.map timer.begin).getD timer
    cancelled := e.cancelled, host := { counter := e.counter } }

/-- Runs an evaluation. Without a transaction one is opened for it. -/
def run (txn : Option Transaction) (failed : EvalError → β) (body : Env → State → β × State) (e : Engine) :
    Report β × Engine :=
  match e.compile with
  | (.error err, e) => ({ result := failed err }, e)
  | (.ok policy, e) =>
    let (txn, store) := match txn with
      | some txn => (txn, e.store)
      | none => e.store.beginRead
    let e := { e with store := store }
    let (result, s) := body (e.env policy txn) e.start
    ({ result := result, events := s.host.events.toList, prints := s.host.prints.toList
       requests := s.requests.toList },
      { e with clock := s.clock, cancelled := s.cancelled, counter := s.host.counter })

/-- Hands the solutions of a query to a caller one by one. What the caller made of them is reported whether
or not the evaluation fails. -/
def evalQueryWith (txn : Option Transaction) (query : Body) (deliver : Solution → α → Reply × α) (first : α)
    (e : Engine) : Report (Except EvalError Unit × α) × Engine :=
  e.run txn (fun err => (.error err, first)) fun env s =>
    let r := env.evalQuery query deliver first s
    ((r.outcome.map fun _ => (), r.found), r.state)

/-- The solutions of a query in the order they are found. -/
def evalQuery (query : Body) (e : Engine) : Report (Except EvalError (List Solution)) × Engine :=
  let (report, e) := e.evalQueryWith none query (fun solution found => ({}, found.push solution)) #[]
  ({ report with result := report.result.1.map fun _ => report.result.2.toList }, e)

/-- The document with a dotted name; nothing when it is undefined. -/
def evalRule (name : String) (e : Engine) : Report (Except EvalError (Option Term)) × Engine :=
  match DataPath.parse? name with
  | none => ({ result := .error (.internal (.notDataPath name)) }, e)
  | some path => e.run none .error fun env s => (env.evalPath path).run s

end Engine
end PolicyEngine
