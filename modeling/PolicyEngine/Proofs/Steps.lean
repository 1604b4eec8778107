import PolicyEngine.Proofs.Coupling

/-!
The primitive steps of an evaluation, each as a function of the state: check points, trace events, requests to
the store and calls of built-ins.
-/
namespace PolicyEngine
namespace Env

variable (env : Env)

theorem run_checkpoint (s : State) :
    env.checkpoint.run s =
      if env.options.cancellable && s.cancelled then (.error .cancelled, s)
      else
        let r := s.timer.tick Clock.read s.clock
        (r.1.mapError .timeout, { s with timer := r.2.1, clock := r.2.2 }) := by
  simp only [checkpoint, Eval.run_bind, Eval.run_get]
  split <;> rfl

/-- A check point does not look at the environment. -/
theorem run_checkpoint_setBindings (s : State) (b : Bindings) :
    env.checkpoint.run { s with bindings := b } =
      ((env.checkpoint.run s).1, { (env.checkpoint.run s).2 with bindings := b }) := by
  rw [run_checkpoint, run_checkpoint]
  split <;> rfl

theorem run_emit (op : TraceOp) (depth : Nat) (text : Unit → String) (s : State) :
    (env.emit op depth text).run s =
      (.ok (), if env.options.tracing then { s with host := s.host.emit ⟨op, depth, text ()⟩ } else s) := by
  simp only [emit]
  split <;> rfl

theorem run_read (path : StorePath) (s : State) :
    (env.read path).run s =
      (if env.failing.contains path.text then .error (.storage (.unreadable path.text)) else .ok (env.root.at? path),
        { s with requests := s.requests.push ("read " ++ path.text) }) := by
  simp only [read]
  split <;> rfl

theorem run_listKeys (path : StorePath) (s : State) :
    (env.listKeys path).run s =
      (if env.failing.contains path.text then .error (.storage (.unlistable path.text))
        else .ok ((env.root.at? path).bind Term.childKeys?),
        { s with requests := s.requests.push ("list " ++ path.text) }) := by
  simp only [listKeys]
  split <;> rfl

/-- A check point changes the time budget and nothing else. -/
theorem state_checkpoint (s : State) :
    ∃ timer clock, (env.checkpoint.run s).2 = { s with timer := timer, clock := clock } := by
  rw [run_checkpoint]
  split
  · exact ⟨s.timer, s.clock, rfl⟩
  · exact ⟨_, _, rfl⟩

theorem state_emit (op : TraceOp) (depth : Nat) (text : Unit → String) (s : State) :
    ∃ host, ((env.emit op depth text).run s).2 = { s with host := host } ∧ host.counter = s.host.counter := by
  rw [run_emit]
  dsimp only
  split
  · exact ⟨_, rfl, rfl⟩
  · exact ⟨s.host, rfl, rfl⟩

/-- What a built-in answers when it is run. -/
def builtinResult (b : Builtin) (args : List Term) : BuiltinResult → Except EvalError (Option Term)
  | .ok value => .ok value
  | .error e => env.failedCall b args e

/-- A built-in that is run changes what surrounds the evaluation and nothing else. -/
theorem run_runBuiltin (b : Builtin) (args : List Term) (s : State) :
    (env.runBuiltin b args).run s =
      let r := b.invoke ⟨b.name, env.time, s.depth, env.options.tracing⟩ args s.host
      (env.builtinResult b args r.1, { s with host := r.2 }) := by
  simp only [runBuiltin, Eval.run_bind, Eval.run_get, Eval.run_set]
  rcases b.invoke ⟨b.name, env.time, s.depth, env.options.tracing⟩ args s.host with ⟨_ | _, _⟩ <;> rfl

/-- Operands with which a built-in is not called: unbound ones, or ones outside its signature. -/
def refusal? (b : Builtin) (args : List Term) : Option (Except EvalError (Option Term)) :=
  if !args.all Term.isGround then some (.ok none)
  else if b.lenient then none
  else match b.checkOperands args with
    | .error e => some (.error e)
    | .ok () => none

theorem run_callBuiltin (b : Builtin) (args : List Term) (s : State) :
    (env.callBuiltin b args).run s =
      match refusal? b args with
      | some r => (r, s)
      | none =>
        if b.deterministic then (env.runBuiltin b args).run s
        else match s.answered? b.name args with
          | some answer => (.ok answer, s)
          | none =>
            match (env.runBuiltin b args).run s with
            | (.error e, s) => (.error e, s)
            | (.ok answer, s) => (.ok answer, { s with answers := ⟨b.name, args, answer⟩ :: s.answers }) := by
  have hcall : (do
      if b.deterministic then env.runBuiltin b args
      else match (← get).answered? b.name args with
        | some answer => pure answer
        | none =>
          let answer ← env.runBuiltin b args
          modify fun s => { s with answers := ⟨b.name, args, answer⟩ :: s.answers }
          pure answer : Eval (Option Term)).run s =
      if b.deterministic then (env.runBuiltin b args).run s
      else match s.answered? b.name args with
        | some answer => (.ok answer, s)
        | none =>
          match (env.runBuiltin b args).run s with
          | (.error e, s) => (.error e, s)
          | (.ok answer, s) => (.ok answer, { s with answers := ⟨b.name, args, answer⟩ :: s.answers }) := by
    split
    · rfl
    · simp only [Eval.run_bind, Eval.run_get]
      split
      · rfl
      · simp only [Eval.run_bind]
        rcases (env.runBuiltin b args).run s with ⟨_ | _, _⟩ <;> rfl
  rw [← hcall]
  simp only [callBuiltin, refusal?]
  split
  · rfl
  · cases b.lenient with
    | true => rfl
    | false =>
      simp only [Bool.not_false, if_true, Eval.run_bind, Eval.run_ofExcept]
      cases b.checkOperands args <;> rfl

/-- A call of a built-in changes what surrounds the evaluation and the answers kept, and nothing else. -/
theorem state_callBuiltin (b : Builtin) (args : List Term) (s : State) :
    ∃ host answers, ((env.callBuiltin b args).run s).2 = { s with host := host, answers := answers } := by
  rw [run_callBuiltin, run_runBuiltin]
  split
  · exact ⟨s.host, s.answers, rfl⟩
  · split
    · exact ⟨_, _, rfl⟩
    · split
      · exact ⟨s.host, s.answers, rfl⟩
      · dsimp only
        cases env.builtinResult b args (b.invoke _ args s.host).1 <;> exact ⟨_, _, rfl⟩

end Env
end PolicyEngine
