/-!
A budget of time for an evaluation. Check points are counted, and the clock is read only when a number of
them has come together. All times are in nanoseconds.
-/
namespace PolicyEngine

/-- The time an evaluation may take, and the number of check points from one reading of the clock to the
next. -/
structure TimerConfig where
  limit : Nat
  interval : Nat := 1
  deriving DecidableEq, Repr

/-- An evaluation took longer than it may. -/
structure Overrun where
  elapsed : Nat
  limit : Nat
  deriving DecidableEq, Repr

def Overrun.message (o : Overrun) : String :=
  s!"execution exceeded time limit (elapsed={o.elapsed}ns, limit={o.limit}ns)"

structure Timer where
  config : Option TimerConfig := none
  start : Option Nat := none
  pending : Nat := 0
  deriving DecidableEq, Repr

namespace Timer

def begin (now : Nat) (t : Timer) : Timer := { t with start := some now, pending := 0 }

/-- The time since the start. A clock that runs backwards counts as standing still. -/
def elapsed? (now : Nat) (t : Timer) : Option Nat := t.start.map (now - ·)

/-- Compares a time with the limit. -/
def check (now : Nat) (t : Timer) : Except Overrun Unit :=
  match t.config, t.elapsed? now with
  | some config, some elapsed => if config.limit < elapsed then .error ⟨elapsed, config.limit⟩ else .ok ()
  | _, _ => .ok ()

/-- Counts a check point. The second part tells whether the clock is to be read. -/
def count (t : Timer) : Timer × Bool :=
  match t.config with
  | none => (t, false)
  | some config =>
    if t.pending + 1 < config.interval then ({ t with pending := t.pending + 1 }, false)
    else ({ t with pending := 0 }, true)

/-- Counts a check point and reads the clock when it is due; a clock may give no answer. -/
def tick (read : σ → Option Nat × σ) (t : Timer) (clock : σ) : Except Overrun Unit × Timer × σ :=
  match t.count with
  | (t, false) => (.ok (), t, clock)
  | (t, true) =>
    match read clock with
    | (some now, clock) => (t.check now, t, clock)
    | (none, clock) => (.ok (), t, clock)

end Timer

/-- A clock that moves on by a fixed step whenever it is read. -/
structure Clock where
  now : Nat := 0
  step : Nat
  deriving DecidableEq, Repr

def Clock.read (c : Clock) : Option Nat × Clock := (some (c.now + c.step), { c with now := c.now + c.step })

end PolicyEngine
