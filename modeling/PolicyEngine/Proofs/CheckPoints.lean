import PolicyEngine.Timer
import Mathlib.Algebra.Order.Ring.Nat

/-!
The check points of an evaluation under a timer. The timer reads the clock at every `n`-th of them, where
`n` is the interval of its configuration, and at no other; a check point fails where the answer that is
read lies beyond the limit. So a clock that goes on to answer and does not run backwards is beyond the
limit for fewer than `n` check points before one of them fails.
-/

namespace PolicyEngine.Timer

/-! ## The history of a timer -/

/-- A clock whose state is the number of times it was asked. -/
def ask (answer : Option Nat) (asked : Nat) : Option Nat × Nat := (answer, asked + 1)

/-- The `i`-th check point, counted from one: what it returns, the timer after it, and how often the clock
was asked so far. At the `i`-th check point the clock would answer `answers i`. What a check point
returns is not looked at by the next one. -/
def checkPoint (t : Timer) (answers : Nat → Option Nat) : Nat → Except Overrun Unit × Timer × Nat
  | 0 => (.ok (), t, 0)
  | i + 1 => (checkPoint t answers i).2.1.tick (ask (answers (i + 1))) (checkPoint t answers i).2.2

def outcome (t : Timer) (answers : Nat → Option Nat) (i : Nat) : Except Overrun Unit := (checkPoint t answers i).1

/-- The `i`-th check point asks the clock. -/
def Asks (t : Timer) (answers : Nat → Option Nat) (i : Nat) : Prop :=
  (checkPoint t answers (i - 1)).2.2 < (checkPoint t answers i).2.2

/-! ## One check point -/

section Step

variable {t : Timer} {config : TimerConfig} {start pending asked : Nat} {answer : Option Nat}

/-- The timer in the middle of an evaluation: it was started, and so many check points have passed since the
clock was asked. -/
def running (t : Timer) (start pending : Nat) : Timer := { t with start := some start, pending := pending }

theorem begin_eq_running : t.begin start = t.running start 0 := rfl

theorem tick_running_of_lt (hconfig : t.config = some config) (hlt : pending + 1 < config.interval) :
    (t.running start pending).tick (ask answer) asked = (.ok (), t.running start (pending + 1), asked) := by
  simp [tick, count, running, hconfig, hlt]

/-- What a check point returns at which the clock is asked. -/
def verdict (config : TimerConfig) (start : Nat) : Option Nat → Except Overrun Unit
  | some now => if config.limit < now - start then .error ⟨now - start, config.limit⟩ else .ok ()
  | none => .ok ()

theorem tick_running_of_le (hconfig : t.config = some config) (hle : config.interval ≤ pending + 1) :
    (t.running start pending).tick (ask answer) asked =
      (verdict config start answer, t.running start 0, asked + 1) := by
  have hdue : ¬ pending + 1 < config.interval := by omega
  cases answer with
  | none => simp [tick, count, running, verdict, ask, hconfig, hdue]
  | some now => simp [tick, count, running, verdict, ask, check, elapsed?, hconfig, hdue]

theorem verdict_eq_error_iff {e : Overrun} :
    verdict config start answer = .error e ↔
      ∃ now, answer = some now ∧ start + config.limit < now ∧ e = ⟨now - start, config.limit⟩ := by
  cases answer with
  | none => simp [verdict]
  | some now =>
    have hiff : config.limit < now - start ↔ start + config.limit < now := by omega
    by_cases h : start + config.limit < now <;> simp [verdict, hiff, h, eq_comm]

end Step

/-! ## All check points -/

section Run

variable {t : Timer} {config : TimerConfig} {start : Nat} {answers : Nat → Option Nat} {i : Nat}

/-- One check point, seen from the number of those before it. -/
theorem tick_running_mod (hconfig : t.config = some config) (hinterval : 1 ≤ config.interval) (i : Nat)
    (answer : Option Nat) :
    (t.running start (i % config.interval)).tick (ask answer) (i / config.interval) =
      (if config.interval ∣ i + 1 then verdict config start answer else .ok (),
        t.running start ((i + 1) % config.interval), (i + 1) / config.interval) := by
  have hmod : i % config.interval < config.interval := Nat.mod_lt _ hinterval
  -- with this check point the counter is still below the interval, or it reaches the interval and starts again
  rcases Nat.lt_or_ge (i % config.interval + 1) config.interval with hlt | hle
  · have hrest : (i + 1) % config.interval = i % config.interval + 1 := by
      rw [← Nat.mod_add_mod, Nat.mod_eq_of_lt hlt]
    have hndvd : ¬ config.interval ∣ i + 1 := by rw [Nat.dvd_iff_mod_eq_zero]; omega
    rw [tick_running_of_lt hconfig hlt, if_neg hndvd, hrest, Nat.succ_div_of_not_dvd hndvd]
  · have hwhole : i % config.interval + 1 = config.interval := by omega
    have hrest : (i + 1) % config.interval = 0 := by rw [← Nat.mod_add_mod, hwhole, Nat.mod_self]
    have hdvd : config.interval ∣ i + 1 := Nat.dvd_of_mod_eq_zero hrest
    rw [tick_running_of_le hconfig hle, if_pos hdvd, hrest, Nat.succ_div_of_dvd hdvd]

/-- The timer counts the check points since the last multiple of the interval, and the clock was asked at
each of these multiples. -/
theorem checkPoint_begin (hconfig : t.config = some config) (hinterval : 1 ≤ config.interval) (i : Nat) :
    (checkPoint (t.begin start) answers i).2 = (t.running start (i % config.interval), i / config.interval) := by
  induction i with
  | zero => simp [checkPoint, begin_eq_running]
  | succ i ih => rw [checkPoint, ih, tick_running_mod hconfig hinterval]

theorem outcome_begin_succ (hconfig : t.config = some config) (hinterval : 1 ≤ config.interval) (i : Nat) :
    outcome (t.begin start) answers (i + 1) =
      if config.interval ∣ i + 1 then verdict config start (answers (i + 1)) else .ok () := by
  rw [outcome, checkPoint, checkPoint_begin hconfig hinterval, tick_running_mod hconfig hinterval]

theorem asks_begin_succ_iff (hconfig : t.config = some config) (hinterval : 1 ≤ config.interval) (i : Nat) :
    Asks (t.begin start) answers (i + 1) ↔ config.interval ∣ i + 1 := by
  rw [Asks, Nat.add_sub_cancel, checkPoint_begin hconfig hinterval, checkPoint_begin hconfig hinterval,
    Nat.succ_div]
  by_cases hdvd : config.interval ∣ i + 1 <;> simp [hdvd]

theorem outcome_begin_eq_error_iff (hconfig : t.config = some config) (hinterval : 1 ≤ config.interval) (i : Nat)
    (e : Overrun) :
    outcome (t.begin start) answers (i + 1) = .error e ↔
      Asks (t.begin start) answers (i + 1) ∧ ∃ now, answers (i + 1) = some now ∧ start + config.limit < now ∧
        e = ⟨now - start, config.limit⟩ := by
  rw [outcome_begin_succ hconfig hinterval, asks_begin_succ_iff hconfig hinterval, ← verdict_eq_error_iff]
  by_cases hdvd : config.interval ∣ i + 1 <;> simp [hdvd]

/-- Among as many check points in a row as the interval has, the first one is found that asks the clock. -/
theorem exists_first_dvd {n : Nat} (hn : 1 ≤ n) (i : Nat) : ∃ k < n, n ∣ i + k ∧ ∀ j < k, ¬ n ∣ i + j := by
  have hmod : i % n < n := Nat.mod_lt _ hn
  rcases Nat.eq_zero_or_pos (i % n) with hzero | hpos
  · exact ⟨0, hn, Nat.dvd_of_mod_eq_zero hzero, fun j hj => absurd hj (Nat.not_lt_zero j)⟩
  · refine ⟨n - i % n, by omega, ?_, fun j hj => ?_⟩
    · rw [Nat.dvd_iff_mod_eq_zero, ← Nat.mod_add_mod, Nat.add_sub_cancel' (Nat.le_of_lt hmod), Nat.mod_self]
    · rw [Nat.dvd_iff_mod_eq_zero, ← Nat.mod_add_mod, Nat.mod_eq_of_lt (by omega)]
      omega

/-- Once the clock is beyond the limit for good, fewer check points than the interval has succeed. -/
theorem exists_overrun (hconfig : t.config = some config) (hinterval : 1 ≤ config.interval) (hi : 1 ≤ i)
    (hlate : ∀ k, i ≤ k → ∃ now, answers k = some now ∧ start + config.limit < now) :
    ∃ k < config.interval, (∀ j < k, outcome (t.begin start) answers (i + j) = .ok ()) ∧
      ∃ e, outcome (t.begin start) answers (i + k) = .error e := by
  obtain ⟨k, hk, hdvd, hfirst⟩ := exists_first_dvd hinterval i
  refine ⟨k, hk, fun j hj => ?_, ?_⟩
  · obtain ⟨p, hp⟩ : ∃ p, i + j = p + 1 := ⟨i + j - 1, by omega⟩
    rw [hp, outcome_begin_succ hconfig hinterval, if_neg (hp ▸ hfirst j hj)]
  · obtain ⟨p, hp⟩ : ∃ p, i + k = p + 1 := ⟨i + k - 1, by omega⟩
    obtain ⟨now, hnow, hlt⟩ := hlate (i + k) (by omega)
    refine ⟨⟨now - start, config.limit⟩, ?_⟩
    rw [hp, outcome_begin_succ hconfig hinterval, if_pos (hp ▸ hdvd), verdict_eq_error_iff]
    exact ⟨now, hp ▸ hnow, hlt, rfl⟩

end Run

/-! ## The clock is read once in every interval -/

/-- After a start, the `i`-th check point asks the clock exactly when the interval divides `i`, and it fails
exactly when it asks and the answer lies beyond the limit; the error tells the time that has passed. When
the clock always answers and never runs backwards, fewer check points than the interval has succeed from
the moment on at which the limit is passed. -/
theorem clock_read_every_interval {t : Timer} {config : TimerConfig} (hconfig : t.config = some config)
    (hinterval : 1 ≤ config.interval) (start : Nat) (answers : Nat → Option Nat) :
    (∀ i, 1 ≤ i →
      (Asks (t.begin start) answers i ↔ config.interval ∣ i) ∧
      ∀ e, outcome (t.begin start) answers i = .error e ↔
        Asks (t.begin start) answers i ∧ ∃ now, answers i = some now ∧ start + config.limit < now ∧
          e = ⟨now - start, config.limit⟩) ∧
    ∀ times : Nat → Nat, Monotone times → (∀ i, answers i = some (times i)) →
      ∀ i, 1 ≤ i → start + config.limit < times i →
        ∃ k < config.interval, (∀ j < k, outcome (t.begin start) answers (i + j) = .ok ()) ∧
          ∃ e, outcome (t.begin start) answers (i + k) = .error e := by
  constructor
  · intro i hi
    obtain ⟨p, rfl⟩ : ∃ p, i = p + 1 := ⟨i - 1, by omega⟩
    exact ⟨asks_begin_succ_iff hconfig hinterval p, outcome_begin_eq_error_iff hconfig hinterval p⟩
  · intro times htimes hanswers i hi hlate
    refine exists_overrun hconfig hinterval hi fun k hk => ⟨times k, hanswers k, ?_⟩
    exact Nat.lt_of_lt_of_le hlate (htimes hk)

/-- A limit of 25 and an interval of 3 after a start at 10, with a clock that gives ten times the number of
the check point: the limit is passed at the fourth check point, the sixth one asks and fails, and no more than
two succeed from the fourth one on. -/
theorem clock_read_every_third :
    (∃ e, outcome ((Timer.mk (some ⟨25, 3⟩) none 2).begin 10) (fun i => some (10 * i)) 6 = .error e) ∧
      ∃ k < 3, ∃ e, outcome ((Timer.mk (some ⟨25, 3⟩) none 2).begin 10) (fun i => some (10 * i)) (4 + k) = .error e := by
  obtain ⟨hpoints, hlate⟩ :=
    clock_read_every_interval (t := ⟨some ⟨25, 3⟩, none, 2⟩) rfl (by decide) 10 (fun i => some (10 * i))
  constructor
  · obtain ⟨hasks, houtcome⟩ := hpoints 6 (by decide)
    exact ⟨⟨50, 25⟩, (houtcome _).2 ⟨hasks.2 (by decide), 60, rfl, by decide, rfl⟩⟩
  · have htimes : Monotone fun i => 10 * i := fun _ _ hle => Nat.mul_le_mul_left 10 hle
    obtain ⟨k, hk, -, herror⟩ := hlate (10 * ·) htimes (fun _ => rfl) 4 (by decide) (by decide)
    exact ⟨k, hk, herror⟩

end PolicyEngine.Timer
