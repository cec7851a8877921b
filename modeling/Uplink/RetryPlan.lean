import Uplink.Clock

/-!
# Retry plans

A plan says how long to wait after a failed attempt, or that there is no further attempt.  Delays
are ticks of the clock; a growing delay is computed with saturation at the last tick.

* `RetryPlan.delayAfter`               the delay after a failed attempt;
* `RetryPlan.delayAfter_eq_none_iff`   a plan ends exactly at its number of attempts.
-/

namespace Uplink

inductive Growth where
  | fixed
  /-- The delay doubles after every failure, up to `cap`. -/
  | doubling (cap : Nat)
  deriving DecidableEq, Repr

structure RetryPlan where
  /-- Attempts allowed in all, `none` for no limit. -/
  maxAttempts : Option Nat := none
  /-- Delay after the first failure, in ticks. -/
  interval : Nat
  growth : Growth := .fixed
  deriving DecidableEq, Repr

namespace RetryPlan

def forever (interval : Nat) : RetryPlan := { interval }

def upTo (attempts interval : Nat) : RetryPlan := { maxAttempts := some attempts, interval }

def withDoubling (p : RetryPlan) (cap : Nat) : RetryPlan := { p with growth := .doubling cap }

/-- The attempt is the last one that the plan allows, or comes after it. -/
def endsAt (p : RetryPlan) (attempt : Nat) : Bool := p.maxAttempts.any (· ≤ attempt)

/-- The factor on the interval after failed attempt number `attempt`: the power of two if the clock
can show so many ticks, and the last tick otherwise. -/
def factor (attempt : Nat) : Nat :=
  if attempt - 1 < 64 then Nat.pow 2 (attempt - 1) else Clock.lastTick

/-- The delay before any further attempt, whether or not the plan allows one.  The product of
interval and factor saturates at the last tick. -/
def delay (p : RetryPlan) (attempt : Nat) : Nat :=
  match p.growth with
  | .fixed => p.interval
  | .doubling cap => min (min (p.interval * factor attempt) Clock.lastTick) cap

/-- The delay after failed attempt number `attempt`, counted from 1, or `none` when the plan
ends. -/
def delayAfter (p : RetryPlan) (attempt : Nat) : Option Nat :=
  if p.endsAt attempt then none else some (p.delay attempt)

theorem endsAt_iff (p : RetryPlan) (attempt : Nat) :
    p.endsAt attempt = true ↔ ∃ n, p.maxAttempts = some n ∧ n ≤ attempt := by
  unfold endsAt
  cases p.maxAttempts with
  | none => simp
  | some n => simp

theorem delayAfter_eq_none_iff (p : RetryPlan) (attempt : Nat) :
    p.delayAfter attempt = none ↔ ∃ n, p.maxAttempts = some n ∧ n ≤ attempt := by
  rw [← endsAt_iff]
  unfold delayAfter
  split <;> simp_all

/-- A plan whose interval the clock can show has only delays that the clock can show. -/
theorem delayAfter_le_lastTick {p : RetryPlan} (hinterval : p.interval ≤ Clock.lastTick)
    {attempt delay : Nat} (h : p.delayAfter attempt = some delay) : delay ≤ Clock.lastTick := by
  unfold delayAfter at h
  split at h
  · cases h
  · cases h
    unfold RetryPlan.delay
    split
    · exact hinterval
    · omega

end RetryPlan

end Uplink
