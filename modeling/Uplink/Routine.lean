import Uplink.Timeline

/-!
# Routines

A routine is a computation on a timeline that may block.  A blocked routine looks at the world each
time something has happened.  All actions of one instant happen before it looks, so it sees them as
one; actions that are overdue happen as soon as it blocks.  When its deadline rings it gives up,
after the actions of that very instant.

* `Wait`           what a blocked routine looks for;
* `Routine.await`  blocks until the wait is over or its deadline rings;
* `Routine.sleep`  blocks for a given time.

A routine may also come to a `Halt`: it can never wake, it would have to pass the horizon of the
timeline, it set a timer beyond the end of the clock, or it used up the rounds of a loop.
-/

namespace Uplink

inductive Halt where
  | blocked
  | limit
  | overflow
  | unfinished
  deriving DecidableEq, Repr

def overflowMessage : String := "overflow when adding duration to instant"

/-- A computation on a timeline that may block and may come to a halt. -/
abbrev Routine (α σ : Type) := EStateM Halt (Timeline α σ)

/-- What a blocked routine makes of the world when it looks: it is done, or goes on with what it
has gathered. -/
inductive Look (ρ β : Type) where
  | done (b : β)
  | pending (r : ρ)

/-- What a blocked routine looks for.  `look` is given the clock, what was gathered so far and the
world, and may take something from the world; `expire` ends the wait at its deadline. -/
structure Wait (σ ρ β : Type) where
  look : Nat → ρ → σ → Look ρ β × σ
  expire : ρ → σ → β × σ

namespace Routine

variable {α σ ρ β : Type}

def now : Routine α σ Nat := fun tl => .ok tl.now tl

def world : Routine α σ σ := fun tl => .ok tl.world tl

def act (f : Nat → σ → β × σ) : Routine α σ β := fun tl =>
  let r := f tl.now tl.world
  .ok r.1 { tl with world := r.2 }

def change (f : σ → σ) : Routine α σ Unit := fun tl => .ok () { tl with world := f tl.world }

def halt (h : Halt) : Routine α σ β := fun tl => .error h tl

def schedule (ticks : Nat) (a : α) : Routine α σ Unit := fun tl => .ok () (tl.schedule ticks a)

def limit (ticks : Nat) : Routine α σ Unit := fun tl =>
  .ok () { tl with horizon := some (Clock.afterSat tl.now ticks) }

def mayReach (horizon : Option Nat) (t : Nat) : Bool := horizon.all (t ≤ ·)

/-- The deadline at `t` rings, unless `t` lies beyond the horizon. -/
def ringAt (w : Wait σ ρ β) (t : Nat) (r : ρ) : Routine α σ β := fun tl =>
  if mayReach tl.horizon t then
    let e := w.expire r tl.world
    .ok e.1 { tl with now := t, world := e.2 }
  else .error .limit { tl with now := tl.horizon.getD tl.now }

section
variable [Reactive α σ]

/-- Follows the batches of an agenda, all later than `now`, until the wait is over.  `ring`, if
there is one, is later than `now` too. -/
def follow (w : Wait σ ρ β) (ring horizon : Option Nat) :
    Agenda α → Nat → ρ → σ → EStateM.Result Halt (Timeline α σ) β
  | [], now, r, s =>
    match ring with
    | none => .error .blocked ⟨now, horizon, [], s⟩
    | some t => ringAt w t r ⟨now, horizon, [], s⟩
  | b :: rest, now, r, s =>
    match ring.filter (· < b.time) with
    | some t => ringAt w t r ⟨now, horizon, b :: rest, s⟩
    | none =>
      if mayReach horizon b.time then
        match w.look b.time r (fire b.time b.actions s) with
        | (.done v, s) => .ok v ⟨b.time, horizon, rest, s⟩
        | (.pending r, s) =>
          if ring = some b.time then ringAt w b.time r ⟨b.time, horizon, rest, s⟩
          else follow w ring horizon rest b.time r s
      else .error .limit ⟨horizon.getD now, horizon, b :: rest, s⟩

/-- Blocks until the wait is over or its deadline rings.  A wait that is over at once lets nothing
happen. -/
def await (w : Wait σ ρ β) (deadline : Option Nat) (r : ρ) : Routine α σ β := fun tl =>
  match w.look tl.now r tl.world with
  | (.done v, s) => .ok v { tl with world := s }
  | (.pending r, s) =>
    let tl := { tl with world := s }.settle
    match w.look tl.now r tl.world with
    | (.done v, s) => .ok v { tl with world := s }
    | (.pending r, s) =>
      let ring := Clock.ring? deadline
      if Clock.passed ring tl.now then ringAt w tl.now r { tl with world := s }
      else follow w ring tl.horizon tl.agenda tl.now r s

def advance (ticks : Nat) : Routine α σ Unit := fun tl => .ok () (tl.advance ticks)

/-- The wait of a timer: only its deadline ends it. -/
def timer : Wait σ Unit Unit where
  look := fun _ _ s => (.pending (), s)
  expire := fun _ s => ((), s)

/-- Blocks for `ticks`; a timer beyond the end of the clock brings the routine to a halt. -/
def sleep (ticks : Nat) : Routine α σ Unit := fun tl =>
  match Clock.after? tl.now ticks with
  | some t => await timer (some t) () tl
  | none => .error .overflow tl

end

/-! ### sequencing -/

theorem bind_apply {β γ : Type} (x : Routine α σ β) (f : β → Routine α σ γ) (tl : Timeline α σ) :
    (x >>= f) tl = match x tl with
      | .ok b tl' => f b tl'
      | .error h tl' => .error h tl' := by
  show EStateM.bind x f tl = _
  unfold EStateM.bind
  cases x tl <;> rfl

theorem now_apply (tl : Timeline α σ) : (now : Routine α σ Nat) tl = .ok tl.now tl := rfl

theorem world_apply (tl : Timeline α σ) : (world : Routine α σ σ) tl = .ok tl.world tl := rfl

theorem act_apply (f : Nat → σ → β × σ) (tl : Timeline α σ) :
    (act f : Routine α σ β) tl
      = .ok (f tl.now tl.world).1 { tl with world := (f tl.now tl.world).2 } := rfl

theorem change_apply (f : σ → σ) (tl : Timeline α σ) :
    (change f : Routine α σ Unit) tl = .ok () { tl with world := f tl.world } := rfl

/-! ### waits that end at once -/

section
variable [Reactive α σ]

theorem await_of_done (w : Wait σ ρ β) (deadline : Option Nat) (r : ρ) (tl : Timeline α σ) {v : β}
    {s : σ} (h : w.look tl.now r tl.world = (.done v, s)) :
    await w deadline r tl = .ok v { tl with world := s } := by
  unfold await
  rw [h]

theorem sleep_of_overflow (ticks : Nat) (tl : Timeline α σ)
    (h : Clock.lastTick < tl.now + ticks) :
    (sleep ticks : Routine α σ Unit) tl = .error .overflow tl := by
  unfold sleep
  have hn : Clock.after? tl.now ticks = none := by
    unfold Clock.after?
    rw [if_neg (Nat.not_le.mpr h)]
  rw [hn]

end

end Routine

end Uplink
