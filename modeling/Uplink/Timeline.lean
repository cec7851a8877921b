import Uplink.Agenda
import Uplink.Clock

/-!
# Timelines

A timeline is a clock, an agenda of actions to come, and a world that the actions change.  Time
passes only while somebody waits, and actions happen only then: first those that are overdue, all
at once, and then each batch at its instant.

* `Timeline.schedule`  enters an action into the agenda;
* `Timeline.settle`    what is due happens;
* `Timeline.advance`   lets time pass.
-/

namespace Uplink

/-- A clock, an instant that the clock may not pass, the actions to come, and a world. -/
structure Timeline (α σ : Type) where
  now : Nat
  horizon : Option Nat := none
  agenda : Agenda α := []
  world : σ

namespace Timeline

variable {α σ : Type}

def schedule (tl : Timeline α σ) (ticks : Nat) (a : α) : Timeline α σ :=
  { tl with agenda := tl.agenda.insert (Clock.afterSat tl.now ticks) a }

section
variable [Reactive α σ]

def settle (tl : Timeline α σ) : Timeline α σ :=
  { tl with
    agenda := tl.agenda.later tl.now
    world := fire tl.now (tl.agenda.due tl.now) tl.world }

/-- The batches up to `goal` happen, each at its instant. -/
def passTo (goal : Nat) : Agenda α → σ → Agenda α × σ
  | [], s => ([], s)
  | b :: rest, s =>
    if b.time ≤ goal then passTo goal rest (fire b.time b.actions s) else (b :: rest, s)

def advance (tl : Timeline α σ) (ticks : Nat) : Timeline α σ :=
  let goal := Clock.afterSat tl.now ticks
  let settled := tl.settle
  let (agenda, world) := passTo goal settled.agenda settled.world
  { settled with now := goal, agenda, world }

end

/-! ## order -/

theorem schedule_ordered (tl : Timeline α σ) (ticks : Nat) (a : α) (h : tl.agenda.Ordered) :
    (tl.schedule ticks a).agenda.Ordered := Agenda.insert_ordered _ _ h

theorem settle_ordered [Reactive α σ] (tl : Timeline α σ) (h : tl.agenda.Ordered) :
    tl.settle.agenda.Ordered := Agenda.later_ordered _ h

end Timeline

end Uplink
