import Uplink.Log
import Uplink.Mailbox
import Uplink.Routine

/-!
# Waiting on a mailbox

The two waits of a consumer.  Both take only what they aim at, so that other events stay for later
waits.

* `Port`           the mailbox of one consumer inside a larger world, and where it logs;
* `Port.awaitAll`  waits until every event of a target has been seen, over any number of wake-ups;
* `Port.awaitAny`  waits until some event of a target is there.
-/

namespace Uplink

/-- The mailbox of one consumer inside a world, and the log to which its waits write. -/
structure Port (σ : Type) where
  mailbox : σ → Mailbox
  put : Mailbox → σ → σ
  note : LogEntry → σ → σ
  mailbox_put : ∀ m s, mailbox (put m s) = m
  mailbox_note : ∀ e s, mailbox (note e s) = mailbox s

namespace Port

variable {α σ : Type}

def take (p : Port σ) (target : EventSet) (s : σ) : EventSet × σ :=
  (((p.mailbox s).take target).1, p.put ((p.mailbox s).take target).2 s)

def putBack (p : Port σ) (events : EventSet) (s : σ) : σ :=
  p.put ((p.mailbox s).putBack events) s

theorem take_fst (p : Port σ) (target : EventSet) (s : σ) :
    (p.take target s).1 = (p.mailbox s).pending &&& target := rfl

theorem mailbox_take (p : Port σ) (target : EventSet) (s : σ) :
    p.mailbox (p.take target s).2 = ((p.mailbox s).take target).2 := p.mailbox_put _ _

def gather (p : Port σ) (target : EventSet) : Wait σ EventSet EventSet where
  look := fun _ seen s =>
    let taken := p.take target s
    let seen := seen ||| taken.1
    if seen.Covers target then (.done (target &&& seen), taken.2) else (.pending seen, taken.2)
  expire := fun seen s => (target &&& seen, p.note (.waitTimedOut target) s)

/-- Waits until every event of `target` has been seen.  Returns the target, or what was seen of it
when `timeout` is over. -/
def awaitAll [Reactive α σ] (p : Port σ) (target : EventSet) (timeout : Nat) :
    Routine α σ EventSet := do
  let start ← Routine.now
  Routine.change (p.note (.waitStarted target))
  Routine.await (p.gather target) (Clock.after? start timeout) EventSet.empty

def deliver (p : Port σ) (target : EventSet) : Wait σ Unit EventSet where
  look := fun _ _ s =>
    let taken := p.take target s
    if taken.1 = EventSet.empty then (.pending (), taken.2) else (.done taken.1, taken.2)
  expire := fun _ s => (EventSet.empty, s)

/-- Waits until some event of `target` is there.  Returns all those pending at that moment, or the
empty set when `timeout` is over. -/
def awaitAny [Reactive α σ] (p : Port σ) (target : EventSet) (timeout : Nat) :
    Routine α σ EventSet := do
  let start ← Routine.now
  Routine.await (p.deliver target) (Clock.after? start timeout) ()

section
variable [Reactive α σ] (p : Port σ) (target : EventSet) (timeout : Nat) (tl : Timeline α σ)

theorem awaitAll_apply : (p.awaitAll target timeout : Routine α σ EventSet) tl
    = Routine.await (p.gather target) (Clock.after? tl.now timeout) EventSet.empty
        { tl with world := p.note (.waitStarted target) tl.world } := rfl

theorem awaitAny_apply : (p.awaitAny target timeout : Routine α σ EventSet) tl
    = Routine.await (p.deliver target) (Clock.after? tl.now timeout) () tl := rfl

end

end Port

end Uplink
