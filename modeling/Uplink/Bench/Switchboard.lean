import Uplink.Bench.Session
import Uplink.Waiting

/-!
# Sessions on several mailboxes

A switchboard is a number of mailboxes with the trace of the signals that came from the agenda.  A
step addresses one mailbox; the steps of a consumer need a mailbox that was claimed.

* `Switchboard.Step`     what can be done;
* `Switchboard.perform`  does it.
-/

namespace Uplink

structure Signal where
  index : Nat
  events : EventSet
  deriving DecidableEq, Repr

/-- A signal of the agenda, as it happened. -/
structure FiredSignal where
  time : Nat
  result : Except MailboxFault Unit
  deriving DecidableEq

/-- Mailboxes, the signals that happened, and the log. -/
structure Switchboard (n : Nat) where
  boxes : Mailboxes n := Mailboxes.fresh n
  fired : Array FiredSignal := #[]
  log : Array LogEntry := #[]

namespace Switchboard

variable {n : Nat}

def update (w : Switchboard n) (r : Except MailboxFault (Mailboxes n)) :
    Except MailboxFault Unit × Switchboard n :=
  match r with
  | .ok boxes => (.ok (), { w with boxes })
  | .error e => (.error e, w)

def port (i : Fin n) : Port (Switchboard n) where
  mailbox := fun w => w.boxes.get i
  put := fun m w => { w with boxes := w.boxes.set i.val m i.isLt }
  note := fun e w => { w with log := w.log.push e }
  mailbox_put := fun _ _ => Vector.getElem_set_self i.isLt
  mailbox_note := fun _ _ => rfl

instance : Reactive Signal (Switchboard n) where
  react := fun now s w =>
    let r := w.update (w.boxes.signal s.index s.events)
    { r.2 with fired := r.2.fired.push ⟨now, r.1⟩ }

inductive Step where
  | signal (s : Signal)
  | claim (index : Nat)
  | pending (index : Nat)
  | schedule (ticks : Nat) (s : Signal)
  | advance (ticks : Nat)
  | awaitAll (index : Nat) (target : EventSet) (timeout : Nat)
  | awaitAny (index : Nat) (target : EventSet) (timeout : Nat)
  | take (index : Nat) (target : EventSet)
  | putBack (index : Nat) (events : EventSet)
  deriving DecidableEq, Repr

inductive Answer where
  | nothing
  | outcome (r : Except MailboxFault Unit)
  | pending (r : Except MailboxFault EventSet)
  | events (s : EventSet)
  /-- The mailbox has no consumer who could take this step. -/
  | noWaiter
  deriving DecidableEq

def asConsumer (index : Nat) (f : Port (Switchboard n) → Routine Signal (Switchboard n) Answer) :
    Routine Signal (Switchboard n) Answer := do
  match (← Routine.world).boxes.consumer? index with
  | some i => f (port i)
  | none => return .noWaiter

def perform : Step → Routine Signal (Switchboard n) Answer
  | .signal s => Routine.act fun _ w =>
    let r := w.update (w.boxes.signal s.index s.events)
    (.outcome r.1, r.2)
  | .claim i => Routine.act fun _ w =>
    let r := w.update (w.boxes.claim i)
    (.outcome r.1, r.2)
  | .pending i => do return .pending ((← Routine.world).boxes.pending i)
  | .schedule ticks s => do
    Routine.schedule ticks s
    return .nothing
  | .advance ticks => do
    Routine.advance ticks
    return .nothing
  | .awaitAll i target timeout => asConsumer i fun p => return .events (← p.awaitAll target timeout)
  | .awaitAny i target timeout => asConsumer i fun p => return .events (← p.awaitAny target timeout)
  | .take i target => asConsumer i fun p => Routine.act fun _ w =>
    let r := p.take target w
    (.events r.1, r.2)
  | .putBack i events => asConsumer i fun p => do
    Routine.change (p.putBack events)
    return .nothing

def clear (w : Switchboard n) : Switchboard n := { w with fired := #[], log := #[] }

/-- A session on `n` mailboxes without consumers, from the instant `clock`. -/
def session (n clock : Nat) (steps : List Step) : List (Entry Signal (Switchboard n) Unit Answer) :=
  (Session.drive (fun _ s => return ((), ← perform s)) clear ()
    { now := clock, world := ({} : Switchboard n) } steps).1

end Switchboard

end Uplink
