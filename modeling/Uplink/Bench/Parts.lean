import Uplink.Association
import Uplink.Bench.Host
import Uplink.Reset

/-!
# Sessions on the parts

The parts of the connection manager without the manager: the waits on the mailbox, the association
attempts, the transfer queues and the pins.  Some steps need the consumer side of the mailbox,
which the session has from a successful claim until it drops it.

* `Parts.Step`     what can be done;
* `Parts.perform`  does it.
-/

namespace Uplink

structure Parts where
  association : Association := {}
  holdsWaiter : Bool := false

namespace Parts

inductive QueueName where
  | data
  | control
  deriving DecidableEq, Repr

inductive CounterName where
  | tx
  | rx
  deriving DecidableEq, Repr

inductive ConsumerStep where
  | awaitAll (target : EventSet) (timeout : Nat)
  | awaitAny (target : EventSet) (timeout : Nat)
  | take (target : EventSet)
  | putBack (events : EventSet)
  | associateIfAllowed
  | associate
  | awaitStatusIs (target : RadioStatus) (timeout : Nat)
  | awaitStatus (accept : RadioStatus → Bool) (timeout : Nat)
  | awaitReport (accept : RadioStatus → Bool) (timeout : Nat)

inductive Step where
  | host (s : HostStep)
  | consumer (s : ConsumerStep)
  | dropWaiter
  | drop (timeout : Nat)
  | attempts
  | loadCredentials
  | reset
  | receiveReady
  | transferReady
  | pin (name : PinName) (level : Option Bool) (failing : Option (Option PinOp))
  | reportCode (code : UInt8)
  | count (counter : CounterName) (add sub : Nat)
  | send (queue : QueueName) (length : Nat) (fill : UInt8)
  | receive (queue : QueueName)
  | write (data : List UInt8)
  | read (max : Nat)

inductive Sent where
  | queued
  | full
  | tooLong
  deriving DecidableEq, Repr

inductive Answer where
  | nothing
  | host (a : HostAnswer)
  /-- The session does not hold the consumer side. -/
  | noWaiter
  | events (s : EventSet)
  | attempted (r : Except AttemptFault AttemptOutcome)
  | flag (b : Bool)
  | dropped (r : Except AttemptFault Unit)
  | attempts (n : UInt32)
  | credentials (r : Except AttemptFault Credentials)
  | reset (r : Except PinFault Unit)
  | ready (r : Except PinFault Bool)
  | level (b : Bool)
  | counters (tx rx backlog : Nat)
  | sent (r : Sent)
  | received (r : Option Frame)
  | written (n : Nat)
  | bytes (data : List UInt8)

/-! ## queues and counters -/

def QueueName.get (q : TransferQueues) : QueueName → FrameQueue
  | data => q.dataFrames
  | control => q.controlFrames

def QueueName.set (q : TransferQueues) (f : FrameQueue) : QueueName → TransferQueues
  | data => { q with dataFrames := f }
  | control => { q with controlFrames := f }

/-- Puts a frame of equal bytes into a queue; a frame that is too long is not looked at further. -/
def send (queue : QueueName) (length : Nat) (fill : UInt8) (h : Host) : Sent × Host :=
  match Frame.filled? length fill with
  | none => (.tooLong, h)
  | some f =>
    match (queue.get h.queues).push? f with
    | none => (.full, h)
    | some q => (.queued, { h with queues := queue.set h.queues q })

def receive (queue : QueueName) (h : Host) : Option Frame × Host :=
  match (queue.get h.queues).pop? with
  | none => (none, h)
  | some (f, q) => (some f, { h with queues := queue.set h.queues q })

def count (counter : CounterName) (add sub : Nat) (h : Host) : Host :=
  match counter with
  | .tx => { h with queues.txWaiting := (h.queues.txWaiting.add add).sub sub }
  | .rx => { h with queues.rxWaiting := (h.queues.rxWaiting.add add).sub sub }

/-- Sets the level of a pin and the operation on it that fails. -/
def setPin (name : PinName) (level : Option Bool) (failing : Option (Option PinOp)) (h : Host) :
    Bool × Host :=
  let pin := h.pins.get name
  let pin : Pin := ⟨level.getD pin.level, failing.getD pin.failing⟩
  (pin.level, { h with pins := h.pins.set name pin })

/-! ## performing -/

def performConsumer (p : Parts) : ConsumerStep → HostRoutine (Parts × Answer)
  | .awaitAll target timeout => do return (p, .events (← HostRoutine.awaitAll target timeout))
  | .awaitAny target timeout => do return (p, .events (← HostRoutine.awaitAny target timeout))
  | .take target => do return (p, .events (← HostRoutine.take target))
  | .putBack events => do
    HostRoutine.putBack events
    return (p, .nothing)
  | .associateIfAllowed => do
    let (association, outcome) ← p.association.associateIfAllowed
    return ({ p with association }, .attempted outcome)
  | .associate => do
    let (association, outcome) ← p.association.associate
    return ({ p with association }, .attempted outcome)
  | .awaitStatusIs target timeout => do
    return (p, .flag (← HostRoutine.awaitStatusIs target timeout))
  | .awaitStatus accept timeout => do return (p, .flag (← HostRoutine.awaitStatus accept timeout))
  | .awaitReport accept timeout => do
    return (p, .flag (← HostRoutine.awaitReport accept timeout))

/-- The consumer side after a step of the host: a claim that succeeds obtains it. -/
def afterHostStep (p : Parts) : HostAnswer → Parts
  | .claimed (.ok ()) => { p with holdsWaiter := true }
  | _ => p

def perform (p : Parts) : Step → HostRoutine (Parts × Answer)
  | .host s => do
    let a ← s.perform
    return (p.afterHostStep a, .host a)
  | .consumer s => if p.holdsWaiter then p.performConsumer s else return (p, .noWaiter)
  | .dropWaiter => return ({ p with holdsWaiter := false }, .nothing)
  | .drop timeout => do return (p, .dropped (← Association.drop timeout))
  | .attempts => return (p, .attempts p.association.attempts)
  | .loadCredentials => do return (p, .credentials (Credentials.ofStore (← Routine.world).store))
  | .reset => do return (p, .reset (← HostRoutine.reset))
  | .receiveReady => do return (p, .ready (← Routine.world).receiveReady)
  | .transferReady => do return (p, .ready (← Routine.world).transferReady)
  | .pin name level failing => do
    return (p, .level (← Routine.act fun _ h => setPin name level failing h))
  | .reportCode code => do
    Routine.change (·.report (RadioStatus.ofCode code))
    return (p, .nothing)
  | .count counter add sub => do
    Routine.change (Parts.count counter add sub)
    let q := (← Routine.world).queues
    return (p, .counters q.txWaiting.count q.rxWaiting.count q.txWaiting.count)
  | .send queue length fill => do
    return (p, .sent (← Routine.act fun _ h => Parts.send queue length fill h))
  | .receive queue => do return (p, .received (← Routine.act fun _ h => Parts.receive queue h))
  | .write data => do
    return (p, .written (← Routine.act fun _ h =>
      let r := h.queues.responses.write data
      (r.1, { h with queues.responses := r.2 })))
  | .read max => do
    return (p, .bytes (← Routine.act fun _ h =>
      let r := h.queues.responses.read max
      (r.1, { h with queues.responses := r.2 })))

/-- A session on the parts; the contexts start before its first step. -/
def session (setup : HostSetup) (settings : AssociationSettings) (steps : List Step) :
    List (Entry Action Host Parts Answer) :=
  let start := setup.timeline
  (Session.drive perform Host.clear { association := { settings } }
    { start with world := start.world.startContexts } steps).1

end Parts

end Uplink
