import Uplink.Bench.Host
import Uplink.Manager.Cycle

/-!
# Sessions on a manager

A session first performs steps on the host alone, then claims the mailbox for a manager and
performs steps on both.

* `ManagerBench.Step`     what can be done;
* `ManagerBench.perform`  does it;
* `ManagerBench.session`  a session.
-/

namespace Uplink.ManagerBench

inductive Step where
  | host (s : HostStep)
  | awaitStack
  | start
  | establish
  | cycle
  | renew
  | mirrorStatus
  | reconcileAddress
  | phase
  | moduleIdentity
  | requestReconnect
  /-- The manager runs until the clock would have to go further than `ticks` from now. -/
  | run (ticks : Nat)

inductive Answer where
  | nothing
  | host (a : HostAnswer)
  | started (r : Except StartFault Unit)
  | cycled (r : CycleReport)
  | attempted (r : Except AttemptFault AttemptOutcome)
  | link (a : Option LinkChange)
  | address (a : Option AddressChange)
  | phase (p : Phase)
  | module (info : Option ModuleIdentity)
  | flag (b : Bool)

def Step.size : Step → Nat
  | host s => s.size
  | _ => 1

/-- Performs a step; `rounds` bounds the loops of the manager, not counting those that time
bounds. -/
def perform (rounds : Nat) (m : Manager) : Step → HostRoutine (Manager × Answer)
  | .host s => do return (m, .host (← s.perform))
  | .awaitStack => do
    Manager.awaitStack
    return (m, .nothing)
  | .start => do
    let (m, r) ← m.start rounds
    return (m, .started r)
  | .establish => do
    let (m, r) ← m.establish rounds
    return (m, .started r)
  | .cycle => do
    let (m, r) ← m.cycle
    return (m, .cycled r)
  | .renew => do
    let (m, r) ← m.renew
    return (m, .attempted r)
  | .mirrorStatus => do
    let (m, a) ← Routine.act m.mirrorStatus
    return (m, .link a)
  | .reconcileAddress => do
    let (m, a) ← Routine.act m.reconcileAddress
    return (m, .address a)
  | .phase => do return (m, .phase (m.phase (← Routine.world)))
  | .moduleIdentity => return (m, .module m.module)
  | .requestReconnect => do
    return (m, .flag (← Routine.act fun _ h =>
      h.signalAccepted (EventSet.single .reconnectRequested)))
  | .run ticks => do
    Routine.limit ticks
    let never ← m.run (rounds + ticks)
    nomatch never

structure Setup where
  host : HostSetup := {}
  settings : Settings := {}
  association : AssociationSettings := {}
  showsBacklog : Bool := false

def Setup.manager (s : Setup) : Manager where
  settings := s.settings
  association := { settings := s.association }
  showsBacklog := s.showsBacklog

/-- Rounds enough for the loops of a session: each round has a response, an action, an event or a
tick of its own. -/
def rounds (setup : Setup) (before : List HostStep) (steps : List Step) : Nat :=
  let sizes := before.map HostStep.size ++ steps.map Step.size
  8 * sizes.foldl (fun total size => total + size) (4 + setup.host.size)

/-- The course of a session: the steps before the manager, and the steps with it, unless the
mailbox had a consumer already. -/
structure Course where
  before : List (Entry Action Host Unit HostAnswer)
  steps : Except MailboxFault (List (Entry Action Host Manager Answer))

def sessionFrom (rounds : Nat) (m : Manager) (steps : List Step) :
    Option (Unit × Timeline Action Host) →
      Except MailboxFault (List (Entry Action Host Manager Answer))
  | none => .ok []
  | some (_, tl) =>
    match tl.world.mailbox.claim with
    | .error e => .error e
    | .ok mailbox =>
      .ok (Session.drive (perform rounds) Host.clear m
        { tl with world := { tl.world with mailbox } } steps).1

def session (setup : Setup) (before : List HostStep) (steps : List Step) : Course :=
  let first := Session.drive (fun _ s => return ((), ← s.perform)) Host.clear ()
    setup.host.timeline before
  { before := first.1
    steps := sessionFrom (rounds setup before steps) setup.manager steps first.2 }

end Uplink.ManagerBench
