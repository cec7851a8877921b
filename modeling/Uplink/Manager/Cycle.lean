import Uplink.Manager.Startup

/-!
# The main loop of the manager

One cycle attempts an association if the status asks for one, waits for any event, mirrors the
status onto the link, reconciles address acquisition with the link, and serves a reconnect request
that the wait delivered.

* `CycleReport`    what a cycle did;
* `Manager.renew`  drops the association and makes it anew;
* `Manager.cycle`  one cycle;
* `Manager.run`    startup, repeated until it succeeds, and then cycles without end.
-/

namespace Uplink

structure CycleReport where
  /-- The events that its wait delivered. -/
  events : EventSet := EventSet.empty
  attempt : Option (Except AttemptFault AttemptOutcome) := none
  renewal : Option (Except AttemptFault AttemptOutcome) := none
  link : Option LinkChange := none
  address : Option AddressChange := none
  deriving DecidableEq

namespace Manager

open HostRoutine

/-- Drops the association and makes it anew; a disconnect that fails is only logged. -/
def renew (m : Manager) : HostRoutine (Manager × Except AttemptFault AttemptOutcome) := do
  note .reconnecting
  if let .error e ← Association.drop m.settings.disconnectTimeout then
    note (.disconnectFailed e)
  let (association, outcome) ← m.association.associate
  return ({ m with association }, outcome)

def associateIfNeeded (m : Manager) :
    HostRoutine (Manager × Option (Except AttemptFault AttemptOutcome)) := do
  if (← status).mayAssociate then
    let (association, outcome) ← m.association.associateIfAllowed
    return (← { m with association }.recordAttempt outcome, some outcome)
  else
    return (m, none)

def renewIfAsked (m : Manager) (events : EventSet) :
    HostRoutine (Manager × Option (Except AttemptFault AttemptOutcome)) := do
  if events.Has .reconnectRequested then
    let (m, outcome) ← m.renew
    return (← m.recordAttempt outcome, some outcome)
  else
    return (m, none)

def cycle (m : Manager) : HostRoutine (Manager × CycleReport) := do
  let (m, attempt) ← m.associateIfNeeded
  let events ← awaitAny EventSet.known m.settings.loopTimeout
  if events = EventSet.empty then
    note .loopTimedOut
  let (m, link) ← Routine.act m.mirrorStatus
  let (m, address) ← Routine.act m.reconcileAddress
  let (m, renewal) ← m.renewIfAsked events
  return (m, { events, attempt, renewal, link, address })

/-- Brings the interface up, again after the retry interval while that fails. -/
def establishAtLast : (rounds : Nat) → Manager → HostRoutine Manager
  | 0, _ => Routine.halt .unfinished
  | rounds + 1, m => do
    let (m, outcome) ← m.establish rounds
    match outcome with
    | .ok () => return m
    | .error e =>
      note (.startFailed e)
      Routine.sleep m.settings.queryPlan.interval
      establishAtLast rounds m

def loop : (rounds : Nat) → Manager → HostRoutine Empty
  | 0, _ => Routine.halt .unfinished
  | rounds + 1, m => do
    let (m, report) ← m.cycle
    note (.phase (m.phase (← Routine.world)))
    if let some (.failed e) := report.address then
      note (.addressChangeFailed e)
    loop rounds m

/-- The whole life of a manager.  It has no end of its own; the rounds bound each of its loops. -/
def run (rounds : Nat) (m : Manager) : HostRoutine Empty := do
  awaitStack
  let m ← establishAtLast rounds m
  loop rounds m

end Manager

end Uplink
