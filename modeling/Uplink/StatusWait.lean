import Uplink.Host.Routine

/-!
# Waiting for a status

Two waits of the consumer for a status of the co-processor.  Both watch the event of a status
update, look at the status once for each delivery of that event, and put the event back in the
end if they took it, so that the main loop still sees the update.

* `awaitReport`    until a report comes whose status is accepted; the status that was there from the
                   start does not count;
* `awaitStatus`    until the status is accepted; one accepted from the start is enough;
* `awaitStatusIs`  the same for one status.
-/

namespace Uplink.HostRoutine

def updates : EventSet := EventSet.single .statusUpdated

/-- Watches for status updates until `accept` holds after one of them or `deadline` has passed.
What is gathered is whether an update was taken; the answer adds whether it was accepted.  A log
entry goes with each wait for a further update. -/
def watch (accept : RadioStatus → Bool) (deadline : Option Nat) :
    Wait Host Bool (Bool × Bool) where
  look := fun now taken h =>
    let delivered := Host.port.take updates h
    if delivered.1 = EventSet.empty then (.pending taken, delivered.2)
    else if accept delivered.2.status then (.done (true, true), delivered.2)
    else if Clock.passed deadline now then (.done (true, false), delivered.2)
    else (.pending true, delivered.2.note (.waitStarted updates))
  expire := fun taken h => ((taken, false), h.note (.waitTimedOut updates))

/-- Waits for a report of an accepted status and tells whether it came.  An update that was taken is
put back.  A deadline that is not in the future is no wait at all. -/
def awaitReport (accept : RadioStatus → Bool) (timeout : Nat) : HostRoutine Bool := do
  let start ← Routine.now
  let deadline := Clock.after? start timeout
  if Clock.passed deadline start then return false
  note (.waitStarted updates)
  let (taken, accepted) ← Routine.await (watch accept deadline) deadline false
  if taken then putBack updates
  return accepted

def awaitStatus (accept : RadioStatus → Bool) (timeout : Nat) : HostRoutine Bool := do
  if accept (← status) then return true
  let _ ← awaitReport accept timeout
  return accept (← status)

def awaitStatusIs (target : RadioStatus) (timeout : Nat) : HostRoutine Bool :=
  awaitStatus (· == target) timeout

end Uplink.HostRoutine
