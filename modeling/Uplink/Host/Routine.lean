import Uplink.Host.Perform

/-!
# Routines of the host

Computations on a timeline whose world is a host, and the steps that they are made of.

* `HostRoutine.note`                                a message for the log;
* `HostRoutine.take`, `HostRoutine.putBack`         the mailbox without waiting;
* `HostRoutine.awaitAll`, `HostRoutine.awaitAny`    the waits on the mailbox.
-/

namespace Uplink

abbrev HostRoutine := Routine Action Host

namespace HostRoutine

def note (e : LogEntry) : HostRoutine Unit := Routine.change (·.note e)

def status : HostRoutine RadioStatus := do return (← Routine.world).status

/-- Takes pending events of the mailbox without waiting. -/
def take (target : EventSet) : HostRoutine EventSet :=
  Routine.act fun _ h => Host.port.take target h

def putBack (events : EventSet) : HostRoutine Unit := Routine.change (Host.port.putBack events)

def awaitAll (target : EventSet) (timeout : Nat) : HostRoutine EventSet :=
  Host.port.awaitAll target timeout

def awaitAny (target : EventSet) (timeout : Nat) : HostRoutine EventSet :=
  Host.port.awaitAny target timeout

end HostRoutine

end Uplink
