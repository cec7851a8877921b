import Uplink.Settings
import Uplink.StatusWait

/-!
# Association with the access point

An attempt selects the station mode, reads the credentials, asks the co-processor to connect, and
waits for it to report that the station is up.  Only a report made after the request counts;
updates that were pending before it are set aside and put back.

* `HostRoutine.ask`                 a request to the co-processor;
* `Association.associate`           an attempt, whatever the status;
* `Association.associateIfAllowed`  an attempt, unless the status rules it out;
* `Association.drop`                the co-processor gives the association up.
-/

namespace Uplink

/-! ## requests -/

namespace HostRoutine

/-- Asks the co-processor and does what its response says.  A response that takes longer than
`timeout` is given up, and its late reports do not come. -/
def ask {α : Type} (request : Request) (draw : Coprocessor → Response α × Coprocessor)
    (timeout : Nat) : HostRoutine (Except TransportFault α) := do
  let response ← Routine.act fun now h =>
    let drawn := draw h.coprocessor
    (drawn.1, { h with coprocessor := drawn.2 }.record (.asked now request timeout))
  Routine.change (·.reportCodes response.early)
  if timeout < response.delay then
    Routine.sleep timeout
    return .error .timeout
  if 0 < response.delay then
    Routine.sleep response.delay
  Routine.change (·.reportCodes response.late)
  return response.outcome

def selectMode (mode : RadioMode) (timeout : Nat) : HostRoutine (Except TransportFault Unit) :=
  ask (.selectMode mode) Coprocessor.nextMode timeout

def requestConnect (c : Credentials) (timeout : Nat) : HostRoutine (Except TransportFault Unit) :=
  ask (.connect c.ssid c.psk) Coprocessor.nextConnection timeout

def requestDisconnect (timeout : Nat) : HostRoutine (Except TransportFault Unit) :=
  ask .disconnect Coprocessor.nextDisconnection timeout

def requestFirmware (timeout : Nat) : HostRoutine (Except TransportFault String) :=
  ask .firmwareVersion Coprocessor.nextFirmware timeout

def requestAddress (timeout : Nat) : HostRoutine (Except TransportFault HardwareAddress) :=
  ask .hardwareAddress Coprocessor.nextAddress timeout

end HostRoutine

/-! ## attempts -/

inductive AttemptOutcome where
  /-- The status rules an attempt out; nothing was asked. -/
  | alreadyActive
  /-- The co-processor reported that the station is up. -/
  | stationUp
  /-- The request was accepted, the report did not come in time. -/
  | pending
  deriving DecidableEq, Repr

namespace AttemptOutcome

def name : AttemptOutcome → String
  | alreadyActive => "AlreadyActive"
  | stationUp => "StationUp"
  | pending => "Pending"

def isConfirmed (o : AttemptOutcome) : Bool := o == stationUp

end AttemptOutcome

/-- Settings of association attempts and the number of attempts made, a word of 32 bits. -/
structure Association where
  settings : AssociationSettings := {}
  attempts : UInt32 := 0
  deriving DecidableEq, Repr

namespace Association

open HostRoutine

/-- Asks to connect and waits for the report.  Updates pending before the request are set aside, so
that they do not count as the report, and are put back in the end. -/
def request (a : Association) (c : Credentials) :
    HostRoutine (Except AttemptFault AttemptOutcome) := do
  let stale ← take updates
  match ← requestConnect c a.settings.connectTimeout with
  | .error e =>
    note (.connectFailed e)
    putBack stale
    return .error (.transport e)
  | .ok () =>
    let up ← awaitReport RadioStatus.isAssociated a.settings.stationUpTimeout
    putBack stale
    if up then
      note .associated
      return .ok .stationUp
    else
      note (.stationUpMissing (← status))
      return .ok .pending

/-- One attempt, from the selection of the mode to its outcome. -/
def attempt (a : Association) : HostRoutine (Except AttemptFault AttemptOutcome) := do
  match ← selectMode .station a.settings.modeTimeout with
  | .error e =>
    note (.modeFailed e)
    return .error (.transport e)
  | .ok () =>
    match Credentials.ofStore (← Routine.world).store with
    | .error e =>
      note (.credentialsUnavailable e)
      return .error e
    | .ok c =>
      note (.connecting c.ssid a.attempts)
      a.request c

def associate (a : Association) :
    HostRoutine (Association × Except AttemptFault AttemptOutcome) := do
  let counted := { a with attempts := a.attempts + 1 }
  return (counted, ← counted.attempt)

def associateIfAllowed (a : Association) :
    HostRoutine (Association × Except AttemptFault AttemptOutcome) := do
  let current ← status
  if current.mayAssociate then
    a.associate
  else
    note (.connectSkipped current)
    return (a, .ok .alreadyActive)

def drop (timeout : Nat) : HostRoutine (Except AttemptFault Unit) := do
  return (← requestDisconnect timeout).mapError .transport

end Association

end Uplink
