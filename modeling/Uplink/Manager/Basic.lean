import Uplink.Association

/-!
# The connection manager

The manager owns the interface.  It knows the module behind the interface, the status that the
link of the interface mirrors, whether it started address acquisition, and whether an association
is under way.

* `Manager.phase`, `Manager.view`  what can be read off a manager;
* `Manager.mirrorStatus`           brings the link in line with the status;
* `Manager.reconcileAddress`       brings address acquisition in line with the link;
* `Manager.recordAttempt`          takes over the outcome of an association attempt.
-/

namespace Uplink

structure ModuleIdentity where
  firmware : String
  mac : HardwareAddress
  deriving DecidableEq, Repr

structure Manager where
  settings : Settings := {}
  association : Association := {}
  /-- The view shows the packets that wait for sending. -/
  showsBacklog : Bool := false
  module : Option ModuleIdentity := none
  /-- The status that the link of the interface mirrors. -/
  mirrored : Option RadioStatus := none
  acquiring : Bool := false
  /-- The last association attempt was accepted but not confirmed. -/
  underWay : Bool := false
  /-- How often an unknown status forced the link up, a word of 32 bits. -/
  failSafeLinks : UInt32 := 0

structure ManagerView where
  phase : Phase
  status : RadioStatus
  link : Bool
  ipv4 : Ipv4
  acquiring : Bool
  txPending : Nat
  attempts : UInt32
  failSafeLinks : UInt32
  deriving DecidableEq

namespace Manager

/-! ## reading -/

def phase (m : Manager) (h : Host) : Phase :=
  Phase.of h.status h.interface.snapshot m.acquiring m.underWay

def view (m : Manager) (h : Host) : ManagerView where
  phase := m.phase h
  status := h.status
  link := h.interface.snapshot.hasLink
  ipv4 := h.interface.snapshot.ipv4
  acquiring := m.acquiring
  txPending := if m.showsBacklog then h.queues.txWaiting.count else 0
  attempts := m.association.attempts
  failSafeLinks := m.failSafeLinks

/-! ## address acquisition -/

def startAcquisition (m : Manager) (now : Nat) (h : Host) : (Manager × AddressChange) × Host :=
  match h.use now .startAcquisition with
  | (.ok (), h) => (({ m with acquiring := true }, .started), h.note .acquisitionStarted)
  | (.error e, h) => ((m, .failed e), h.note (.acquisitionFailed e))

def releaseAndStop (m : Manager) (now : Nat) (h : Host) : (Manager × AddressChange) × Host :=
  match h.use now .releaseAndStop with
  | (.ok (), h) => (({ m with acquiring := false }, .released), h.note .addressReleased)
  | (.error e, h) => ((m, .failed e), h.note (.releaseFailed e))

/-- Brings address acquisition in line with the link: with the link down, an address or a running
acquisition is given up; with the link up, acquisition is started if it does not run. -/
def reconcileAddress (m : Manager) (now : Nat) (h : Host) :
    (Manager × Option AddressChange) × Host :=
  if h.interface.snapshot.hasLink then
    if m.acquiring then ((m, none), h)
    else
      let r := m.startAcquisition now h
      ((r.1.1, some r.1.2), r.2)
  else
    if h.interface.snapshot.hasAddress || m.acquiring then
      let r := m.releaseAndStop now h
      ((r.1.1, some r.1.2), r.2)
    else ((m, none), h)

/-! ## the link -/

/-- What the manager knows after it has mirrored another status.  The end of a pending association
is taken from a status that follows a mirrored one; the first status of all says nothing of it. -/
def afterMirroring (m : Manager) (status : RadioStatus) : Manager :=
  { m with
    mirrored := some status
    underWay := m.underWay && m.mirrored.isNone
    failSafeLinks := if status.isUnknown then m.failSafeLinks + 1 else m.failSafeLinks }

def noteUnknown (status : RadioStatus) (h : Host) : Host :=
  match status with
  | .unknown code => h.note (.unknownStatus code)
  | _ => h

/-- Brings the link in line with the status, unless that status is mirrored already. -/
def mirrorStatus (m : Manager) (now : Nat) (h : Host) : (Manager × Option LinkChange) × Host :=
  let status := h.status
  if m.mirrored = some status then ((m, none), h)
  else
    let change := LinkChange.ofStatus status
    let h := ((noteUnknown status h).use now change.call).2
    ((m.afterMirroring status, some change), h.note (.linkChanged change status))

/-! ## association -/

def recordAttempt (m : Manager) (outcome : Except AttemptFault AttemptOutcome) :
    HostRoutine Manager := do
  if let .error e := outcome then
    HostRoutine.note (.attemptFailed e)
  return { m with underWay := decide (outcome = .ok .pending) }

end Manager

end Uplink
