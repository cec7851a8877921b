import Uplink.Manager.Basic

/-!
# Startup of the manager

The manager waits for the TCP/IP stack, asks the module for its firmware and address as often as
the retry plan allows, registers the interface and brings it up.

* `Manager.awaitStack`      waits until the stack is ready;
* `Manager.identifyModule`  asks the module until it answers or the plan ends;
* `Manager.attach`          registers the interface and brings it up;
* `Manager.establish`       the last two of these;
* `Manager.start`           all three.

The number of rounds of `identifyModule` bounds its recursion; a run that needs more comes to the
halt `Halt.unfinished`.
-/

namespace Uplink.Manager

open HostRoutine

/-- The longest duration: a wait of this length has no end. -/
def noTimeout : Nat := Clock.lastTick

def awaitStack : HostRoutine Unit := do
  note .awaitingStack
  let _ ← awaitAll (EventSet.single .linkStackReady) noTimeout
  note .stackReady

def identifyOnce (timeout : Nat) : HostRoutine (Except TransportFault ModuleIdentity) := do
  match ← requestFirmware timeout with
  | .error e => return .error e
  | .ok firmware =>
    note (.firmwareVersion firmware)
    match ← requestAddress timeout with
    | .error e => return .error e
    | .ok mac =>
      note (.hardwareAddress mac)
      return .ok ⟨firmware, mac⟩

/-- The number of the attempt after attempt `n`, in a word of 32 bits that saturates. -/
def nextAttempt (n : Nat) : Nat := min (n + 1) 0xFFFFFFFF

/-- Asks the module until it answers or the plan ends; `attempt` is the number of the next
attempt. -/
def identifyModule (settings : Settings) :
    (rounds attempt : Nat) → HostRoutine (Except TransportFault ModuleIdentity)
  | 0, _ => Routine.halt .unfinished
  | rounds + 1, attempt => do
    match ← identifyOnce settings.queryTimeout with
    | .ok module => return .ok module
    | .error e =>
      match settings.queryPlan.delayAfter attempt with
      | some delay =>
        note (.queryFailed e delay)
        Routine.sleep delay
        identifyModule settings rounds (nextAttempt attempt)
      | none =>
        note (.queryGivenUp attempt e)
        return .error e

/-- Mirrors a status that the station had before the manager started, and starts address
acquisition. -/
def adopt (m : Manager) (now : Nat) (h : Host) : Manager × Host :=
  if h.status.isAssociated then
    let status := h.status
    let h := ((h.note (.alreadyAssociated status)).use now .setLinkUp).2
    let r := { m with mirrored := some status }.startAcquisition now h
    (r.1.1, r.2)
  else (m, h)

def attach (m : Manager) (module : ModuleIdentity) (now : Nat) (h : Host) :
    (Manager × Except StartFault Unit) × Host :=
  match h.use now (.register module.mac) with
  | (.error e, h) => ((m, .error (.register e)), h.note (.registerFailed e))
  | (.ok (), h) =>
    let h := ((h.use now .setDefault).2.use now .setUp).2
    let r := { m with module := some module }.adopt now h
    ((r.1, .ok ()), r.2)

def establish (rounds : Nat) (m : Manager) : HostRoutine (Manager × Except StartFault Unit) := do
  match ← identifyModule m.settings rounds 1 with
  | .error e => return (m, .error (.moduleQuery e))
  | .ok module => Routine.act (m.attach module)

def start (rounds : Nat) (m : Manager) : HostRoutine (Manager × Except StartFault Unit) := do
  awaitStack
  m.establish rounds

end Uplink.Manager
