import Uplink.Host.Routine

/-!
# Transfer contexts

What the transfer tasks do with the pins of the host.

* `Host.startContexts`                       the contexts come into being;
* `HostRoutine.reset`                        a reset pulse, with chip select released;
* `Host.receiveReady`, `Host.transferReady`  the two pins that are read.
-/

namespace Uplink

namespace Host

def receiveReady (h : Host) : Except PinFault Bool := h.pins.read .notify

def transferReady (h : Host) : Except PinFault Bool := h.pins.read .flow

/-- Drives a pin at the instant `now`; the attempt is kept whether it failed or not. -/
def drive (h : Host) (now : Nat) (pin : PinName) (level : Bool) : Except PinFault Unit × Host :=
  let r := h.pins.drive pin level
  (r.1, { h with pins := r.2, drives := h.drives.push ⟨now, pin, level, r.1.isOk⟩ })

def startContexts (h : Host) : Host := h.note .contextsStarted

end Host

namespace HostRoutine

def drive (pin : PinName) (level : Bool) : HostRoutine (Except PinFault Unit) :=
  Routine.act fun now h => h.drive now pin level

/-- How long the reset pin is held low, in ticks. -/
def resetPulse : Nat := 1000

/-- How long the co-processor is given to start afterwards, in ticks. -/
def resetRecovery : Nat := 2000

/-- Releases chip select and pulses the reset pin.  A chip select that fails is only logged. -/
def reset : HostRoutine (Except PinFault Unit) := do
  note .resetStarted
  if let .error _ ← drive .nss true then
    note .chipSelectStuck
  match ← drive .reset false with
  | .error e => return .error e
  | .ok () =>
    Routine.sleep resetPulse
    match ← drive .reset true with
    | .error e => return .error e
    | .ok () =>
      Routine.sleep resetRecovery
      return .ok ()

end HostRoutine

end Uplink
