import Uplink.Bench.Session
import Uplink.Host.Routine

/-!
# The host on the bench

How a host is set up for a session, and the steps that every session on a host knows.

* `HostSetup.host`                   the host at the start of a session;
* `HostStep.perform`                 performs a step;
* `HostSetup.size`, `HostStep.size`  bounds on how much they can bring about.
-/

namespace Uplink

/-! ## set-up -/

structure HostSetup where
  clock : Nat := 0
  ssid : Option (Option ByteArray) := none
  psk : Option (Option ByteArray) := none
  feeds : FeedChange := {}
  interface : InterfaceChange := {}

namespace HostSetup

def store : Store := ⟨some "home".toUTF8, some "hunter22".toUTF8⟩

def firmware : String := "2.3.1"

def address : HardwareAddress := ⟨#v[0xc8, 0x93, 0x46, 0x01, 0x02, 0x03]⟩

/-- The co-processor of the bench: every request succeeds at once and nothing is reported. -/
def coprocessor : Coprocessor where
  modes := .always ()
  connections := .always ()
  disconnections := .always ()
  firmware := .always firmware
  addresses := .always address

def host (s : HostSetup) : Host where
  store := ⟨s.ssid.getD store.ssid, s.psk.getD store.psk⟩
  coprocessor := s.feeds.applyTo coprocessor
  interface := s.interface.applyTo {}

def timeline (s : HostSetup) : Timeline Action Host := { now := s.clock, world := s.host }

def size (s : HostSetup) : Nat := s.feeds.size

end HostSetup

/-! ## steps -/

inductive HostStep where
  | act (a : Action)
  | schedule (ticks : Nat) (a : Action)
  | advance (ticks : Nat)
  | claim

inductive HostAnswer where
  | nothing
  | action (r : ActionResult)
  | claimed (r : Except MailboxFault Unit)

namespace HostStep

def claimMailbox (h : Host) : Except MailboxFault Unit × Host :=
  match h.mailbox.claim with
  | .ok mailbox => (.ok (), { h with mailbox })
  | .error e => (.error e, h)

def perform : HostStep → HostRoutine HostAnswer
  | act a => Routine.act fun _ h =>
    let r := a.perform h
    (.action r.1, r.2)
  | schedule ticks a => do
    Routine.schedule ticks a
    return .nothing
  | advance ticks => do
    Routine.advance ticks
    return .nothing
  | claim => do return .claimed (← Routine.act fun _ h => claimMailbox h)

def actionSize : Action → Nat
  | .configureCoprocessor c => 1 + c.size
  | _ => 1

def size : HostStep → Nat
  | act a => actionSize a
  | schedule _ a => actionSize a
  | _ => 1

end HostStep

/-- Forgets the trace, the log and the pin drives of the step before. -/
def Host.clear (h : Host) : Host := { h with trace := #[], log := #[], drives := #[] }

end Uplink
