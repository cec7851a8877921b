import Uplink.Event
import Uplink.Fault

/-!
# The network interface

What the TCP/IP stack knows of the interface: its flags, its address and whether it is acquiring an
address.  A snapshot is the part that observers see.

* `Snapshot.eventsBetween`  the events between two snapshots;
* `Interface.refusal`       the failure with which the stack meets a call, if it does;
* `Interface.call`          what a call that does not fail makes of the interface.
-/

namespace Uplink

/-! ## addresses -/

/-- An IPv4 address, most significant byte first. -/
structure Ipv4 where
  a : UInt8 := 0
  b : UInt8 := 0
  c : UInt8 := 0
  d : UInt8 := 0
  deriving DecidableEq, Repr

def Ipv4.unspecified : Ipv4 := {}

/-- A hardware address, in order of transmission. -/
structure HardwareAddress where
  octets : Vector UInt8 6
  deriving DecidableEq, Repr

def HardwareAddress.zero : HardwareAddress := ⟨Vector.replicate 6 0⟩

/-! ## snapshots -/

/-- Interface flags; only `up` and `linkUp` have a meaning, the other bits are kept. -/
abbrev Flags := BitVec 8

namespace Flags

def none : Flags := 0#8

def up : Flags := 0x01#8

def linkUp : Flags := 0x04#8

def named : List (String × Flags) := [("UP", up), ("LINK_UP", linkUp)]

end Flags

structure Snapshot where
  flags : Flags := Flags.none
  ipv4 : Ipv4 := Ipv4.unspecified
  deriving DecidableEq, Repr

namespace Snapshot

def down : Snapshot := {}

def isAdminUp (s : Snapshot) : Bool := s.flags.getLsbD 0

def hasLink (s : Snapshot) : Bool := s.flags.getLsbD 2

def hasAddress (s : Snapshot) : Bool := s.ipv4 != Ipv4.unspecified

/-- The event of a flag that moved from `before` to `after`, if it moved. -/
def edge (before after : Bool) (rise fall : Event) : EventSet :=
  if before = after then EventSet.empty
  else if after then EventSet.single rise else EventSet.single fall

def eventsBetween (previous current : Snapshot) : EventSet :=
  edge previous.isAdminUp current.isAdminUp .interfaceUp .interfaceDown |||
  edge previous.hasLink current.hasLink .linkUp .linkDown |||
  (if previous.ipv4 = current.ipv4 then EventSet.empty else EventSet.single .ipAddressChanged)

theorem edge_self (b : Bool) (rise fall : Event) : edge b b rise fall = EventSet.empty := by
  simp [edge]

theorem edge_eq_empty_iff {before after : Bool} {rise fall : Event} :
    edge before after rise fall = EventSet.empty ↔ before = after := by
  unfold edge
  split
  · simp_all
  · rename_i h
    split
    · exact ⟨fun e => absurd e (EventSet.single_ne_empty rise), fun e => absurd e h⟩
    · exact ⟨fun e => absurd e (EventSet.single_ne_empty fall), fun e => absurd e h⟩

theorem eventsBetween_self (s : Snapshot) : eventsBetween s s = EventSet.empty := by
  simp [eventsBetween, edge_self, EventSet.empty]

end Snapshot

/-! ## the interface in the stack -/

/-- The interface as the stack holds it.  Settings decide which calls fail and which address a
lease brings. -/
structure Interface where
  snapshot : Snapshot := Snapshot.down
  acquiring : Bool := false
  isDefault : Bool := false
  mac : Option HardwareAddress := none
  /-- The failure of the next registrations. -/
  registerError : Option StackFault := none
  startError : Option StackFault := none
  stopError : Option StackFault := none
  /-- The address that acquisition brings at once. -/
  lease : Option Ipv4 := none
  deriving DecidableEq, Repr

inductive InterfaceCall where
  | register (mac : HardwareAddress)
  | setDefault
  | setUp
  | setLinkUp
  | setLinkDown
  | startAcquisition
  | releaseAndStop
  deriving DecidableEq, Repr

namespace Interface

def withSnapshot (i : Interface) (s : Snapshot) : Interface := { i with snapshot := s }

/-- The failure with which the interface meets a call. -/
def refusal (i : Interface) : InterfaceCall → Option StackFault
  | .register _ => i.registerError
  | .startAcquisition => i.startError
  | .releaseAndStop => i.stopError
  | _ => none

def call (i : Interface) : InterfaceCall → Interface
  | .register mac => { i with mac := some mac }
  | .setDefault => { i with isDefault := true }
  | .setUp => { i with snapshot.flags := i.snapshot.flags ||| Flags.up }
  | .setLinkUp => { i with snapshot.flags := i.snapshot.flags ||| Flags.linkUp }
  | .setLinkDown => { i with snapshot.flags := i.snapshot.flags &&& ~~~Flags.linkUp }
  | .startAcquisition =>
    { i with acquiring := true, snapshot.ipv4 := i.lease.getD i.snapshot.ipv4 }
  | .releaseAndStop => { i with acquiring := false, snapshot.ipv4 := Ipv4.unspecified }

/-! ### what the calls leave -/

theorem hasLink_setLinkUp (i : Interface) : (i.call .setLinkUp).snapshot.hasLink = true := by
  show (i.snapshot.flags ||| Flags.linkUp).getLsbD 2 = true
  rw [BitVec.getLsbD_or]
  simp [Flags.linkUp]

theorem hasLink_setLinkDown (i : Interface) : (i.call .setLinkDown).snapshot.hasLink = false := by
  show (i.snapshot.flags &&& ~~~Flags.linkUp).getLsbD 2 = false
  rw [BitVec.getLsbD_and]
  simp [Flags.linkUp]

theorem isAdminUp_setUp (i : Interface) : (i.call .setUp).snapshot.isAdminUp = true := by
  show (i.snapshot.flags ||| Flags.up).getLsbD 0 = true
  rw [BitVec.getLsbD_or]
  simp [Flags.up]

theorem hasLink_setUp (i : Interface) : (i.call .setUp).snapshot.hasLink = i.snapshot.hasLink := by
  show (i.snapshot.flags ||| Flags.up).getLsbD 2 = i.snapshot.flags.getLsbD 2
  rw [BitVec.getLsbD_or]
  simp [Flags.up]

theorem hasLink_startAcquisition (i : Interface) :
    (i.call .startAcquisition).snapshot.hasLink = i.snapshot.hasLink := rfl

end Interface

end Uplink
