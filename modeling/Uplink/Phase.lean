import Uplink.Interface
import Uplink.RadioStatus

/-!
# Phases of the connection

* `LinkChange`     what a status means for the link of the interface;
* `AddressChange`  what was done about address acquisition;
* `Phase`          the connection in one word.
-/

namespace Uplink

inductive LinkChange where
  | up
  | down
  /-- The status is not known; the link goes up to be on the safe side. -/
  | failSafeUp
  deriving DecidableEq, Repr

namespace LinkChange

def ofStatus (s : RadioStatus) : LinkChange :=
  if s.isUnknown then .failSafeUp else if s.carriesTraffic then .up else .down

def name : LinkChange → String
  | up => "Up"
  | down => "Down"
  | failSafeUp => "FailSafeUp"

def call : LinkChange → InterfaceCall
  | up | failSafeUp => .setLinkUp
  | down => .setLinkDown

end LinkChange

inductive AddressChange where
  | started
  | released
  | failed (e : StackFault)
  deriving DecidableEq, Repr

inductive Phase where
  | idle
  /-- Association requested, station up not reported yet. -/
  | associating
  /-- The radio link is usable, address acquisition does not run. -/
  | linked
  | addressAcquiring
  | connected
  /-- The radio link is gone while the interface still holds link or address. -/
  | linkLost
  deriving DecidableEq, Repr

namespace Phase

def name : Phase → String
  | idle => "Idle"
  | associating => "Associating"
  | linked => "Linked"
  | addressAcquiring => "AddressAcquiring"
  | connected => "Connected"
  | linkLost => "LinkLost"

def text : Phase → String
  | idle => "Idle"
  | associating => "Associating"
  | linked => "Linked"
  | addressAcquiring => "Address Acquiring"
  | connected => "Connected"
  | linkLost => "Link Lost"

/-- The phase that follows from the status of the co-processor, the interface, and what the manager
knows: whether acquisition runs and whether an association is under way. -/
def of (status : RadioStatus) (interface : Snapshot) (acquiring underWay : Bool) : Phase :=
  if status.carriesTraffic || status.isUnknown then
    if interface.hasLink && interface.hasAddress then connected
    else if interface.hasLink && acquiring then addressAcquiring
    else linked
  else if interface.hasLink || interface.hasAddress || acquiring then linkLost
  else if underWay then associating
  else idle

end Phase

end Uplink
