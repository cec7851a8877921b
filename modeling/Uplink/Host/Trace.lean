import Uplink.Coprocessor
import Uplink.RadioStatus

/-!
# Actions and the trace

What others do to the host, and the record of everything that happened at it.

* `Action`      what somebody other than the manager does, at once or at a given instant;
* `TraceEntry`  something that happened: a request, a call, an action of the agenda, or events
                that the mailbox accepted.
-/

namespace Uplink

/-- New settings of the interface; `none` leaves a setting as it is. -/
structure InterfaceChange where
  registerError : Option (Option StackFault) := none
  startError : Option (Option StackFault) := none
  stopError : Option (Option StackFault) := none
  lease : Option (Option Ipv4) := none
  deriving DecidableEq

/-- New queues of responses; `none` leaves a queue as it is. -/
structure FeedChange where
  modes : Option (List (Response Unit)) := none
  connections : Option (List (Response Unit)) := none
  disconnections : Option (List (Response Unit)) := none
  firmware : Option (List (Response String)) := none
  addresses : Option (List (Response HardwareAddress)) := none
  deriving DecidableEq

/-- What somebody other than the manager does to the host. -/
inductive Action where
  | reportCode (code : UInt8)
  | report (status : RadioStatus)
  | stackReady
  | requestReconnect
  | signal (events : EventSet)
  | observe (snapshot : Snapshot)
  | changeInterface (flags : Option Flags) (ipv4 : Option Ipv4)
  | addWaiting (n : Nat)
  | subWaiting (n : Nat)
  | writeStore (ssid psk : Option (Option ByteArray))
  | configureInterface (change : InterfaceChange)
  | configureCoprocessor (change : FeedChange)

inductive ActionResult where
  | nothing
  | accepted (b : Bool)
  | signalled (r : Except MailboxFault Unit)
  | waiting (n : Nat)
  deriving DecidableEq

inductive TraceEntry where
  | asked (time : Nat) (request : Request) (timeout : Nat)
  | called (time : Nat) (call : InterfaceCall)
  | fired (time : Nat) (action : Action) (result : ActionResult)
  /-- The mailbox accepted events of a producer. -/
  | accepted (events : EventSet)

end Uplink
