import Uplink.Fault
import Uplink.Interface

/-!
# The co-processor

Five requests can be made of the co-processor.  What it does for each is given from outside, as a
feed of responses: each request of a kind gets the next one, whatever it may be.  A response may
report statuses before and after the time it takes.

* `Request`      what was asked, as the trace records it;
* `Response`     what the co-processor does for one request;
* `Feed`         the responses to all requests of one kind;
* `Coprocessor`  one feed for each kind of request.
-/

namespace Uplink

/-! ## requests -/

inductive RadioMode where
  | station
  | accessPoint
  deriving DecidableEq, Repr

def RadioMode.name : RadioMode → String
  | .station => "Station"
  | .accessPoint => "AccessPoint"

inductive Request where
  | selectMode (mode : RadioMode)
  | connect (ssid psk : String)
  | disconnect
  | firmwareVersion
  | hardwareAddress
  deriving DecidableEq, Repr

/-! ## responses -/

/-- What the co-processor does for one request: reports at once, takes its time, reports again and
answers.  A request that allows less time than `delay` is given up when its time is over. -/
structure Response (α : Type) where
  early : List UInt8 := []
  delay : Nat := 0
  late : List UInt8 := []
  outcome : Except TransportFault α
  deriving DecidableEq

/-- The responses to the requests of one kind: those in the queue, and then the standing ones. -/
structure Feed (α : Type) where
  queue : List (Response α) := []
  standing : Nat → Response α
  /-- How many of the standing responses were given. -/
  served : Nat := 0

namespace Feed

variable {α : Type}

def always (a : α) : Feed α := { standing := fun _ => { outcome := .ok a } }

def next (f : Feed α) : Response α × Feed α :=
  match f.queue with
  | r :: rest => (r, { f with queue := rest })
  | [] => (f.standing f.served, { f with served := f.served + 1 })

def withQueue (f : Feed α) (queue : Option (List (Response α))) : Feed α :=
  { f with queue := queue.getD f.queue }

end Feed

/-- Longest firmware revision, in bytes. -/
def firmwareLimit : Nat := 32

/-- A firmware revision that does not fit is a failure of the transport. -/
def firmwareRevision (text : String) : Except TransportFault String :=
  if text.utf8ByteSize ≤ firmwareLimit then .ok text else .error .internal

structure Coprocessor where
  modes : Feed Unit
  connections : Feed Unit
  disconnections : Feed Unit
  firmware : Feed String
  addresses : Feed HardwareAddress

namespace Coprocessor

def nextMode (c : Coprocessor) : Response Unit × Coprocessor :=
  (c.modes.next.1, { c with modes := c.modes.next.2 })

def nextConnection (c : Coprocessor) : Response Unit × Coprocessor :=
  (c.connections.next.1, { c with connections := c.connections.next.2 })

def nextDisconnection (c : Coprocessor) : Response Unit × Coprocessor :=
  (c.disconnections.next.1, { c with disconnections := c.disconnections.next.2 })

def nextFirmware (c : Coprocessor) : Response String × Coprocessor :=
  (c.firmware.next.1, { c with firmware := c.firmware.next.2 })

def nextAddress (c : Coprocessor) : Response HardwareAddress × Coprocessor :=
  (c.addresses.next.1, { c with addresses := c.addresses.next.2 })

end Coprocessor

end Uplink
