/-!
# Transfer queues, counters and pins

What the transfer tasks share with the connection manager: two queues of frames to send, a pipe of
response bytes, two packet counters, and the four pins between host and co-processor.

* `FrameQueue.push?`, `FrameQueue.pop?`      first in, first out, at most four frames;
* `ResponsePipe.write`, `ResponsePipe.read`  as many bytes as fit, as many as are there;
* `PacketCount.succ`, `PacketCount.pred`     counting with saturation at both ends;
* `Pins.drive`, `Pins.read`                  pins that may fail.
-/

namespace Uplink

/-! ## packet counters -/

/-- A count of packets in a word of 32 bits. -/
structure PacketCount where
  count : Nat := 0
  deriving DecidableEq, Repr

namespace PacketCount

def limit : Nat := 0xFFFFFFFF

def succ (c : PacketCount) : PacketCount := ⟨min (c.count + 1) limit⟩

def pred (c : PacketCount) : PacketCount := ⟨c.count - 1⟩

def add (c : PacketCount) (n : Nat) : PacketCount := n.repeat succ c

def sub (c : PacketCount) (n : Nat) : PacketCount := n.repeat pred c

end PacketCount

/-! ## frames -/

/-- Largest frame, in bytes. -/
def frameLimit : Nat := 1536

/-- Frames that a send queue holds. -/
def queueLimit : Nat := 4

/-- Bytes that the response pipe holds. -/
def pipeLimit : Nat := 512

/-- The bytes exchanged with the co-processor in one transfer. -/
structure Frame where
  bytes : List UInt8
  length_le : bytes.length ≤ frameLimit

/-- A frame of `length` equal bytes, unless it would be too long. -/
def Frame.filled? (length : Nat) (fill : UInt8) : Option Frame :=
  if h : length ≤ frameLimit then
    some ⟨List.replicate length fill, by rw [List.length_replicate]; exact h⟩
  else none

structure FrameQueue where
  frames : List Frame := []
  length_le : frames.length ≤ queueLimit := by decide

namespace FrameQueue

/-- Puts a frame at the end, unless the queue is full. -/
def push? (q : FrameQueue) (f : Frame) : Option FrameQueue :=
  if h : q.frames.length < queueLimit then
    some ⟨q.frames ++ [f], by rw [List.length_append]; exact h⟩
  else none

def pop? (q : FrameQueue) : Option (Frame × FrameQueue) :=
  match q with
  | ⟨[], _⟩ => none
  | ⟨f :: rest, h⟩ => some (f, ⟨rest, Nat.le_of_succ_le h⟩)

end FrameQueue

/-! ## response bytes -/

structure ResponsePipe where
  bytes : List UInt8 := []
  length_le : bytes.length ≤ pipeLimit := by decide

namespace ResponsePipe

/-- Writes as many bytes as fit and tells how many those are. -/
def write (p : ResponsePipe) (data : List UInt8) : Nat × ResponsePipe :=
  let taken := data.take (pipeLimit - p.bytes.length)
  (taken.length, ⟨p.bytes ++ taken, by
    have h := p.length_le
    rw [List.length_append, List.length_take]
    omega⟩)

def read (p : ResponsePipe) (max : Nat) : List UInt8 × ResponsePipe :=
  (p.bytes.take max, ⟨p.bytes.drop max, by
    have h := p.length_le
    rw [List.length_drop]
    omega⟩)

end ResponsePipe

/-- Everything the transfer tasks share. -/
structure TransferQueues where
  dataFrames : FrameQueue := {}
  controlFrames : FrameQueue := {}
  responses : ResponsePipe := {}
  txWaiting : PacketCount := {}
  rxWaiting : PacketCount := {}

/-! ## pins -/

inductive PinName where
  /-- The co-processor accepts a transfer. -/
  | flow
  | reset
  /-- Chip select, active low. -/
  | nss
  /-- The co-processor has something to send. -/
  | notify
  deriving DecidableEq, Repr

namespace PinName

def all : List PinName := [flow, reset, nss, notify]

def name : PinName → String
  | flow => "flow"
  | reset => "reset"
  | nss => "nss"
  | notify => "notify"

end PinName

inductive PinOp where
  | high
  | low
  | read
  deriving DecidableEq, Repr

structure PinFault where
  pin : PinName
  deriving DecidableEq, Repr

/-- The level of a pin, and the operation on it that fails. -/
structure Pin where
  level : Bool := false
  failing : Option PinOp := none
  deriving DecidableEq, Repr

structure Pins where
  flow : Pin := {}
  reset : Pin := {}
  nss : Pin := {}
  notify : Pin := {}
  deriving DecidableEq, Repr

namespace Pins

def get (p : Pins) : PinName → Pin
  | .flow => p.flow
  | .reset => p.reset
  | .nss => p.nss
  | .notify => p.notify

def set (p : Pins) (name : PinName) (pin : Pin) : Pins :=
  match name with
  | .flow => { p with flow := pin }
  | .reset => { p with reset := pin }
  | .nss => { p with nss := pin }
  | .notify => { p with notify := pin }

def opOf (level : Bool) : PinOp := if level then .high else .low

/-- Brings a pin to a level; a drive that fails leaves the level as it was. -/
def drive (p : Pins) (name : PinName) (level : Bool) : Except PinFault Unit × Pins :=
  if (p.get name).failing = some (opOf level) then (.error ⟨name⟩, p)
  else (.ok (), p.set name { p.get name with level })

def read (p : Pins) (name : PinName) : Except PinFault Bool :=
  if (p.get name).failing = some .read then .error ⟨name⟩ else .ok (p.get name).level

theorem get_set_self (p : Pins) (name : PinName) (pin : Pin) : (p.set name pin).get name = pin := by
  cases name <;> rfl

theorem get_set_of_ne (p : Pins) {a b : PinName} (pin : Pin) (h : a ≠ b) :
    (p.set a pin).get b = p.get b := by
  cases a <;> cases b <;> first | rfl | exact absurd rfl h

end Pins

structure Drive where
  time : Nat
  pin : PinName
  level : Bool
  ok : Bool
  deriving DecidableEq, Repr

end Uplink
