import Uplink.Credentials
import Uplink.Host.Trace
import Uplink.Transfer
import Uplink.Waiting

/-!
# The host

The world around the connection manager: its mailbox, the status last reported by the
co-processor, the interface and the snapshot last observed, the stored credentials, the transfer
queues and pins, and the co-processor itself.  The host keeps a trace of what happened and a log.

* `Host.port`             the mailbox as its consumer sees it;
* `Host.report`           the co-processor reports a status;
* `Host.observe`          the stack calls back with a snapshot of the interface;
* `Host.use`              a call of the manager on the interface;
* `Host.signalOrNote_eq`  what a producer leaves of the host.
-/

namespace Uplink

/-- The world around the connection manager. -/
structure Host where
  mailbox : Mailbox := {}
  status : RadioStatus := .none
  /-- The snapshot last observed. -/
  seen : Snapshot := Snapshot.down
  interface : Interface := {}
  store : Store
  coprocessor : Coprocessor
  queues : TransferQueues := {}
  pins : Pins := {}
  trace : Array TraceEntry := #[]
  log : Array LogEntry := #[]
  drives : Array Drive := #[]

namespace Host

def note (h : Host) (e : LogEntry) : Host := { h with log := h.log.push e }

def record (h : Host) (e : TraceEntry) : Host := { h with trace := h.trace.push e }

def port : Port Host where
  mailbox := Host.mailbox
  put := fun m h => { h with mailbox := m }
  note := fun e h => h.note e
  mailbox_put := fun _ _ => rfl
  mailbox_note := fun _ _ => rfl

/-! ### producers -/

def signal (h : Host) (events : EventSet) : Except MailboxFault Host :=
  (h.mailbox.signal events).map fun m => { h with mailbox := m }.record (.accepted events)

/-- A producer that has nobody to tell of a failure: it goes to the log. -/
def signalOrNote (h : Host) (events : EventSet) (failure : LogEntry) : Host :=
  match h.signal events with
  | .ok h => h
  | .error _ => h.note failure

/-- A producer that tells whether its events were accepted. -/
def signalAccepted (h : Host) (events : EventSet) : Bool × Host :=
  match h.signal events with
  | .ok h => (true, h)
  | .error _ => (false, h)

def report (h : Host) (status : RadioStatus) : Host :=
  ({ h with status }.note (.statusReported h.status status)).signalOrNote
    (EventSet.single .statusUpdated) .statusDropped

def reportCodes (h : Host) (codes : List UInt8) : Host :=
  codes.foldl (fun h code => h.report (RadioStatus.ofCode code)) h

/-- The stack calls back with a snapshot; only what changed since the last one is passed on. -/
def observe (h : Host) (snapshot : Snapshot) : Host :=
  let events := Snapshot.eventsBetween h.seen snapshot
  let h := { h with seen := snapshot }
  if events = EventSet.empty then h
  else (h.note (.interfaceChanged events)).signalOrNote events .interfaceChangeDropped

/-- The stack changes the interface; a registered interface reports a snapshot that differs. -/
def changeInterface (h : Host) (i : Interface) : Host :=
  let changed := { h with interface := i }
  if i.snapshot ≠ h.interface.snapshot ∧ i.mac.isSome then changed.observe i.snapshot else changed

/-- A call of the manager on the interface, at the instant `now`. -/
def use (h : Host) (now : Nat) (call : InterfaceCall) : Except StackFault Unit × Host :=
  let h := h.record (.called now call)
  match h.interface.refusal call with
  | some e => (.error e, h)
  | none => (.ok (), h.changeInterface (h.interface.call call))

/-! ### what producers leave -/

section
variable (h : Host) (events : EventSet) (failure : LogEntry)

theorem signal_of_claimed (hc : h.mailbox.claimed = true) :
    h.signal events = .ok ({ h with
      mailbox := { h.mailbox with pending := h.mailbox.pending ||| events } }.record
        (.accepted events)) := by
  unfold signal Mailbox.signal
  rw [if_pos hc]
  rfl

theorem signal_of_not_claimed (hc : h.mailbox.claimed = false) :
    h.signal events = .error .notClaimed := by
  unfold signal Mailbox.signal
  rw [hc]
  rfl

/-- A mailbox that accepts events is claimed, and nothing but the events and their entry is new. -/
theorem eq_of_signal_eq_ok {h h' : Host} {events : EventSet} (hok : h.signal events = .ok h') :
    h.mailbox.claimed = true ∧ h' = { h with
      mailbox := { h.mailbox with pending := h.mailbox.pending ||| events } }.record
        (.accepted events) := by
  unfold signal at hok
  cases hm : h.mailbox.signal events with
  | ok m =>
    obtain ⟨hc, rfl⟩ := Mailbox.signal_eq_ok_iff.mp hm
    rw [hm] at hok
    exact ⟨hc, (Except.ok.inj hok).symm⟩
  | error e =>
    rw [hm] at hok
    cases hok

/-- A producer leaves its events in a claimed mailbox, and a note where there is none. -/
theorem signalOrNote_eq :
    h.signalOrNote events failure = if h.mailbox.claimed then { h with
        mailbox := { h.mailbox with pending := h.mailbox.pending ||| events } }.record
          (.accepted events)
      else h.note failure := by
  unfold signalOrNote
  cases hc : h.mailbox.claimed with
  | true => rw [signal_of_claimed h events hc, if_pos rfl]
  | false => rw [signal_of_not_claimed h events hc, if_neg Bool.false_ne_true]

theorem mailbox_signalOrNote :
    (h.signalOrNote events failure).mailbox = if h.mailbox.claimed then
      { h.mailbox with pending := h.mailbox.pending ||| events } else h.mailbox := by
  rw [signalOrNote_eq]
  split <;> rfl

end

theorem seen_observe (h : Host) (s : Snapshot) : (h.observe s).seen = s := by
  unfold observe
  dsimp only
  split
  · rfl
  · rw [signalOrNote_eq]
    split <;> rfl

end Host

end Uplink
