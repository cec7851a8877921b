import Uplink.Bench.Parts
import Uplink.Proofs.CyclePhases
import Uplink.Proofs.Veil

/-!
# A veil over the key

The veil covers the key of the access point: in the store, where somebody writes it to the store,
and where a request hands it to the co-processor.  Nothing that a manager or an association does
goes by the key, from one load of the credentials to the next.

* `Host.veiled`, `Host.veil`         the veil;
* `Host.veiled_use`,
  `Host.veiled_perform`              calls and actions go along with it;
* `Association.through_request`      the request of an attempt goes through it, whatever the key;
* `Manager.veiled_adjust`,
  `Manager.blind_establishAtLast`    and so does all that a manager does without the credentials.
-/

namespace Uplink

/-! ## the veil -/

def Request.veiled : Request → Request
  | connect ssid _ => connect ssid ""
  | r => r

def Action.veiled : Action → Action
  | writeStore ssid _ => writeStore ssid none
  | a => a

def TraceEntry.veiled : TraceEntry → TraceEntry
  | asked time request timeout => asked time request.veiled timeout
  | fired time action result => fired time action.veiled result
  | e => e

def Store.veiled (s : Store) : Store := { s with psk := none }

namespace Host

/-- The host with the key covered, in the store and in the trace. -/
def veiled (h : Host) : Host :=
  { h with store := h.store.veiled, trace := h.trace.map TraceEntry.veiled }

variable (h : Host)

theorem veiled_note (e : LogEntry) : (h.note e).veiled = h.veiled.note e := rfl

theorem veiled_record (e : TraceEntry) : (h.record e).veiled = h.veiled.record e.veiled := by
  show { h with store := h.store.veiled, trace := (h.trace.push e).map TraceEntry.veiled } = _
  rw [Array.map_push]
  rfl

/-! ### producers -/

theorem veiled_signal (events : EventSet) :
    h.veiled.signal events = (h.signal events).map veiled := by
  cases hc : h.mailbox.claimed with
  | true =>
    rw [signal_of_claimed h events hc, signal_of_claimed h.veiled events hc]
    exact congrArg Except.ok (veiled_record
      { h with mailbox := { h.mailbox with pending := h.mailbox.pending ||| events } }
      (.accepted events)).symm
  | false => rw [signal_of_not_claimed h events hc, signal_of_not_claimed h.veiled events hc]; rfl

theorem veiled_signalOrNote (events : EventSet) (failure : LogEntry) :
    (h.signalOrNote events failure).veiled = h.veiled.signalOrNote events failure := by
  unfold signalOrNote
  rw [veiled_signal]
  cases h.signal events <;> rfl

theorem veiled_signalAccepted (events : EventSet) : h.veiled.signalAccepted events
    = ((h.signalAccepted events).1, (h.signalAccepted events).2.veiled) := by
  unfold signalAccepted
  rw [veiled_signal]
  cases h.signal events <;> rfl

theorem veiled_report (s : RadioStatus) : (h.report s).veiled = h.veiled.report s :=
  veiled_signalOrNote _ _ _

theorem veiled_reportCodes (codes : List UInt8) :
    (h.reportCodes codes).veiled = h.veiled.reportCodes codes := by
  induction codes generalizing h with
  | nil => rfl
  | cons code codes ih =>
    show ((h.report (RadioStatus.ofCode code)).reportCodes codes).veiled
      = (h.veiled.report (RadioStatus.ofCode code)).reportCodes codes
    rw [ih, veiled_report]

theorem veiled_observe (s : Snapshot) : (h.observe s).veiled = h.veiled.observe s := by
  unfold observe
  show (if Snapshot.eventsBetween h.seen s = EventSet.empty then _ else _ : Host).veiled
    = if Snapshot.eventsBetween h.seen s = EventSet.empty then _ else _
  split
  · rfl
  · exact veiled_signalOrNote _ _ _

theorem veiled_changeInterface (i : Interface) :
    (h.changeInterface i).veiled = h.veiled.changeInterface i := by
  unfold changeInterface
  show (if i.snapshot ≠ h.interface.snapshot ∧ i.mac.isSome then _ else _ : Host).veiled
    = if i.snapshot ≠ h.interface.snapshot ∧ i.mac.isSome then _ else _
  split
  · exact veiled_observe _ _
  · rfl

/-- **A call** goes along with the veil. -/
theorem veiled_use (now : Nat) (call : InterfaceCall) :
    h.veiled.use now call = ((h.use now call).1, (h.use now call).2.veiled) := by
  unfold use
  dsimp only
  rw [show h.veiled.record (.called now call) = (h.record (.called now call)).veiled from
    (h.veiled_record (.called now call)).symm]
  generalize h.record (.called now call) = called
  rw [show called.veiled.interface = called.interface from rfl]
  cases called.interface.refusal call with
  | some e => rfl
  | none => exact congrArg (Prod.mk (Except.ok ())) (called.veiled_changeInterface _).symm

/-! ### actions -/

/-- **An action** goes along with the veil. -/
theorem veiled_perform (a : Action) :
    a.veiled.perform h.veiled = ((a.perform h).1, (a.perform h).2.veiled) := by
  cases a with
  | reportCode code => exact congrArg (Prod.mk _) (veiled_report _ _).symm
  | report status => exact congrArg (Prod.mk _) (veiled_report _ _).symm
  | stackReady =>
    show (ActionResult.accepted (h.veiled.signalAccepted _).1, (h.veiled.signalAccepted _).2) = _
    rw [veiled_signalAccepted]
    rfl
  | requestReconnect =>
    show (ActionResult.accepted (h.veiled.signalAccepted _).1, (h.veiled.signalAccepted _).2) = _
    rw [veiled_signalAccepted]
    rfl
  | signal events =>
    unfold Action.veiled Action.perform
    dsimp only
    rw [veiled_signal]
    cases h.signal events <;> rfl
  | observe snapshot => exact congrArg (Prod.mk _) (veiled_observe _ _).symm
  | changeInterface flags ipv4 => exact congrArg (Prod.mk _) (veiled_changeInterface _ _).symm
  | _ => rfl

theorem veiled_react (now : Nat) (a : Action) :
    (Reactive.react now a h).veiled = Reactive.react now a.veiled h.veiled := by
  show ((a.perform h).2.record (.fired now a (a.perform h).1)).veiled
    = (a.veiled.perform h.veiled).2.record (.fired now a.veiled (a.veiled.perform h.veiled).1)
  rw [veiled_perform, veiled_record]
  rfl

/-- The veil over the key. -/
def veil : Veil Action Host where
  action := Action.veiled
  world := veiled
  react := fun t a h => veiled_react h t a

end Host

open HostRoutine

/-! ## waits and requests -/

namespace HostRoutine

open Host (veil)

/-- The routine goes through the veil over the key. -/
abbrev Blind {β : Type} (x : HostRoutine β) : Prop := veil.Through x x

theorem blind_note (e : LogEntry) : Blind (note e) := veil.through_change fun _ => rfl

theorem blind_status : Blind status :=
  veil.through_world fun h => veil.through_pure h.status

theorem blind_take (target : EventSet) : Blind (take target) := veil.through_act fun _ _ => rfl

theorem blind_putBack (events : EventSet) : Blind (putBack events) :=
  veil.through_change fun _ => rfl

theorem blind_awaitAll (target : EventSet) (timeout : Nat) : Blind (awaitAll target timeout) := by
  have hclear : veil.Clear (Host.port.gather target) := by
    refine ⟨fun _ seen h => ?_, fun _ _ => rfl⟩
    unfold Port.gather
    dsimp only
    show (if EventSet.Covers (seen ||| (Host.port.take target h).1) target then _ else _) = _
    split <;> rfl
  refine veil.through_now.bind fun start => ?_
  exact (blind_note (.waitStarted target)).bind fun _ => hclear.through _ _

theorem blind_awaitAny (target : EventSet) (timeout : Nat) : Blind (awaitAny target timeout) := by
  have hclear : veil.Clear (Host.port.deliver target) := by
    refine ⟨fun _ _ h => ?_, fun _ _ => rfl⟩
    unfold Port.deliver
    dsimp only
    show (if (Host.port.take target h).1 = EventSet.empty then _ else _) = _
    split <;> rfl
  exact veil.through_now.bind fun _ => hclear.through _ _

theorem clear_watch (accept : RadioStatus → Bool) (deadline : Option Nat) :
    veil.Clear (watch accept deadline) := by
  refine ⟨fun now _ h => ?_, fun _ _ => rfl⟩
  unfold watch
  dsimp only
  show (if (Host.port.take updates h).1 = EventSet.empty then _
    else if accept (Host.port.take updates h).2.status then _
    else if Clock.passed deadline now then _ else _) = _
  split
  · rfl
  · split
    · rfl
    · split <;> rfl

theorem blind_awaitReport (accept : RadioStatus → Bool) (timeout : Nat) :
    Blind (awaitReport accept timeout) := by
  refine veil.through_now.bind fun start => ?_
  dsimp only
  split
  · exact veil.through_pure _
  · refine (blind_note _).bind fun _ => ((clear_watch _ _).through _ _).bind fun r => ?_
    split
    · exact (blind_putBack _).bind fun _ => veil.through_pure _
    · exact veil.through_pure _

theorem blind_awaitStatus (accept : RadioStatus → Bool) (timeout : Nat) :
    Blind (awaitStatus accept timeout) := by
  refine blind_status.bind fun s => ?_
  split
  · exact veil.through_pure _
  · exact (blind_awaitReport _ _).bind fun _ => blind_status.bind fun _ => veil.through_pure _

/-- **A request** goes through the veil, which covers the key that it hands over. -/
theorem through_ask {α : Type} (request : Request) (draw : Coprocessor → Response α × Coprocessor)
    (timeout : Nat) :
    veil.Through (ask request draw timeout) (ask request.veiled draw timeout) := by
  unfold ask
  refine (veil.through_act fun now h => ?_).bind fun response => ?_
  · exact congrArg (Prod.mk _) (Host.veiled_record
      { h with coprocessor := (draw h.coprocessor).2 } (.asked now request timeout)).symm
  have hlate : Blind (do
      Routine.change (·.reportCodes response.late)
      return response.outcome : HostRoutine (Except TransportFault α)) :=
    (veil.through_change fun h => (h.veiled_reportCodes _).symm).bind fun _ => veil.through_pure _
  refine (veil.through_change fun h => (h.veiled_reportCodes _).symm).bind fun _ => ?_
  dsimp only
  split
  · exact (Veil.through_sleep _).bind fun _ => veil.through_pure _
  · split
    · exact (Veil.through_sleep _).bind fun _ => hlate
    · exact hlate

/-! ### pins -/

theorem blind_drive (pin : PinName) (level : Bool) : Blind (drive pin level) :=
  veil.through_act fun _ _ => rfl

/-- A reset without chip select. -/
def pulse : HostRoutine (Except PinFault Unit) := do
  match ← drive .reset false with
  | .error e => return .error e
  | .ok () =>
    Routine.sleep resetPulse
    match ← drive .reset true with
    | .error e => return .error e
    | .ok () =>
      Routine.sleep resetRecovery
      return .ok ()

theorem blind_pulse : Blind pulse := by
  refine (blind_drive _ _).bind fun low => ?_
  cases low with
  | error e => exact veil.through_pure _
  | ok _ =>
    refine (Veil.through_sleep _).bind fun _ => (blind_drive _ _).bind fun high => ?_
    cases high with
    | error e => exact veil.through_pure _
    | ok _ => exact (Veil.through_sleep _).bind fun _ => veil.through_pure _

theorem blind_reset : Blind reset := by
  refine (blind_note _).bind fun _ => (blind_drive _ _).bind fun selected => ?_
  cases selected with
  | error e => exact (blind_note _).bind fun _ => blind_pulse
  | ok _ => exact blind_pulse

end HostRoutine

/-! ## associations -/

namespace Association

open Host (veil)

theorem blind_selectMode (timeout : Nat) : Blind (selectMode .station timeout) :=
  through_ask (.selectMode .station) _ _

theorem blind_drop (timeout : Nat) : Blind (drop timeout) :=
  (through_ask .disconnect _ _).bind fun _ => veil.through_pure _

/-- **The request of an attempt** goes through the veil, whatever the key. -/
theorem through_request (a : Association) (c : Credentials) :
    veil.Through (a.request c) (a.request ⟨c.ssid, ""⟩) := by
  unfold request
  refine (blind_take _).bind fun stale => ?_
  refine (through_ask (.connect c.ssid c.psk) _ _).bind fun answer => ?_
  cases answer with
  | error e =>
    exact (blind_note _).bind fun _ => (blind_putBack _).bind fun _ => veil.through_pure _
  | ok _ =>
    refine (blind_awaitReport _ _).bind fun up => (blind_putBack _).bind fun _ => ?_
    split
    · exact (blind_note _).bind fun _ => veil.through_pure _
    · exact blind_status.bind fun _ => (blind_note _).bind fun _ => veil.through_pure _

end Association

/-! ## managers -/

namespace Manager

open Host (veil)

variable (m : Manager) (now : Nat) (h : Host)

theorem veiled_startAcquisition : m.startAcquisition now h.veiled
    = ((m.startAcquisition now h).1, (m.startAcquisition now h).2.veiled) := by
  unfold startAcquisition
  rw [Host.veiled_use]
  rcases h.use now .startAcquisition with ⟨e | ⟨⟩, h'⟩ <;> rfl

theorem veiled_releaseAndStop : m.releaseAndStop now h.veiled
    = ((m.releaseAndStop now h).1, (m.releaseAndStop now h).2.veiled) := by
  unfold releaseAndStop
  rw [Host.veiled_use]
  rcases h.use now .releaseAndStop with ⟨e | ⟨⟩, h'⟩ <;> rfl

theorem veiled_reconcile : m.reconcileAddress now h.veiled
    = ((m.reconcileAddress now h).1, (m.reconcileAddress now h).2.veiled) := by
  unfold reconcileAddress
  rw [veiled_startAcquisition, veiled_releaseAndStop]
  show (if h.interface.snapshot.hasLink then _ else
    if h.interface.snapshot.hasAddress || m.acquiring then _ else _) = _
  split
  · split <;> rfl
  · split <;> rfl

theorem veiled_noteUnknown (status : RadioStatus) :
    (noteUnknown status h).veiled = noteUnknown status h.veiled := by
  cases status <;> rfl

theorem veiled_mirrorStatus : m.mirrorStatus now h.veiled
    = ((m.mirrorStatus now h).1, (m.mirrorStatus now h).2.veiled) := by
  unfold mirrorStatus
  dsimp only
  rw [← veiled_noteUnknown, Host.veiled_use]
  show (if m.mirrored = some h.status then _ else _) = _
  split <;> rfl

theorem veiled_adjust : m.adjust now h.veiled
    = ((m.adjust now h).1, (m.adjust now h).2.veiled) := by
  unfold adjust
  dsimp only
  rw [veiled_mirrorStatus, veiled_reconcile]

theorem veiled_adopt : m.adopt now h.veiled = ((m.adopt now h).1, (m.adopt now h).2.veiled) := by
  unfold adopt
  dsimp only
  rw [← Host.veiled_note, Host.veiled_use, veiled_startAcquisition]
  show (if h.status.isAssociated then _ else _) = _
  split <;> rfl

theorem veiled_attach (module : ModuleIdentity) : m.attach module now h.veiled
    = ((m.attach module now h).1, (m.attach module now h).2.veiled) := by
  unfold attach
  rw [Host.veiled_use]
  rcases h.use now (.register module.mac) with ⟨e | ⟨⟩, h'⟩
  · rfl
  · dsimp only
    rw [Host.veiled_use, Host.veiled_use, veiled_adopt]

/-! ### routines -/

theorem blind_mirror : Blind (Routine.act m.mirrorStatus) :=
  veil.through_act fun now h => m.veiled_mirrorStatus now h

theorem blind_reconcile : Blind (Routine.act m.reconcileAddress) :=
  veil.through_act fun now h => m.veiled_reconcile now h

theorem blind_recordAttempt (outcome : Except AttemptFault AttemptOutcome) :
    Blind (m.recordAttempt outcome) := by
  unfold recordAttempt
  split
  · exact (blind_note _).bind fun _ => veil.through_pure _
  · exact veil.through_pure _

theorem blind_awaitStack : Blind awaitStack :=
  (blind_note _).bind fun _ => (blind_awaitAll _ _).bind fun _ => blind_note _

theorem blind_identifyOnce (timeout : Nat) : Blind (identifyOnce timeout) := by
  unfold identifyOnce
  refine (through_ask .firmwareVersion _ _).bind fun answer => ?_
  cases answer with
  | error e => exact veil.through_pure _
  | ok firmware =>
    refine (blind_note _).bind fun _ => (through_ask .hardwareAddress _ _).bind fun answer => ?_
    cases answer with
    | error e => exact veil.through_pure _
    | ok mac => exact (blind_note _).bind fun _ => veil.through_pure _

theorem blind_identifyModule (settings : Settings) (rounds attempt : Nat) :
    Blind (identifyModule settings rounds attempt) := by
  induction rounds generalizing attempt with
  | zero => exact veil.through_halt _
  | succ rounds ih =>
    unfold identifyModule
    refine (blind_identifyOnce _).bind fun answer => ?_
    cases answer with
    | ok module => exact veil.through_pure _
    | error e =>
      dsimp only
      split
      · exact (blind_note _).bind fun _ => (Veil.through_sleep _).bind fun _ => ih _
      · exact (blind_note _).bind fun _ => veil.through_pure _

/-- **What brings a manager up** goes through the veil. -/
theorem blind_establish (rounds : Nat) : Blind (m.establish rounds) := by
  refine (blind_identifyModule _ _ _).bind fun answer => ?_
  cases answer with
  | error e => exact veil.through_pure _
  | ok module => exact veil.through_act fun now h => m.veiled_attach now h module

theorem blind_start (rounds : Nat) : Blind (m.start rounds) :=
  blind_awaitStack.bind fun _ => m.blind_establish rounds

theorem blind_establishAtLast (rounds : Nat) : Blind (establishAtLast rounds m) := by
  induction rounds generalizing m with
  | zero => exact veil.through_halt _
  | succ rounds ih =>
    unfold establishAtLast
    refine (m.blind_establish rounds).bind fun r => ?_
    rcases r with ⟨m', e | ⟨⟩⟩
    · exact (blind_note _).bind fun _ => (Veil.through_sleep _).bind fun _ => ih m'
    · exact veil.through_pure _

end Manager

end Uplink
