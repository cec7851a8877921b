import Uplink.Host.Perform

/-!
# What producers leave

A producer leaves events in the mailbox and lines in the log.  Interface and status are changed by
few actions only, and reports alone are logged as such, so that the log tells all of them.

* `reportsIn`                  the statuses of which the lines of a log tell that they were reported;
* `Host.Told`                  a host was told of events, and nothing else about it changed;
* `Action.alone`               what an action does before it tells anybody;
* `Action.Announces`           an action tells of an update exactly if it reports a status;
* `Action.told_perform`        an action does its own part and then tells of events;
* `Host.told_use`              so does a call of the manager on the interface;
* `Host.pending_use`           which leaves an event that is not of the interface pending or not;
* `Host.callsSince`            the calls on the interface between two moments of a host.
-/

namespace Uplink

/-! ## reports in the log -/

/-- The status of which an entry of the log tells that it was reported. -/
def LogEntry.reported? : LogEntry → Option RadioStatus
  | statusReported _ status => some status
  | _ => none

def reportsIn (lines : List LogEntry) : List RadioStatus := lines.filterMap LogEntry.reported?

/-- The stack tells such an event of the interface. -/
def Event.isOfInterface : Event → Bool
  | interfaceUp | interfaceDown | linkUp | linkDown | ipAddressChanged => true
  | _ => false

/-! ## calls in a trace -/

def TraceEntry.call? : TraceEntry → Option InterfaceCall
  | called _ call => some call
  | _ => none

def callsIn (entries : List TraceEntry) : List InterfaceCall := entries.filterMap TraceEntry.call?

theorem callsIn_append (as bs : List TraceEntry) : callsIn (as ++ bs) = callsIn as ++ callsIn bs :=
  List.filterMap_append

theorem callsIn_accepted (sets : List EventSet) :
    callsIn (sets.map TraceEntry.accepted) = [] := by
  unfold callsIn
  rw [List.filterMap_map]
  exact List.filterMap_eq_nil_iff.mpr fun _ _ => rfl

/-- What the stack makes of a call. -/
def Interface.attempt (i : Interface) (call : InterfaceCall) : Interface :=
  if i.refusal call = none then i.call call else i

namespace Host

/-- The statuses reported at a host so far, as its log tells. -/
def reports (h : Host) : List RadioStatus := reportsIn h.log.toList

theorem reports_note (h : Host) (e : LogEntry) :
    (h.note e).reports = h.reports ++ e.reported?.toList := by
  unfold reports note reportsIn
  rw [Array.toList_push, List.filterMap_append]
  cases e <;> rfl

theorem reports_note_of_none (h : Host) {e : LogEntry} (he : e.reported? = none) :
    (h.note e).reports = h.reports := by
  rw [reports_note, he, Option.toList_none, List.append_nil]

/-! ## being told -/

/-- The host `h'` is `h` told of the events of `sets`, in this order, as far as its mailbox is
claimed. -/
structure Told (sets : List EventSet) (h h' : Host) : Prop where
  interface_eq : h'.interface = h.interface
  status_eq : h'.status = h.status
  reports_eq : h'.reports = h.reports
  claimed_eq : h'.mailbox.claimed = h.mailbox.claimed
  trace_eq : h'.trace.toList = h.trace.toList ++ sets.map TraceEntry.accepted

/-- What becomes of events that a producer tells: a claimed mailbox accepts them. -/
def acceptable (h : Host) (events : EventSet) : List EventSet :=
  if h.mailbox.claimed then [events] else []

variable {h h' : Host} {sets : List EventSet}

theorem told_refl (h : Host) : Told [] h h := ⟨rfl, rfl, rfl, rfl, (List.append_nil _).symm⟩

theorem Told.after_note (ht : Told sets h h') {e : LogEntry} (he : e.reported? = none) :
    Told sets h (h'.note e) :=
  ⟨ht.interface_eq, ht.status_eq, (reports_note_of_none h' he).trans ht.reports_eq, ht.claimed_eq,
    ht.trace_eq⟩

theorem Told.of_note {e : LogEntry} (he : e.reported? = none) (ht : Told sets (h.note e) h') :
    Told sets h h' :=
  ⟨ht.interface_eq, ht.status_eq, ht.reports_eq.trans (reports_note_of_none h he), ht.claimed_eq,
    ht.trace_eq⟩

theorem told_signal {events : EventSet} (hok : h.signal events = .ok h') :
    Told (h.acceptable events) h h' := by
  obtain ⟨hc, rfl⟩ := eq_of_signal_eq_ok hok
  rw [acceptable, hc]
  exact ⟨rfl, rfl, rfl, rfl, Array.toList_push⟩

theorem acceptable_of_error {events : EventSet} {e : MailboxFault}
    (herror : h.signal events = .error e) : h.acceptable events = [] := by
  unfold acceptable
  cases hc : h.mailbox.claimed with
  | true =>
    rw [signal_of_claimed h events hc] at herror
    cases herror
  | false => rfl

theorem told_signalOrNote (events : EventSet) {failure : LogEntry} (hf : failure.reported? = none) :
    Told (h.acceptable events) h (h.signalOrNote events failure) := by
  unfold signalOrNote
  split
  · exact told_signal (by assumption)
  · rw [acceptable_of_error (by assumption)]
    exact (told_refl h).after_note hf

theorem told_signalAccepted (events : EventSet) :
    Told (h.acceptable events) h (h.signalAccepted events).2 := by
  unfold signalAccepted
  split
  · exact told_signal (by assumption)
  · rw [acceptable_of_error (by assumption)]
    exact told_refl h

theorem not_has_single {e d : Event} (hne : e ≠ d) : ¬ (EventSet.single d).Has e := by
  intro h
  unfold EventSet.Has at h
  rw [EventSet.getLsbD_single, decide_eq_true_eq] at h
  exact hne (Event.position_inj.mp h)

theorem not_has_edge {before after : Bool} {rise fall e : Event} (hr : e ≠ rise) (hf : e ≠ fall) :
    ¬ (Snapshot.edge before after rise fall).Has e := by
  unfold Snapshot.edge
  split
  · exact EventSet.not_has_empty e
  · split
    · exact not_has_single hr
    · exact not_has_single hf

theorem not_has_between {e : Event} (he : e.isOfInterface = false) (previous current : Snapshot) :
    ¬ (Snapshot.eventsBetween previous current).Has e := by
  have hne : ∀ d : Event, d.isOfInterface = true → e ≠ d := by
    intro d hd heq
    rw [heq, hd] at he
    cases he
  have hadmin : ¬ (Snapshot.edge previous.isAdminUp current.isAdminUp .interfaceUp
      .interfaceDown).Has e := not_has_edge (hne .interfaceUp rfl) (hne .interfaceDown rfl)
  have hlink : ¬ (Snapshot.edge previous.hasLink current.hasLink .linkUp .linkDown).Has e :=
    not_has_edge (hne .linkUp rfl) (hne .linkDown rfl)
  unfold Snapshot.eventsBetween
  rw [EventSet.has_or, EventSet.has_or]
  split
  · simp [hlink, hadmin, EventSet.not_has_empty]
  · simp [hlink, hadmin, not_has_single (hne .ipAddressChanged rfl)]

/-- The sets tell of no update. -/
def NoUpdate (sets : List EventSet) : Prop := ∀ s ∈ sets, ¬ EventSet.Has s .statusUpdated

theorem noUpdate_acceptable {events : EventSet} (he : ¬ events.Has .statusUpdated) :
    NoUpdate (h.acceptable events) := by
  intro s hs
  unfold acceptable at hs
  split at hs
  · rw [List.mem_singleton.mp hs]
    exact he
  · cases hs

theorem told_observe (h : Host) (snapshot : Snapshot) :
    ∃ sets, Told sets h (h.observe snapshot) ∧ NoUpdate sets := by
  let events := Snapshot.eventsBetween h.seen snapshot
  let noted := { h with seen := snapshot }.note (.interfaceChanged events)
  unfold observe
  dsimp only
  split
  · exact ⟨[], ⟨rfl, rfl, rfl, rfl, (List.append_nil _).symm⟩,
      fun s hs => absurd hs List.not_mem_nil⟩
  · have ht : Told (noted.acceptable events) noted
        (noted.signalOrNote events .interfaceChangeDropped) := told_signalOrNote events rfl
    have hs := ht.of_note (h := { h with seen := snapshot }) rfl
    exact ⟨_, ⟨hs.interface_eq, hs.status_eq, hs.reports_eq, hs.claimed_eq, hs.trace_eq⟩,
      noUpdate_acceptable (not_has_between rfl _ _)⟩

/-- The stack changes the interface, and observers are told. -/
theorem told_changeInterface (h : Host) (i : Interface) :
    ∃ sets, Told sets { h with interface := i } (h.changeInterface i) ∧ NoUpdate sets := by
  unfold changeInterface
  dsimp only
  split
  · exact told_observe _ _
  · exact ⟨[], told_refl _, fun s hs => absurd hs List.not_mem_nil⟩

/-! ### the mailbox -/

/-- Events that a producer leaves do not touch the others. -/
theorem pending_signalOrNote {e : Event} {events : EventSet} (he : ¬ events.Has e) (h : Host)
    (failure : LogEntry) : (h.signalOrNote events failure).mailbox.pending.Has e ↔
      h.mailbox.pending.Has e := by
  rw [mailbox_signalOrNote]
  split
  · rw [EventSet.has_or]
    simp [he]
  · rfl

theorem pending_observe {e : Event} (he : e.isOfInterface = false) (h : Host)
    (snapshot : Snapshot) : (h.observe snapshot).mailbox.pending.Has e ↔
      h.mailbox.pending.Has e := by
  unfold observe
  dsimp only
  split
  · rfl
  · exact pending_signalOrNote (not_has_between he _ _) _ _

theorem pending_changeInterface {e : Event} (he : e.isOfInterface = false) (h : Host)
    (i : Interface) : (h.changeInterface i).mailbox.pending.Has e ↔ h.mailbox.pending.Has e := by
  unfold changeInterface
  dsimp only
  split
  · exact pending_observe he _ _
  · rfl

/-! ### calls of the manager -/

/-- A call that the stack refuses changes nothing. -/
theorem use_of_refused {call : InterfaceCall} {e : StackFault} (now : Nat)
    (hr : h.interface.refusal call = some e) :
    h.use now call = (.error e, h.record (.called now call)) := by
  have hi : (h.record (.called now call)).interface.refusal call = some e := hr
  unfold use
  dsimp only
  rw [hi]

/-- A call that the stack does not refuse changes the interface, and observers are told. -/
theorem use_of_accepted {call : InterfaceCall} (now : Nat)
    (hr : h.interface.refusal call = none) :
    h.use now call = (.ok (),
      (h.record (.called now call)).changeInterface (h.interface.call call)) := by
  have hi : (h.record (.called now call)).interface.refusal call = none := hr
  unfold use
  dsimp only
  rw [hi]
  rfl

theorem told_use (h : Host) (now : Nat) (call : InterfaceCall) :
    ∃ sets, Told sets ({ h with interface := h.interface.attempt call }.record (.called now call))
      (h.use now call).2 := by
  unfold Interface.attempt
  cases hr : h.interface.refusal call with
  | none =>
    rw [use_of_accepted now hr, if_pos rfl]
    obtain ⟨sets, ht, _⟩ := told_changeInterface (h.record (.called now call))
      (h.interface.call call)
    exact ⟨sets, ht⟩
  | some e =>
    rw [use_of_refused now hr, if_neg (Option.some_ne_none e)]
    exact ⟨[], told_refl _⟩

theorem interface_use (h : Host) (now : Nat) (call : InterfaceCall) :
    (h.use now call).2.interface = h.interface.attempt call := by
  obtain ⟨_, ht⟩ := told_use h now call
  exact ht.interface_eq

theorem pending_use {e : Event} (he : e.isOfInterface = false) (h : Host) (now : Nat)
    (call : InterfaceCall) : (h.use now call).2.mailbox.pending.Has e ↔
      h.mailbox.pending.Has e := by
  cases hr : h.interface.refusal call with
  | none =>
    rw [use_of_accepted now hr]
    exact pending_changeInterface he _ _
  | some fault =>
    rw [use_of_refused now hr]
    rfl

theorem accepts_use {call : InterfaceCall} (now : Nat) (hr : h.interface.refusal call = none) :
    h.use now call = (.ok (), (h.use now call).2) ∧
      (h.use now call).2.interface = h.interface.call call := by
  rw [interface_use, Interface.attempt, if_pos hr, use_of_accepted now hr]
  exact ⟨rfl, rfl⟩

theorem refuses_use {call : InterfaceCall} {e : StackFault} (now : Nat)
    (hr : h.interface.refusal call = some e) :
    h.use now call = (.error e, (h.use now call).2) ∧
      (h.use now call).2.interface = h.interface := by
  rw [use_of_refused now hr]
  exact ⟨rfl, rfl⟩

/-! ### the trace between two moments -/

/-- What was written to the trace between two moments of a host. -/
def entriesSince (h h' : Host) : List TraceEntry := h'.trace.toList.drop h.trace.size

theorem entriesSince_eq {entries : List TraceEntry}
    (ht : h'.trace.toList = h.trace.toList ++ entries) : entriesSince h h' = entries := by
  unfold entriesSince
  rw [ht, ← Array.length_toList, List.drop_left]

/-- The calls made on the interface between two moments of a host. -/
def callsSince (h h' : Host) : List InterfaceCall := callsIn (entriesSince h h')

theorem callsSince_self (h : Host) : callsSince h h = [] := by
  unfold callsSince
  rw [entriesSince_eq (List.append_nil _).symm]
  rfl

/-- A call of the manager and a line in the log leave one call in the trace. -/
theorem callsSince_use (h : Host) (now : Nat) (call : InterfaceCall) (e : LogEntry) :
    callsSince h ((h.use now call).2.note e) = [call] := by
  obtain ⟨sets, ht⟩ := told_use h now call
  have htrace : ((h.use now call).2.note e).trace.toList
      = h.trace.toList ++ (.called now call :: sets.map TraceEntry.accepted) := by
    have hpush : (h.trace.push (.called now call)).toList
        = h.trace.toList ++ [.called now call] := Array.toList_push
    rw [List.append_cons, ← hpush]
    exact ht.trace_eq
  unfold callsSince
  rw [entriesSince_eq htrace]
  exact congrArg (call :: ·) (callsIn_accepted sets)

end Host

/-! ## actions -/

namespace Action

open Host

/-- The status that an action reports, if it reports one. -/
def reported? : Action → Option RadioStatus
  | reportCode code => some (RadioStatus.ofCode code)
  | report status => some status
  | _ => none

/-- What an action makes of the interface. -/
def changed (a : Action) (i : Interface) : Interface :=
  match a with
  | changeInterface flags ipv4 =>
    i.withSnapshot
      { flags := flags.getD i.snapshot.flags, ipv4 := ipv4.getD i.snapshot.ipv4 }
  | configureInterface change => change.applyTo i
  | _ => i

/-- The host with the status reported and the interface changed by an action, before anybody is
told. -/
def alone (a : Action) (h : Host) : Host :=
  let h := { h with interface := a.changed h.interface }
  match a.reported? with
  | some status => { h with status }.note (.statusReported h.status status)
  | none => h

/-- An update is told by reports only. -/
def OnlyBridge : Action → Prop
  | signal events => ¬ events.Has .statusUpdated
  | _ => True

theorem interface_alone (a : Action) (h : Host) :
    (a.alone h).interface = a.changed h.interface := by
  unfold alone
  dsimp only
  split <;> rfl

theorem trace_alone (a : Action) (h : Host) : (a.alone h).trace = h.trace := by
  unfold alone
  dsimp only
  split <;> rfl

theorem mailbox_alone (a : Action) (h : Host) : (a.alone h).mailbox = h.mailbox := by
  unfold alone
  dsimp only
  split <;> rfl

theorem status_alone (a : Action) (h : Host) :
    (a.alone h).status = a.reported?.getD h.status := by
  unfold alone
  dsimp only
  split
  · rename_i hs
    rw [hs]
    rfl
  · rename_i hs
    rw [hs]
    rfl

theorem reports_alone (a : Action) (h : Host) :
    (a.alone h).reports = h.reports ++ a.reported?.toList := by
  unfold alone
  dsimp only
  split
  · rename_i hs
    rw [hs, reports_note]
    rfl
  · rename_i hs
    rw [hs, Option.toList_none, List.append_nil]
    rfl

/-- Which events an action tells: an update is among them exactly if the action reports, provided
that updates are told by reports only. -/
def Announces (a : Action) (h : Host) (sets : List EventSet) : Prop :=
  a.OnlyBridge → h.mailbox.claimed = true →
    ((∃ s ∈ sets, EventSet.Has s .statusUpdated) ↔ a.reported? ≠ none)

theorem announces_of_noUpdate {a : Action} {h : Host} {sets : List EventSet}
    (hr : a.reported? = none) (hsets : NoUpdate sets) : a.Announces h sets := by
  intro _ _
  rw [hr]
  constructor
  · intro hend
    obtain ⟨s, hs, hhas⟩ := hend
    exact absurd hhas (hsets s hs)
  · intro h
    exact absurd rfl h

theorem announces_report {a : Action} {h h' : Host} {status : RadioStatus}
    (hr : a.reported? = some status) (hm : h'.mailbox = h.mailbox) :
    a.Announces h (h'.acceptable (EventSet.single .statusUpdated)) := by
  intro _ hc
  have hmem : EventSet.single .statusUpdated ∈ h'.acceptable (EventSet.single .statusUpdated) := by
    unfold acceptable
    rw [hm, if_pos hc]
    exact List.mem_singleton_self _
  have hsome : a.reported? ≠ none := by
    rw [hr]
    exact Option.some_ne_none status
  exact ⟨fun _ => hsome, fun _ => ⟨_, hmem, by decide⟩⟩

/-- **What an action does**: its own part, and then it tells of events. -/
theorem told_perform (a : Action) (h : Host) :
    ∃ sets, Told sets (a.alone h) (a.perform h).2 ∧ a.Announces h sets := by
  have hquiet : ∀ {a : Action} {events : EventSet}, a.reported? = none →
      ¬ events.Has .statusUpdated → a.Announces h (h.acceptable events) :=
    fun hr he => announces_of_noUpdate hr (noUpdate_acceptable he)
  have hsilent : ∀ {a : Action}, a.reported? = none → a.Announces h [] :=
    fun hr => announces_of_noUpdate hr fun s hs => absurd hs List.not_mem_nil
  cases a with
  | reportCode code => exact ⟨_, told_signalOrNote _ rfl, announces_report rfl rfl⟩
  | report status => exact ⟨_, told_signalOrNote _ rfl, announces_report rfl rfl⟩
  | stackReady => exact ⟨_, told_signalAccepted _, hquiet rfl (by decide)⟩
  | requestReconnect => exact ⟨_, told_signalAccepted _, hquiet rfl (by decide)⟩
  | signal events =>
    refine ⟨h.acceptable events, ?_, fun hb => hquiet rfl hb hb⟩
    unfold perform
    dsimp only
    split
    · exact told_signal (by assumption)
    · rw [acceptable_of_error (by assumption)]
      exact told_refl h
  | observe snapshot =>
    obtain ⟨sets, ht, hno⟩ := told_observe h snapshot
    exact ⟨sets, ht, announces_of_noUpdate rfl hno⟩
  | changeInterface flags ipv4 =>
    obtain ⟨sets, ht, hno⟩ := told_changeInterface h
      ((changeInterface flags ipv4).changed h.interface)
    exact ⟨sets, ht, announces_of_noUpdate rfl hno⟩
  | addWaiting n =>
    exact ⟨[], ⟨rfl, rfl, rfl, rfl, (List.append_nil _).symm⟩, hsilent rfl⟩
  | subWaiting n =>
    exact ⟨[], ⟨rfl, rfl, rfl, rfl, (List.append_nil _).symm⟩, hsilent rfl⟩
  | writeStore ssid psk =>
    exact ⟨[], ⟨rfl, rfl, rfl, rfl, (List.append_nil _).symm⟩, hsilent rfl⟩
  | configureInterface change =>
    exact ⟨[], ⟨rfl, rfl, rfl, rfl, (List.append_nil _).symm⟩, hsilent rfl⟩
  | configureCoprocessor change =>
    exact ⟨[], ⟨rfl, rfl, rfl, rfl, (List.append_nil _).symm⟩, hsilent rfl⟩

end Action

end Uplink
