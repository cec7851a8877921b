import Uplink.Proofs.Endless
import Uplink.Proofs.Memory
import Uplink.Proofs.Reconnects

/-!
# The gate of startup

A manager starts behind a gate: it waits for the event that the stack is ready, and takes it.  What
comes after the gate may fail, and then the manager is what it was before; but the event is spent.
So what can be repeated is what comes after the gate.  A second start goes through the gate only if
the event was signalled anew meanwhile, and otherwise it waits there for ever.

* `Action.CanTell`              an action may tell of an event;
* `Manager.awaitStack_spends`   the gate leaves nothing of the event behind;
* `Manager.awaitStack_open`     with the event there, the gate is passed at once;
* `Manager.awaitStack_shut`     without it, and with nothing to bring it, the gate is never passed;
* `retry_of_failed_start`       what a start that failed leaves, and what a second one does.
-/

namespace Uplink

/-! ## actions that tell of an event -/

open Host HostRoutine

/-- The action may leave the event in a mailbox. -/
def Action.CanTell (e : Event) : Action → Prop
  | reportCode _ | report _ => e = .statusUpdated
  | stackReady => e = .linkStackReady
  | requestReconnect => e = .reconnectRequested
  | signal events => events.Has e
  | observe _ | changeInterface _ _ => e.isOfInterface = true
  | _ => False

theorem Host.pending_signal {e : Event} {events : EventSet} (he : ¬ events.Has e) {h h' : Host}
    (hok : h.signal events = .ok h') : h'.mailbox.pending.Has e ↔ h.mailbox.pending.Has e := by
  obtain ⟨_, rfl⟩ := eq_of_signal_eq_ok hok
  show (h.mailbox.pending ||| events).Has e ↔ _
  rw [EventSet.has_or]
  simp [he]

theorem Host.pending_signalAccepted {e : Event} {events : EventSet} (he : ¬ events.Has e)
    (h : Host) : (h.signalAccepted events).2.mailbox.pending.Has e ↔
      h.mailbox.pending.Has e := by
  unfold signalAccepted
  split
  · exact pending_signal he (by assumption)
  · rfl

/-- An action that cannot tell of an event leaves it pending, or not. -/
theorem Action.pending_perform {a : Action} {e : Event} (ha : ¬ a.CanTell e) (h : Host) :
    (a.perform h).2.mailbox.pending.Has e ↔ h.mailbox.pending.Has e := by
  have hinterface : ¬ e.isOfInterface = true → e.isOfInterface = false := Bool.eq_false_iff.mpr
  cases a with
  | reportCode code => exact pending_signalOrNote (not_has_single ha) _ _
  | report status => exact pending_signalOrNote (not_has_single ha) _ _
  | stackReady => exact pending_signalAccepted (not_has_single ha) h
  | requestReconnect => exact pending_signalAccepted (not_has_single ha) h
  | signal events =>
    unfold perform
    dsimp only
    split
    · exact pending_signal ha (by assumption)
    · rfl
  | observe snapshot => exact pending_observe (hinterface ha) h snapshot
  | changeInterface flags ipv4 => exact pending_changeInterface (hinterface ha) h _
  | _ => rfl

namespace Manager

variable {m m₁ : Manager} {tl tl₁ : Timeline Action Host} {rounds : Nat}

/-! ## the gate -/

def gate : EventSet := EventSet.single .linkStackReady

/-- The timeline at the gate. -/
def atGate (tl : Timeline Action Host) : Timeline Action Host :=
  { tl with world := (tl.world.note .awaitingStack).note (.waitStarted gate) }

/-- The timeline behind a gate that is passed at once: the event is taken. -/
def pastGate (tl : Timeline Action Host) : Timeline Action Host :=
  { atGate tl with world := (port.take gate (atGate tl).world).2.note .stackReady }

theorem awaitStack_apply (tl : Timeline Action Host) :
    awaitStack tl = (Routine.await (port.gather gate) (Clock.after? tl.now noTimeout)
      EventSet.empty >>= fun _ => note .stackReady) (atGate tl) := rfl

/-- The deadline of the gate never rings. -/
theorem ring_noTimeout (now : Nat) : Clock.ring? (Clock.after? now noTimeout) = none :=
  Clock.ring?_after?_eq_none_iff.mpr (Nat.le_add_left _ _)

/-- **The gate spends the event**: behind it nothing is left of it. -/
theorem awaitStack_spends (tl : Timeline Action Host) :
    awaitStack.Ends tl (fun _ tl' => ¬ tl'.world.mailbox.pending.Has .linkStackReady)
      fun _ => True := by
  have htaken : ∀ h : Host, ¬ (port.take gate h).2.mailbox.pending.Has .linkStackReady := by
    intro h
    show ¬ (h.mailbox.pending &&& ~~~gate).Has .linkStackReady
    rw [EventSet.has_diff]
    exact fun hboth => hboth.2 (by decide)
  have hover : Routine.Over (fun _ (_ : EventSet) h => ¬ h.mailbox.pending.Has .linkStackReady)
      (fun _ (_ : EventSet) h => ¬ h.mailbox.pending.Has .linkStackReady) tl.agenda []
      (Routine.await (port.gather gate) (Clock.after? tl.now noTimeout) EventSet.empty
        (atGate tl)) := by
    refine Routine.await_over (I := fun _ _ _ => True) ?_ (fun _ _ _ _ _ _ => trivial)
      (fun _ _ _ h => h) trivial
    intro _ t seen h _
    unfold Port.gather
    dsimp only
    split <;> exact htaken h
  unfold Routine.Ends
  rw [awaitStack_apply]
  refine Routine.ends_bind.mpr ?_
  exact (hover.ended (fun _ _ _ h => h) fun _ _ _ _ => trivial).imp (fun _ _ h => h) fun _ h => h

theorem take_gate (h : Host) : (port.take gate h).1
    = if h.mailbox.pending.Has .linkStackReady then gate else EventSet.empty :=
  EventSet.inter_single _ _

theorem covers_gate (s : EventSet) : s.Covers gate ↔ s.Has .linkStackReady :=
  EventSet.covers_single s .linkStackReady

/-- **An open gate** is passed at once. -/
theorem awaitStack_open (hopen : tl.world.mailbox.pending.Has .linkStackReady) :
    awaitStack tl = .ok () (pastGate tl) := by
  have htake : (port.take gate (atGate tl).world).1 = gate := by
    rw [take_gate]
    exact if_pos hopen
  have hlook : (port.gather gate).look tl.now EventSet.empty (atGate tl).world
      = (.done (gate &&& (EventSet.empty ||| gate)), (port.take gate (atGate tl).world).2) := by
    unfold Port.gather
    dsimp only
    rw [htake, if_pos (by decide)]
  rw [awaitStack_apply, Routine.bind_apply, Routine.await_of_done _ _ _ _ hlook]
  rfl

/-- **A shut gate** that nothing will open is never passed. -/
theorem awaitStack_shut (hshut : ¬ tl.world.mailbox.pending.Has .linkStackReady)
    (hnever : ∀ b ∈ tl.agenda, ∀ a ∈ b.actions, ¬ Action.CanTell .linkStackReady a) :
    Routine.Halts tl.horizon (awaitStack tl) := by
  have hwait : Routine.Unending (port.gather gate)
      (fun seen h => ¬ EventSet.Has seen .linkStackReady ∧
        ¬ h.mailbox.pending.Has .linkStackReady) (atGate tl).agenda := by
    refine ⟨?_, ?_⟩
    · intro t seen h hnot
      have htake : (port.take gate h).1 = EventSet.empty := by
        rw [take_gate]
        exact if_neg hnot.2
      have hkept : seen ||| EventSet.empty = seen := BitVec.or_zero
      refine ⟨seen, (port.take gate h).2, ?_, hnot.1, ?_⟩
      · unfold Port.gather
        dsimp only
        rw [htake, hkept, if_neg fun hcovers => hnot.1 ((covers_gate seen).mp hcovers)]
      · show ¬ (h.mailbox.pending &&& ~~~gate).Has .linkStackReady
        rw [EventSet.has_diff]
        exact fun hboth => hnot.2 hboth.1
    · intro b hb a ha t seen h hnot
      refine ⟨hnot.1, fun hhas => hnot.2 ?_⟩
      exact (Action.pending_perform (hnever b hb a ha) h).mp hhas
  obtain ⟨halt, tl', hhalt, hwhy⟩ := Routine.await_unrung (ring_noTimeout tl.now) hwait
    ⟨EventSet.not_has_empty _, hshut⟩
  refine ⟨halt, tl', ?_, hwhy⟩
  rw [awaitStack_apply, Routine.bind_apply, hhalt]

/-! ## a start that fails -/

/-- **What comes after the gate**, when it fails, leaves the manager as it was. -/
theorem establish_error {e : StartFault} (h : m.establish rounds tl = .ok (m₁, .error e) tl₁) :
    m₁ = m := by
  obtain ⟨answer, tl', _, hrest⟩ := Routine.bind_eq_ok.mp h
  cases answer with
  | error fault =>
    cases hrest
    rfl
  | ok module =>
    have hpair : (m.attach module tl'.now tl'.world).1 = (m₁, .error e) :=
      (EStateM.Result.ok.inj hrest).1
    obtain ⟨_, hsame⟩ | ⟨hok, _⟩ := m.attach_eq module tl'.now tl'.world
    · rw [hpair] at hsame
      exact hsame
    · rw [hpair] at hok
      cases hok

/-- Between the gate and the failure nothing takes the event. -/
theorem ready_after_failure {r : Manager × Except StartFault Unit}
    (hgate : ¬ tl.world.mailbox.pending.Has .linkStackReady)
    (h : m.establish rounds tl = .ok r tl₁) :
    tl₁.world.mailbox.pending.Has .linkStackReady ↔
      ∃ events, .accepted events ∈ written tl tl₁ ∧ events.Has .linkStackReady := by
  obtain ⟨_, _, entries, hl, _⟩ := (m.establish_tame rounds tl (since_refl tl.world)).of_ok h
  have hpending := hl.pending_eq
  rw [EventSet.empty, BitVec.or_zero] at hpending
  rw [written_eq hl.trace_eq, hpending, EventSet.has_or, has_acceptedIn]
  simp [hgate]

/-- What a start of `m` that failed with `e` leaves. -/
structure Failed (m m₁ : Manager) (e : StartFault) (rounds : Nat)
    (tl tl₁ : Timeline Action Host) : Prop where
  /-- It was the part after the gate that failed, and that part alone is what a run repeats. -/
  after_gate : ∃ behind, awaitStack tl = .ok () behind ∧
    m.establish rounds behind = .ok (m₁, .error e) tl₁ ∧
    establishAtLast (rounds + 1) m behind = (do
      note (.startFailed e)
      Routine.sleep m.settings.queryPlan.interval
      establishAtLast rounds m) tl₁ ∧
    -- the event is there again exactly if it was signalled after the gate
    (tl₁.world.mailbox.pending.Has .linkStackReady ↔
      ∃ events, .accepted events ∈ written behind tl₁ ∧ events.Has .linkStackReady)
  manager_eq : m₁ = m
  /-- Signalled anew, the event lets a second start go on at once with what comes after the gate. -/
  opened : tl₁.world.mailbox.pending.Has .linkStackReady →
    ∀ rounds, m.start rounds tl₁ = m.establish rounds (pastGate tl₁)
  /-- Without a new signal, a second start never gets through the gate. -/
  shut : ¬ tl₁.world.mailbox.pending.Has .linkStackReady →
    (∀ b ∈ tl₁.agenda, ∀ a ∈ b.actions, ¬ Action.CanTell .linkStackReady a) →
    Routine.Halts tl₁.horizon (awaitStack tl₁) ∧
      ∀ rounds, Routine.Halts tl₁.horizon (m.start rounds tl₁)

/-- **A start that failed can be repeated behind its gate only.**  Whatever the manager, its retry
plan, the co-processor and the interface, a start that returns a fault went through the gate and
failed after it, and leaves the manager as it was, so that what comes after the gate can be
repeated, as a run does.  The gate itself has spent its event.  If the stack was signalled ready anew
since, a second start goes through at once and on with what comes after the gate; if it was not and
will not be, a second start waits at the gate for ever. -/
theorem retry_of_failed_start {e : StartFault} (h : m.start rounds tl = .ok (m₁, .error e) tl₁) :
    Failed m m₁ e rounds tl tl₁ := by
  obtain ⟨⟨⟩, behind, hgate, hestablish⟩ := Routine.bind_eq_ok.mp h
  have hspent := (awaitStack_spends tl).of_ok hgate
  have hsame := establish_error hestablish
  refine ⟨⟨behind, hgate, hestablish, ?_, ready_after_failure hspent hestablish⟩, hsame, ?_, ?_⟩
  · show (m.establish rounds >>= _) behind = _
    rw [Routine.bind_apply, hestablish, hsame]
  · intro hopen rounds
    unfold start
    rw [Routine.bind_apply, awaitStack_open hopen]
  · intro hshut hnever
    obtain ⟨halt, tl', hhalt, hwhy⟩ := awaitStack_shut hshut hnever
    refine ⟨⟨halt, tl', hhalt, hwhy⟩, fun rounds => ⟨halt, tl', ?_, hwhy⟩⟩
    unfold start
    rw [Routine.bind_apply, hhalt]

/-- The stack is ready, but refuses the registration. -/
def unregistrable : Timeline Action Host where
  now := slowSetup.clock
  world := { slowSetup.host with
    mailbox := { pending := gate, claimed := true }
    interface := { registerError := some .outOfMemory } }

theorem start_unregistrable :
    ∃ tl₁, Manager.start 1 {} unregistrable = .ok ({}, .error (.register .outOfMemory)) tl₁ ∧
      tl₁.horizon = none ∧ ¬ tl₁.world.mailbox.pending.Has .linkStackReady ∧
      ∀ b ∈ tl₁.agenda, ∀ a ∈ b.actions, ¬ Action.CanTell .linkStackReady a :=
  ⟨_, rfl, rfl, EventSet.not_has_empty _, fun _ hb => absurd hb List.not_mem_nil⟩

/-- A second start of a manager whose registration was refused waits at the gate. -/
theorem refused_start_is_shut :
    ∃ m₁ tl₁, Manager.start 1 {} unregistrable = .ok (m₁, .error (.register .outOfMemory)) tl₁ ∧
      m₁ = {} ∧ ∀ rounds, Routine.Halts tl₁.horizon (Manager.start rounds {} tl₁) := by
  obtain ⟨tl₁, hstart, _, hshut, hnever⟩ := start_unregistrable
  have hfailed := retry_of_failed_start hstart
  exact ⟨_, tl₁, hstart, hfailed.manager_eq, (hfailed.shut hshut hnever).2⟩

/-- Nothing is signalled after that start, and a second one blocks at the gate. -/
theorem second_start_blocks :
    ∃ tl₁ tl₂, Manager.start 1 {} unregistrable
        = .ok ({}, .error (.register .outOfMemory)) tl₁ ∧
      awaitStack tl₁ = .error .blocked tl₂ ∧ Manager.start 1 {} tl₁ = .error .blocked tl₂ := by
  obtain ⟨tl₁, hstart, hhorizon, hshut, hnever⟩ := start_unregistrable
  obtain ⟨halt, tl₂, hhalt, rfl | ⟨_, hlimited⟩⟩ := awaitStack_shut hshut hnever
  · refine ⟨tl₁, tl₂, hstart, hhalt, ?_⟩
    unfold start
    rw [Routine.bind_apply, hhalt]
  · exact absurd hhorizon hlimited

end Manager

end Uplink
