import Uplink.Proofs.CycleWork
import Uplink.Proofs.TimeBounds

/-!
# The time of a cycle

An attempt makes two requests and waits for a report, and a reconnect makes one request more.  A
cycle makes an attempt if the status asks for one, waits for any event, and serves a reconnect if
that wait delivered a request for one.  The rest takes no time.

* `AssociationSettings.attemptTime`  what an attempt is allowed;
* `Manager.renewalTime`              what a reconnect is allowed;
* `Manager.cycleTime`                what a cycle is allowed;
* `Manager.MainWait`                 the main wait of a cycle;
* `cycle_in_time`                    a cycle returns in its time.
-/

namespace Uplink

open HostRoutine Routine

/-! ## attempts -/

/-- What an attempt is allowed: to select the mode, to connect, and to wait for the report. -/
def AssociationSettings.attemptTime (s : AssociationSettings) : Nat :=
  s.modeTimeout + (s.connectTimeout + s.stationUpTimeout)

namespace Association

variable (a : Association)

theorem inTime_request (c : Credentials) :
    (a.request c).InTime (a.settings.connectTimeout + a.settings.stationUpTimeout) := by
  unfold request
  refine (inTime_act _).then fun stale => ?_
  refine (inTime_ask _ _ a.settings.connectTimeout).bind fun answer => ?_
  split
  · exact (inTime_note _).then fun _ => (inTime_putBack _).then fun _ => inTime_pure _ _
  · refine (inTime_awaitReport _ a.settings.stationUpTimeout).bind (b := 0) fun up => ?_
    refine (inTime_putBack _).then fun _ => ?_
    split
    · exact (inTime_note _).then fun _ => inTime_pure _ _
    · exact inTime_status.then fun _ => (inTime_note _).then fun _ => inTime_pure _ _

theorem inTime_attempt : a.attempt.InTime a.settings.attemptTime := by
  unfold attempt AssociationSettings.attemptTime
  refine (inTime_ask _ _ a.settings.modeTimeout).bind fun answer => ?_
  split
  · exact (inTime_note _).then fun _ => inTime_pure _ _
  · refine inTime_world.then fun h => ?_
    split
    · exact (inTime_note _).then fun _ => inTime_pure _ _
    · exact (inTime_note _).then fun _ => a.inTime_request _

theorem inTime_associate : a.associate.InTime a.settings.attemptTime :=
  a.counted.inTime_attempt.bind (b := 0) fun _ => inTime_pure _ _

theorem inTime_associateIfAllowed : a.associateIfAllowed.InTime a.settings.attemptTime := by
  unfold associateIfAllowed
  refine inTime_status.then fun current => ?_
  split
  · exact a.inTime_associate
  · exact (inTime_note _).then fun _ => inTime_pure _ _

theorem inTime_drop (timeout : Nat) : (drop timeout).InTime timeout :=
  (inTime_ask _ _ timeout).bind (b := 0) fun _ => inTime_pure _ _

end Association

/-! ## the parts of a cycle -/

namespace Manager

variable (m : Manager) {tl tl' : Timeline Action Host}

/-- What a reconnect is allowed. -/
def renewalTime : Nat := m.settings.disconnectTimeout + m.association.settings.attemptTime

/-- What a cycle is allowed whose wait delivers these events. -/
def cycleTime (events : EventSet) : Nat :=
  m.association.settings.attemptTime + (m.settings.loopTimeout +
    if events.Has .reconnectRequested then m.renewalTime else 0)

theorem inTime_recordAttempt (outcome : Except AttemptFault AttemptOutcome) :
    (m.recordAttempt outcome).InTime 0 := by
  unfold recordAttempt
  split
  · exact (inTime_note _).then fun _ => inTime_pure _ _
  · exact inTime_pure _ _

theorem inTime_associateIfNeeded :
    m.associateIfNeeded.InTime m.association.settings.attemptTime := by
  unfold associateIfNeeded
  refine inTime_status.then fun current => ?_
  split
  · refine m.association.inTime_associateIfAllowed.bind (b := 0) fun r => ?_
    exact (inTime_recordAttempt _ _).then fun _ => inTime_pure _ _
  · exact inTime_pure _ _

theorem inTime_renew : m.renew.InTime m.renewalTime := by
  unfold renew renewalTime
  refine (inTime_note _).then fun _ => ?_
  refine (Association.inTime_drop m.settings.disconnectTimeout).bind fun dropped => ?_
  have hattempt := m.association.inTime_associate.bind (b := 0) fun r =>
    inTime_pure ({ m with association := r.1 }, r.2) _
  split
  · exact (inTime_note _).then fun _ => hattempt
  · exact hattempt

theorem inTime_renewIfAsked (events : EventSet) : (m.renewIfAsked events).InTime
    (if events.Has .reconnectRequested then m.renewalTime else 0) := by
  unfold renewIfAsked
  split
  · refine m.inTime_renew.bind (b := 0) fun r => ?_
    exact (inTime_recordAttempt _ _).then fun _ => inTime_pure _ _
  · exact inTime_pure _ _

theorem renewalTime_adjust (now : Nat) (h : Host) :
    (m.adjust now h).1.1.renewalTime = m.renewalTime := by
  obtain ⟨acquiring, heq⟩ := reconcileAddress_eq (m.mirrorStatus now h).1.1 now
    (m.mirrorStatus now h).2
  have hmirror : (m.mirrorStatus now h).1.1.renewalTime = m.renewalTime := by
    unfold mirrorStatus
    dsimp only
    split <;> rfl
  show ((m.mirrorStatus now h).1.1.reconcileAddress now
    (m.mirrorStatus now h).2).1.1.renewalTime = _
  rw [heq]
  exact hmirror

/-- An answer takes the time of a reconnect if one was requested, and none otherwise. -/
theorem inTime_answer (attempt : Option (Except AttemptFault AttemptOutcome))
    (events : EventSet) : (m.answer attempt events).InTime
      (if events.Has .reconnectRequested then m.renewalTime else 0) := by
  intro tl hroom
  unfold Routine.Ends
  rw [answer_eq]
  have htimes := m.renewalTime_adjust tl.now (afterWait events tl.world)
  generalize m.adjust tl.now (afterWait events tl.world) = adjusted at htimes
  have hrenew := (adjusted.1.1.inTime_renewIfAsked events).bind (b := 0) fun r =>
    inTime_pure (r.1, CycleReport.mk events attempt r.2 adjusted.1.2.1 adjusted.1.2.2) _
  rw [htimes] at hrenew
  have hleft : Timeline.Room { tl with world := adjusted.2 } _ := ⟨hroom.clock, hroom.horizon⟩
  exact (hrenew hleft).imp (fun _ _ he => ⟨he.now_le, he.horizon_eq⟩) fun _ h => h

/-! ## the cycle -/

/-- The main wait of a cycle that begins at `tl`: after the attempt, from `tried` to `waited`. -/
structure MainWait (tl : Timeline Action Host) (events : EventSet)
    (tried waited : Timeline Action Host) : Prop where
  attempt : ∃ a, m.associateIfNeeded tl = .ok a tried
  wait : awaitAny EventSet.known m.settings.loopTimeout tried = .ok events waited

variable {m}

/-- The settings of an attempt are those of the manager. -/
theorem Tries.times_eq {asked : Prop} {W : List Work → Prop} {h h' : Host}
    {r : Manager × Option (Except AttemptFault AttemptOutcome)} (htries : m.Tries asked W h r h') :
    r.1.settings = m.settings ∧ r.1.renewalTime = m.renewalTime := by
  obtain ⟨_, ⟨outcome, _, rfl⟩, _⟩ | ⟨_, rfl, _⟩ := htries
  · exact ⟨rfl, rfl⟩
  · exact ⟨rfl, rfl⟩

/-- **The main wait is over in time**, and if it was in vain it took its time. -/
theorem mainWait_in_time
    (hroom : tl.Room (m.association.settings.attemptTime + m.settings.loopTimeout)) :
    ∃ heard tried waited, m.hear tl = .ok heard waited ∧
      heard.1.renewalTime = m.renewalTime ∧ m.MainWait tl heard.2.2 tried waited ∧
      tl.Elapsed (m.association.settings.attemptTime + m.settings.loopTimeout) waited ∧
      (heard.2.2 = EventSet.empty → waited.now = tried.now + m.settings.loopTimeout) := by
  obtain ⟨⟨m₁, attempt⟩, tried, hattempt, htried⟩ :=
    (m.inTime_associateIfNeeded hroom.before).exists_ok
  obtain ⟨hsettings, hrenewal⟩ := ((m.associateIfNeeded_does tl).of_ok hattempt).times_eq
  have hleft : tried.Room m.settings.loopTimeout := hroom.after htried
  obtain ⟨events, waited, hwait, hwaited⟩ :=
    (inTime_awaitAny EventSet.known m.settings.loopTimeout hleft).exists_ok
  have hhear : m.hear tl = .ok (m₁, attempt, events) waited := by
    refine Routine.bind_eq_ok.mpr ⟨_, tried, hattempt, Routine.bind_eq_ok.mpr
      ⟨events, waited, ?_, rfl⟩⟩
    rw [hsettings]
    exact hwait
  refine ⟨_, tried, waited, hhear, hrenewal, ⟨⟨_, hattempt⟩, hwait⟩, htried.trans hwaited, ?_⟩
  rintro rfl
  exact awaitAny_in_vain hleft hwait

/-- A cycle returns in the time that its events allow. -/
theorem cycle_elapsed (hroom : tl.Room (m.cycleTime EventSet.known)) :
    ∃ r tried waited tl', m.cycle tl = .ok r tl' ∧ m.MainWait tl r.2.events tried waited ∧
      tl.Elapsed (m.cycleTime r.2.events) tl' ∧
      (r.2.events = EventSet.empty → waited.now = tried.now + m.settings.loopTimeout) := by
  have hmost : m.cycleTime EventSet.known = m.association.settings.attemptTime
      + m.settings.loopTimeout + m.renewalTime := by
    unfold cycleTime
    rw [if_pos (by decide), Nat.add_assoc]
  rw [hmost] at hroom
  obtain ⟨⟨m₁, attempt, events⟩, tried, waited, hhear, hrenewal, hwait, hwaited, hvain⟩ :=
    mainWait_in_time hroom.before
  have hanswer := m₁.inTime_answer attempt events
  rw [hrenewal] at hanswer
  have hleft : waited.Room (if events.Has .reconnectRequested then m.renewalTime else 0) := by
    refine (hroom.after hwaited).of_le ?_
    split <;> omega
  obtain ⟨r, tl', hreturn, he⟩ := (hanswer hleft).exists_ok
  have hevents : r.2.events = events :=
    (m₁.answer_events attempt events waited).of_ok hreturn
  have hall := hwaited.trans he
  rw [Nat.add_assoc] at hall
  rw [← hevents] at hwait hvain hall
  refine ⟨r, tried, waited, tl', ?_, hwait, hall, hvain⟩
  rw [cycle_eq]
  exact Routine.bind_eq_ok.mpr ⟨_, waited, hhear, hreturn⟩

end Manager

/-- **A cycle is bounded in time.**  Take a manager and a timeline in any state, with any settings,
status and agenda, and any responses of the co-processor, where neither clock nor horizon ends
within the sum of all timeouts.  The cycle returns, and whatever is reported, changed or requested
meanwhile, no more time has gone by than for the main wait, a disconnect and two attempts; no more
than for the main wait and one attempt, if no reconnect was delivered.  If no event was, then the
main wait lasted exactly as long as it is allowed. -/
theorem cycle_in_time (m : Manager) {tl : Timeline Action Host}
    (hroom : tl.Room (m.settings.loopTimeout + m.settings.disconnectTimeout +
      2 * (m.association.settings.modeTimeout + m.association.settings.connectTimeout +
        m.association.settings.stationUpTimeout))) :
    ∃ r tried waited tl', m.cycle tl = .ok r tl' ∧ m.MainWait tl r.2.events tried waited ∧
      tl'.now ≤ tl.now + (m.settings.loopTimeout + m.settings.disconnectTimeout +
        2 * (m.association.settings.modeTimeout + m.association.settings.connectTimeout +
          m.association.settings.stationUpTimeout)) ∧
      (¬ r.2.events.Has .reconnectRequested →
        tl'.now ≤ tl.now + (m.settings.loopTimeout + m.association.settings.modeTimeout +
          m.association.settings.connectTimeout + m.association.settings.stationUpTimeout)) ∧
      (r.2.events = EventSet.empty → waited.now = tried.now + m.settings.loopTimeout) := by
  have hmost : ∀ events, m.cycleTime events ≤ m.settings.loopTimeout +
      m.settings.disconnectTimeout + 2 * (m.association.settings.modeTimeout +
        m.association.settings.connectTimeout + m.association.settings.stationUpTimeout) := by
    intro events
    unfold Manager.cycleTime Manager.renewalTime AssociationSettings.attemptTime
    split <;> omega
  obtain ⟨r, tried, waited, tl', hcycle, hwait, he, hvain⟩ :=
    Manager.cycle_elapsed (hroom.of_le (hmost EventSet.known))
  refine ⟨r, tried, waited, tl', hcycle, hwait, (he.of_le (hmost _)).now_le, fun hnone => ?_, hvain⟩
  have hnow := he.now_le
  unfold Manager.cycleTime AssociationSettings.attemptTime at hnow
  rw [if_neg hnone] at hnow
  omega

/-- Each response takes as long as it is allowed, or longer.  A reconnect is requested as the main
wait is about to end, and while the second attempt waits for its report it gets two that are not
accepted. -/
def slowest : Timeline Action Host where
  now := 7
  agenda := [⟨55 * second + 7, [.requestReconnect]⟩, ⟨77 * second, [.report .stationDown]⟩,
    ⟨80 * second, [.reportCode 9]⟩]
  world := { ({} : HostSetup).host with
    mailbox := { claimed := true }
    coprocessor := { HostSetup.coprocessor with
      modes := { standing := fun _ => { delay := 5 * second, outcome := .ok () } }
      connections := { standing := fun _ => { delay := 15 * second, outcome := .ok () } }
      disconnections := { standing := fun _ => { delay := 9 * second, outcome := .ok () } } } }

/-- A cycle can take all the time there is. -/
theorem slowest_in_time :
    slowest.Room (81 * second) ∧ ∃ r tl', Manager.cycle {} slowest = .ok r tl' ∧
      r.2.events = EventSet.single .reconnectRequested ∧
      tl'.now = slowest.now + 81 * second := by
  have hroom : slowest.Room (81 * second) := ⟨by decide, rfl⟩
  have hcycle : Manager.cycle {} slowest = .ok _ _ := rfl
  obtain ⟨_, _, _, _, hreturn, _, hle, _⟩ := cycle_in_time {} hroom
  cases hcycle.symm.trans hreturn
  exact ⟨hroom, _, _, hcycle, by rfl, Nat.le_antisymm hle (Nat.le_of_eq rfl)⟩

end Uplink
