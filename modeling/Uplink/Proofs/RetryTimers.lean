import Uplink.Proofs.CyclePhases
import Uplink.Proofs.FreshReports
import Uplink.Proofs.Overflow
import Uplink.Proofs.StartupGate

/-!
# The timers of the manager

The manager sets two timers of its own: one before it asks the module again, and in a run one before
it starts again.  It takes their length from the retry plan and adds it to the clock as it is.  All
other timers are those of its requests.

* `Association.attempt_overflows_iff`  an attempt overflows in one of its requests;
* `Manager.cycle_overflows_iff`        so does a cycle;
* `Manager.start_overflows_iff`        a start also between two queries of the module;
* `Manager.run_overflows_iff`          a run also between two starts;
* `Manager.overflows_by_timer`         the whole of it.
-/

namespace Uplink

open Host HostRoutine Routine

variable {tl tl' : Timeline Action Host}

/-! ## attempts -/

namespace Association

variable {a : Association}

/-- One of the two requests of an attempt overflows. -/
def RequestOverflows (a : Association) (tl tl' : Timeline Action Host) : Prop :=
  (selectMode .station a.settings.modeTimeout).Overflows tl tl' ∨
    ∃ c before, a.Reaches tl c before ∧
      (requestConnect c a.settings.connectTimeout).Overflows before tl'

theorem request_overflows_iff (c : Credentials) : (a.request c).Overflows tl tl' ↔
    (requestConnect c a.settings.connectTimeout).Overflows
      { tl with world := (port.take updates tl.world).2 } tl' := by
  show (requestConnect c a.settings.connectTimeout >>= _).Overflows _ _ ↔ _
  refine overflows_bind_of_untimed fun answer => ?_
  split
  · exact (untimed_note _).bind fun _ => (untimed_putBack _).bind fun _ => untimed_pure _
  · refine (untimed_awaitReport _ _).bind fun up => (untimed_putBack _).bind fun _ => ?_
    split
    · exact untimed_noted _ _
    · exact untimed_status.bind fun _ => untimed_noted _ _

/-- **An attempt overflows** in one of its requests. -/
theorem attempt_overflows_iff : a.attempt.Overflows tl tl' ↔ a.RequestOverflows tl tl' := by
  refine (overflows_bind_ok (S := fun _ selected => ∃ c,
    Credentials.ofStore selected.world.store = .ok c ∧
      (requestConnect c a.settings.connectTimeout).Overflows { selected with
        world := (port.take updates (selected.world.note (.connecting c.ssid a.attempts))).2 } tl')
    (fun e => untimed_noted _ _) fun _ selected => ?_).trans
    (or_congr Iff.rfl ⟨?_, ?_⟩)
  · refine world_overflows_bind.trans ?_
    split
    · rename_i hstore
      refine iff_of_false (untimed_noted _ _ _ _) ?_
      rintro ⟨c, hc, _⟩
      rw [hstore] at hc
      cases hc
    · rename_i hstore
      refine change_overflows_bind.trans ((request_overflows_iff _).trans ?_)
      rw [hstore]
      simp
  · rintro ⟨_, selected, hmode, c, hstore, h⟩
    exact ⟨c, _, ⟨selected, hmode, hstore, rfl⟩, h⟩
  · rintro ⟨c, _, ⟨selected, hmode, hstore, rfl⟩, h⟩
    exact ⟨(), selected, hmode, c, hstore, h⟩

/-- The attempt that comes next: it is counted before it is made. -/
def counted (a : Association) : Association := { a with attempts := a.attempts + 1 }

theorem associate_overflows_iff :
    a.associate.Overflows tl tl' ↔ a.counted.RequestOverflows tl tl' :=
  (overflows_bind_of_untimed fun _ => untimed_pure _).trans attempt_overflows_iff

theorem associateIfAllowed_overflows_iff : a.associateIfAllowed.Overflows tl tl' ↔
    tl.world.status.mayAssociate = true ∧ a.counted.RequestOverflows tl tl' := by
  show (if tl.world.status.mayAssociate = true then a.associate else _ :
    HostRoutine (Association × Except AttemptFault AttemptOutcome)).Overflows tl tl' ↔ _
  split
  · rename_i hmay
    exact associate_overflows_iff.trans (and_iff_right hmay).symm
  · rename_i hmay
    exact iff_of_false (untimed_noted _ _ _ _) fun h => hmay h.1

end Association

/-! ## the cycle -/

namespace Manager

variable {m : Manager}

theorem untimed_recordAttempt (m : Manager) (outcome : Except AttemptFault AttemptOutcome) :
    (m.recordAttempt outcome).Untimed := by
  unfold recordAttempt
  split
  · exact untimed_noted _ _
  · exact untimed_pure _

theorem associateIfNeeded_overflows_iff : m.associateIfNeeded.Overflows tl tl' ↔
    tl.world.status.mayAssociate = true ∧ m.association.counted.RequestOverflows tl tl' := by
  show (if tl.world.status.mayAssociate = true then _ else _ :
    HostRoutine (Manager × Option (Except AttemptFault AttemptOutcome))).Overflows tl tl' ↔ _
  split
  · refine Iff.trans (overflows_bind_of_untimed fun _ => ?_)
      Association.associateIfAllowed_overflows_iff
    exact (untimed_recordAttempt _ _).bind fun _ => untimed_pure _
  · rename_i hmay
    exact iff_of_false (untimed_pure _ _ _) fun h => hmay h.1

/-- The host after the disconnect of a reconnect: a disconnect that failed is logged. -/
def afterDrop (dropped : Except AttemptFault Unit) (h : Host) : Host :=
  match dropped with
  | .error e => h.note (.disconnectFailed e)
  | .ok _ => h

/-- A request of a reconnect overflows: the disconnect, or one of the attempt after it. -/
def RenewalOverflows (m : Manager) (tl tl' : Timeline Action Host) : Prop :=
  (requestDisconnect m.settings.disconnectTimeout).Overflows
      { tl with world := tl.world.note .reconnecting } tl' ∨
    ∃ dropped tl₁, Association.drop m.settings.disconnectTimeout
        { tl with world := tl.world.note .reconnecting } = .ok dropped tl₁ ∧
      m.association.counted.RequestOverflows { tl₁ with world := afterDrop dropped tl₁.world } tl'

theorem renew_overflows_iff : m.renew.Overflows tl tl' ↔ m.RenewalOverflows tl tl' := by
  refine change_overflows_bind.trans (overflows_bind.trans (or_congr
    (overflows_bind_of_untimed fun _ => untimed_pure _) ?_))
  refine exists_congr fun dropped => exists_congr fun tl₁ => and_congr Iff.rfl ?_
  have hattempt : ∀ before, (m.association.associate >>= fun r =>
      (pure ({ m with association := r.1 }, r.2) : HostRoutine _)).Overflows before tl' ↔
      m.association.counted.RequestOverflows before tl' := fun _ =>
    (overflows_bind_of_untimed fun _ => untimed_pure _).trans Association.associate_overflows_iff
  cases dropped with
  | error e => exact hattempt { tl₁ with world := tl₁.world.note (.disconnectFailed e) }
  | ok _ => exact hattempt tl₁

theorem renewIfAsked_overflows_iff (events : EventSet) : (m.renewIfAsked events).Overflows tl tl' ↔
    events.Has .reconnectRequested ∧ m.RenewalOverflows tl tl' := by
  unfold renewIfAsked
  split
  · rename_i hasked
    refine (overflows_bind_of_untimed fun _ => ?_).trans
      (renew_overflows_iff.trans (and_iff_right hasked).symm)
    exact (untimed_recordAttempt _ _).bind fun _ => untimed_pure _
  · rename_i hasked
    exact iff_of_false (untimed_pure _ _ _) fun h => hasked h.1

/-- A request of a cycle overflows: one of its attempt, or one of the reconnect that its wait has
delivered a request for. -/
inductive CycleOverflows (m : Manager) (tl tl' : Timeline Action Host) : Prop
  | attempt : tl.world.status.mayAssociate = true →
    m.association.counted.RequestOverflows tl tl' → CycleOverflows m tl tl'
  | renewal {heard : Manager × Option (Except AttemptFault AttemptOutcome) × EventSet}
    {tl₁ : Timeline Action Host}
    {adjusted : (Manager × Option LinkChange × Option AddressChange) × Host} :
    m.hear tl = .ok heard tl₁ → heard.2.2.Has .reconnectRequested →
    heard.1.adjust tl₁.now (afterWait heard.2.2 tl₁.world) = adjusted →
    adjusted.1.1.RenewalOverflows { tl₁ with world := adjusted.2 } tl' → CycleOverflows m tl tl'

/-- **A cycle overflows** in one of its requests. -/
theorem cycle_overflows_iff : m.cycle.Overflows tl tl' ↔ m.CycleOverflows tl tl' := by
  have hhear : m.hear.Overflows tl tl' ↔
      tl.world.status.mayAssociate = true ∧ m.association.counted.RequestOverflows tl tl' := by
    refine (overflows_bind_of_untimed fun _ => ?_).trans associateIfNeeded_overflows_iff
    exact (untimed_awaitAny _ _).bind fun _ => untimed_pure _
  have hanswer : ∀ (heard : Manager × Option (Except AttemptFault AttemptOutcome) × EventSet)
      (tl₁ : Timeline Action Host) (adjusted : (Manager × Option LinkChange × Option AddressChange)
        × Host), heard.1.adjust tl₁.now (afterWait heard.2.2 tl₁.world) = adjusted →
      ((heard.1.answer heard.2.1 heard.2.2).Overflows tl₁ tl' ↔ heard.2.2.Has .reconnectRequested ∧
        adjusted.1.1.RenewalOverflows { tl₁ with world := adjusted.2 } tl') := by
    rintro heard tl₁ _ rfl
    unfold Overflows
    rw [answer_eq]
    exact (overflows_bind_of_untimed fun _ => untimed_pure _).trans (renewIfAsked_overflows_iff _)
  rw [cycle_eq]
  refine overflows_bind.trans ⟨?_, ?_⟩
  · rintro (h | ⟨heard, tl₁, hheard, h⟩)
    · exact .attempt (hhear.mp h).1 (hhear.mp h).2
    · obtain ⟨hasked, hrenewal⟩ := (hanswer heard tl₁ _ rfl).mp h
      exact .renewal hheard hasked rfl hrenewal
  · rintro (⟨hmay, h⟩ | ⟨hheard, hasked, hadjust, h⟩)
    · exact Or.inl (hhear.mpr ⟨hmay, h⟩)
    · exact Or.inr ⟨_, _, hheard, (hanswer _ _ _ hadjust).mpr ⟨hasked, h⟩⟩

/-! ## startup -/

theorem untimed_awaitStack : awaitStack.Untimed :=
  (untimed_note _).bind fun _ => (untimed_awaitAll _ _).bind fun _ => untimed_note _

/-- One of the two requests of a query of the module overflows. -/
def QueryOverflows (timeout : Nat) (tl tl' : Timeline Action Host) : Prop :=
  (requestFirmware timeout).Overflows tl tl' ∨
    ∃ firmware tl₁, requestFirmware timeout tl = .ok (.ok firmware) tl₁ ∧
      (requestAddress timeout).Overflows
        { tl₁ with world := tl₁.world.note (.firmwareVersion firmware) } tl'

theorem identifyOnce_overflows_iff (timeout : Nat) :
    (identifyOnce timeout).Overflows tl tl' ↔ QueryOverflows timeout tl tl' := by
  refine overflows_bind_ok (fun e => untimed_pure _) fun firmware tl₁ =>
    change_overflows_bind.trans (overflows_bind_of_untimed fun answer => ?_)
  split
  · exact untimed_pure _
  · exact untimed_noted _ _

/-- One query of the module, and the delay before the next. -/
def queryRound (settings : Settings) (attempt : Nat) :
    HostRoutine (Nat ⊕ Except TransportFault ModuleIdentity) := do
  match ← identifyOnce settings.queryTimeout with
  | .ok module => return .inr (.ok module)
  | .error e =>
    match settings.queryPlan.delayAfter attempt with
    | some delay =>
      note (.queryFailed e delay)
      Routine.sleep delay
      return .inl (nextAttempt attempt)
    | none =>
      note (.queryGivenUp attempt e)
      return .inr (.error e)

theorem identifyModule_eq (settings : Settings) (rounds attempt : Nat) :
    identifyModule settings rounds attempt
      = Routine.repeated (fun _ => queryRound settings) rounds attempt := by
  induction rounds generalizing attempt with
  | zero => rfl
  | succ rounds ih =>
    rw [identifyModule]
    show _ = (queryRound settings attempt >>= _)
    rw [queryRound, bind_assoc]
    congr 1
    funext answer
    cases answer with
    | ok module => rfl
    | error e =>
      dsimp only
      cases settings.queryPlan.delayAfter attempt with
      | none => rfl
      | some delay =>
        dsimp only
        simp only [bind_assoc, pure_bind, ih]

/-- A query of the module failed, and the delay before the next goes beyond the end of the clock. -/
def RetryOverflows (settings : Settings) (attempt : Nat) (tl tl' : Timeline Action Host) : Prop :=
  ∃ e failed, identifyOnce settings.queryTimeout tl = .ok (.error e) failed ∧
    ∃ delay, settings.queryPlan.delayAfter attempt = some delay ∧
      Clock.lastTick < failed.now + delay ∧
      tl' = { failed with world := failed.world.note (.queryFailed e delay) }

theorem queryRound_overflows_iff (settings : Settings) (attempt : Nat) :
    (queryRound settings attempt).Overflows tl tl' ↔
      QueryOverflows settings.queryTimeout tl tl' ∨ RetryOverflows settings attempt tl tl' := by
  refine Iff.trans (overflows_bind_error (fun _ => untimed_pure _) fun e failed => ?_)
    (or_congr (identifyOnce_overflows_iff _) Iff.rfl)
  dsimp only
  cases settings.queryPlan.delayAfter attempt with
  | none =>
    exact iff_of_false (untimed_noted _ _ _ _) fun h => by simp at h
  | some delay =>
    refine (noted_sleep_overflows_iff fun _ => untimed_pure _).trans ?_
    simp

/-- In one of the rounds of queries, a request overflows or the timer before the next round. -/
def EstablishOverflows (m : Manager) (rounds : Nat) (tl tl' : Timeline Action Host) : Prop :=
  ∃ left attempt tl₁,
    Routine.Rounds (fun _ => queryRound m.settings) (left + 1) attempt tl₁ rounds 1 tl ∧
    (QueryOverflows m.settings.queryTimeout tl₁ tl' ∨ RetryOverflows m.settings attempt tl₁ tl')

theorem establish_overflows_iff (rounds : Nat) :
    (m.establish rounds).Overflows tl tl' ↔ m.EstablishOverflows rounds tl tl' := by
  unfold establish EstablishOverflows
  rw [overflows_bind_of_untimed, identifyModule_eq, Routine.repeated_overflows_iff]
  · simp only [queryRound_overflows_iff]
  · intro answer
    split
    · exact untimed_pure _
    · exact untimed_of_returns fun _ => ⟨_, _, rfl⟩

/-- **A start overflows** behind its gate: in a request, or between two queries of the module. -/
theorem start_overflows_iff (rounds : Nat) : (m.start rounds).Overflows tl tl' ↔
    ∃ behind, awaitStack tl = .ok () behind ∧ m.EstablishOverflows rounds behind tl' := by
  unfold start
  rw [untimed_awaitStack.overflows_bind]
  simp only [establish_overflows_iff]
  constructor
  · rintro ⟨_, behind, h⟩
    exact ⟨behind, h⟩
  · rintro ⟨behind, h⟩
    exact ⟨(), behind, h⟩

/-! ## the run -/

/-- One start of a run, and the interval before the next. -/
def startRound (rounds : Nat) (m : Manager) : HostRoutine (Manager ⊕ Manager) := do
  let (m, outcome) ← m.establish rounds
  match outcome with
  | .ok () => return .inr m
  | .error e =>
    note (.startFailed e)
    Routine.sleep m.settings.queryPlan.interval
    return .inl m

theorem establishAtLast_eq (rounds : Nat) (m : Manager) :
    establishAtLast rounds m = Routine.repeated startRound rounds m := by
  induction rounds generalizing m with
  | zero => rfl
  | succ rounds ih =>
    rw [establishAtLast]
    show _ = (startRound rounds m >>= _)
    rw [startRound, bind_assoc]
    congr 1
    funext r
    obtain ⟨m₁, e | ⟨⟩⟩ := r
    · dsimp only
      simp only [bind_assoc, pure_bind, ih]
    · rfl

/-- A start failed, and the interval before the next goes beyond the end of the clock. -/
def RestartOverflows (m : Manager) (rounds : Nat) (tl tl' : Timeline Action Host) : Prop :=
  ∃ e failed, m.establish rounds tl = .ok (m, .error e) failed ∧
    Clock.lastTick < failed.now + m.settings.queryPlan.interval ∧
    tl' = { failed with world := failed.world.note (.startFailed e) }

theorem startRound_overflows_iff (rounds : Nat) : (startRound rounds m).Overflows tl tl' ↔
    m.EstablishOverflows rounds tl tl' ∨ m.RestartOverflows rounds tl tl' := by
  refine overflows_bind.trans (or_congr (establish_overflows_iff _) ⟨?_, ?_⟩)
  · rintro ⟨⟨m₁, outcome⟩, failed, hstart, h⟩
    cases outcome with
    | ok _ => exact absurd h (untimed_pure _ _ _)
    | error e =>
      have hsame := establish_error hstart
      subst hsame
      exact ⟨e, failed, hstart, (noted_sleep_overflows_iff fun _ => untimed_pure _).mp h⟩
  · rintro ⟨e, failed, hstart, h⟩
    exact ⟨(m, .error e), failed, hstart,
      (noted_sleep_overflows_iff fun _ => untimed_pure _).mpr h⟩

/-- One cycle of the main loop, and what is logged of it. -/
def loopRound (m : Manager) : HostRoutine (Manager ⊕ Empty) := do
  let (m, report) ← m.cycle
  note (.phase (m.phase (← Routine.world)))
  if let some (.failed e) := report.address then
    note (.addressChangeFailed e)
  return .inl m

theorem loop_eq (rounds : Nat) (m : Manager) :
    loop rounds m = Routine.repeated (fun _ => loopRound) rounds m := by
  induction rounds generalizing m with
  | zero => rfl
  | succ rounds ih =>
    rw [loop]
    show _ = (loopRound m >>= _)
    rw [loopRound, bind_assoc]
    congr 1
    funext r
    dsimp only
    simp only [bind_assoc, ih]
    congr 1
    funext h
    congr 1
    funext _
    cases r.2.address with
    | none => rfl
    | some change => cases change <;> rfl

theorem loopRound_overflows_iff : (loopRound m).Overflows tl tl' ↔ m.CycleOverflows tl tl' := by
  refine (overflows_bind_of_untimed fun r => ?_).trans cycle_overflows_iff
  refine (untimed_of_returns fun _ => ⟨_, _, rfl⟩).bind fun h => (untimed_note _).bind fun _ => ?_
  split
  · exact untimed_noted _ _
  · exact untimed_pure _

/-- A request of a run overflows, or one of its timers between two queries or two starts. -/
inductive RunOverflows (m : Manager) (rounds : Nat) (tl tl' : Timeline Action Host) : Prop
  | starting {left : Nat} {m₁ : Manager} {behind tl₁ : Timeline Action Host} :
    awaitStack tl = .ok () behind →
    Routine.Rounds startRound (left + 1) m₁ tl₁ rounds m behind →
    (m₁.EstablishOverflows left tl₁ tl' ∨ m₁.RestartOverflows left tl₁ tl') →
    RunOverflows m rounds tl tl'
  | looping {left : Nat} {m₁ m₂ : Manager} {behind up tl₁ : Timeline Action Host} :
    awaitStack tl = .ok () behind → establishAtLast rounds m behind = .ok m₁ up →
    Routine.Rounds (fun _ => loopRound) (left + 1) m₂ tl₁ rounds m₁ up →
    m₂.CycleOverflows tl₁ tl' → RunOverflows m rounds tl tl'

theorem establishAtLast_overflows_iff (rounds : Nat) :
    (establishAtLast rounds m).Overflows tl tl' ↔ ∃ left m₁ tl₁,
      Routine.Rounds startRound (left + 1) m₁ tl₁ rounds m tl ∧
      (m₁.EstablishOverflows left tl₁ tl' ∨ m₁.RestartOverflows left tl₁ tl') := by
  rw [establishAtLast_eq, Routine.repeated_overflows_iff]
  simp only [startRound_overflows_iff]

theorem loop_overflows_iff (rounds : Nat) : (loop rounds m).Overflows tl tl' ↔ ∃ left m₁ tl₁,
    Routine.Rounds (fun _ => loopRound) (left + 1) m₁ tl₁ rounds m tl ∧
      m₁.CycleOverflows tl₁ tl' := by
  rw [loop_eq, Routine.repeated_overflows_iff]
  simp only [loopRound_overflows_iff]

/-- **A run overflows** in a request, between two queries of the module, or between two starts. -/
theorem run_overflows_iff (rounds : Nat) :
    (m.run rounds).Overflows tl tl' ↔ m.RunOverflows rounds tl tl' := by
  unfold run
  rw [untimed_awaitStack.overflows_bind]
  constructor
  · rintro ⟨_, behind, hgate, h⟩
    obtain h | ⟨m₁, up, hup, h⟩ := overflows_bind.mp h
    · obtain ⟨left, m₁, tl₁, hrounds, h⟩ := (establishAtLast_overflows_iff rounds).mp h
      exact .starting hgate hrounds h
    · obtain ⟨left, m₂, tl₁, hrounds, h⟩ := (loop_overflows_iff rounds).mp h
      exact .looping hgate hup hrounds h
  · rintro (⟨hgate, hrounds, h⟩ | ⟨hgate, hup, hrounds, h⟩)
    · refine ⟨(), _, hgate, overflows_bind.mpr (Or.inl ?_)⟩
      exact (establishAtLast_overflows_iff rounds).mpr ⟨_, _, _, hrounds, h⟩
    · refine ⟨(), _, hgate, overflows_bind.mpr (Or.inr ⟨_, _, hup, ?_⟩)⟩
      exact (loop_overflows_iff rounds).mpr ⟨_, _, _, hrounds, h⟩

/-! ## the whole of it -/

/-- Where the ticks of the manager `m` overflow, and where they do not. -/
structure OverflowsByTimer (m : Manager) : Prop where
  awaitReport : ∀ accept timeout, (HostRoutine.awaitReport accept timeout).Untimed
  awaitStatus : ∀ accept timeout, (HostRoutine.awaitStatus accept timeout).Untimed
  /-- Waits with a deadline beyond the end of the clock do not give up. -/
  endless : ∀ timeout tl tl', Clock.lastTick < tl.now + timeout →
    (∀ target events, HostRoutine.awaitAny target timeout tl = .ok events tl' →
      events ≠ EventSet.empty) ∧
    (∀ accept up, HostRoutine.awaitReport accept timeout tl = .ok up tl' → up = true) ∧
    ∀ accept up, HostRoutine.awaitStatus accept timeout tl = .ok up tl' → up = true
  /-- A request overflows by the time of its response, or by what it allows of that. -/
  request : ∀ {β : Type} request (draw : Coprocessor → Response β × Coprocessor) timeout tl tl',
    (ask request draw timeout).Overflows tl tl' ↔ 0 < (draw tl.world.coprocessor).1.delay ∧
      Clock.lastTick < tl.now + min timeout (draw tl.world.coprocessor).1.delay ∧
      tl' = asked request draw timeout tl
  /-- A co-processor that answers at once sets no timer. -/
  prompt : ∀ {β : Type} request (draw : Coprocessor → Response β × Coprocessor) timeout tl tl',
    Coprocessor.Draws draw → tl.world.coprocessor.All Response.Prompt →
    ¬ (ask request draw timeout).Overflows tl tl'
  /-- The delays of the retry plan are durations that the clock can show. -/
  delay : m.settings.queryPlan.interval ≤ Clock.lastTick → ∀ attempt delay,
    m.settings.queryPlan.delayAfter attempt = some delay → delay ≤ Clock.lastTick
  cycle : ∀ tl tl', m.cycle.Overflows tl tl' ↔ m.CycleOverflows tl tl'
  start : ∀ rounds tl tl', (m.start rounds).Overflows tl tl' ↔
    ∃ behind, awaitStack tl = .ok () behind ∧ m.EstablishOverflows rounds behind tl'
  run : ∀ rounds tl tl', (m.run rounds).Overflows tl tl' ↔ m.RunOverflows rounds tl tl'

/-- **Overflows come from timers.**  Whatever the settings, the clock, the co-processor and the
interface, no wait of the manager overflows, and a deadline beyond the end of the clock is none.  A
cycle overflows in a request alone, a start also in the timer between two queries of the module, and
a run also in the timer between two starts: there the delay of the retry plan is added to the clock
as it is. -/
theorem overflows_by_timer (m : Manager) : m.OverflowsByTimer where
  awaitReport := untimed_awaitReport
  awaitStatus := untimed_awaitStatus
  endless := fun _ _ _ hbeyond => ⟨fun _ _ => awaitAny_endless hbeyond,
    fun _ _ h => (awaitReport_endless hbeyond h).1, fun _ _ => awaitStatus_endless hbeyond⟩
  request := fun request draw timeout _ _ => ask_overflows_iff request draw timeout
  prompt := fun _ _ _ _ _ => ask_not_overflows
  delay := fun hinterval _ _ => RetryPlan.delayAfter_le_lastTick hinterval
  cycle := fun _ _ => cycle_overflows_iff
  start := fun rounds _ _ => start_overflows_iff rounds
  run := fun rounds _ _ => run_overflows_iff rounds

/-- A manager whose retry plan waits as long as the clock can show. -/
def patient : Manager := { settings := { queryPlan := .forever Clock.lastTick } }

/-- A tick after the beginning the stack is ready.  Its interface may refuse the registration, and
the module may fail to tell its firmware. -/
def readySoon (registerError : Option StackFault) (failures : List (Response String)) :
    Timeline Action Host where
  now := 1
  world := { ({ feeds := { firmware := some failures } } : HostSetup).host with
    mailbox := { pending := gate, claimed := true }
    interface := { registerError } }

theorem prompt_readySoon (registerError : Option StackFault) {failures : List (Response String)}
    (hprompt : ∀ r ∈ failures, r.Prompt) :
    (readySoon registerError failures).world.coprocessor.All Response.Prompt := by
  have hquick : ∀ {α : Type} (a : α), (Feed.always a).All Response.Prompt :=
    fun _ => Feed.all_always rfl
  exact ⟨hquick _, hquick _, hquick _, ⟨hprompt, fun _ => rfl⟩, hquick _⟩

/-- Nothing is on the agenda, the co-processor answers at once, and yet a start overflows after a
query that failed, and a run after a registration that was refused. -/
theorem patient_overflows :
    (∃ tl tl', tl.agenda = [] ∧ tl.world.coprocessor.All Response.Prompt ∧
      (patient.start 1).Overflows tl tl') ∧
    ∃ tl tl', tl.agenda = [] ∧ tl.world.coprocessor.All Response.Prompt ∧
      (patient.run 2).Overflows tl tl' := by
  refine ⟨⟨readySoon none [{ outcome := .error .timeout }], _, rfl, prompt_readySoon _ ?_, rfl⟩,
    readySoon (some .outOfMemory) [], _, rfl, prompt_readySoon _ ?_, rfl⟩
  · intro r hr
    rw [List.mem_singleton.mp hr]
    rfl
  · intro r hr
    exact absurd hr List.not_mem_nil

end Manager

end Uplink
