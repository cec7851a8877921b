import Uplink.Proofs.CyclePhases
import Uplink.Proofs.Rest

/-!
# The main loop goes quiet

The calls of a manager on its interface come back to its mailbox as events, and each of them may end
the next main wait at once.  If nobody else acts, that ends after two cycles: the first leaves
nothing to adjust, so the second makes no call, and from then on nothing is pending.

* `Timeline.Undisturbed`    nobody acts, nothing is reported, and no call on acquisition is refused;
* `Manager.Calming`         what the first cycle leaves, from wherever it began;
* `Manager.AtRest`          what the second cycle leaves, and every later one;
* `Manager.QuietCycle`      a cycle that only waits, and attempts an association if the status asks
                            for one;
* `Cycles`                  any number of cycles, one after the other;
* `loop_goes_quiet`         every cycle after the second one is quiet.
-/

namespace Uplink

open Host HostRoutine

/-- From now on nobody but the manager acts, the co-processor reports nothing, and the stack refuses
no call on address acquisition. -/
structure Timeline.Undisturbed (tl : Timeline Action Host) : Prop extends tl.Idle where
  starts : tl.world.interface.startError = none
  stops : tl.world.interface.stopError = none

variable {m m' : Manager} {tl tl₁ tl' : Timeline Action Host} {h : Host}

theorem Timeline.Undisturbed.rests (hu : tl.Undisturbed) (hr : tl.RestsTo tl') :
    tl'.Undisturbed where
  toIdle := hr.idle
  starts := by rw [hr.world.interface_eq, hu.starts]
  stops := by rw [hr.world.interface_eq, hu.stops]

theorem Timeline.Undisturbed.handles (hu : tl.Undisturbed) (hh : Handles tl.world h) :
    Timeline.Undisturbed { tl with world := h } where
  agenda := hu.agenda
  silent := hh.coprocessor ▸ hu.silent
  starts := (hh.refusal .startAcquisition).trans hu.starts
  stops := (hh.refusal .releaseAndStop).trans hu.stops

theorem EventSet.diff_inter (s target : EventSet) : (s &&& ~~~target) &&& target = empty := by
  apply BitVec.eq_of_getLsbD_eq
  intro i _
  rw [BitVec.getLsbD_and, getLsbD_diff]
  cases s.getLsbD i <;> cases target.getLsbD i <;> simp [empty]

theorem HostRoutine.world_idleUntil {goal : Nat} {events : EventSet}
    (h : idleUntil goal tl = .ok events tl') :
    events = EventSet.empty ∧ tl'.world = tl.world := by
  unfold idleUntil at h
  split at h
  · split at h
    · cases h
      exact ⟨rfl, rfl⟩
    · cases h
  · cases h

theorem HostRoutine.halted_idleUntil {goal : Nat} {e : Halt}
    (h : idleUntil goal tl = .error e tl') : tl'.world = tl.world := by
  unfold idleUntil at h
  split at h
  · split at h
    · cases h
    · cases h
      rfl
  · cases h
    rfl

/-! ## a modest routine that keeps the accounts -/

/-- At rest, what keeps the accounts leaves the mailbox as it was. -/
theorem HostRoutine.Modest.resting_pending {β : Type} {x : HostRoutine β} (hx : Modest x)
    {R E : List Request → Prop} (hasks : Asks x R E) (hidle : tl.Idle) :
    x.Ends tl (fun _ tl' => tl.RestsTo tl' ∧
      tl'.world.mailbox.pending = tl.world.mailbox.pending) tl.RestsTo := by
  refine ((hx.resting tl hidle).and (hasks tl (since_refl tl.world))).imp ?_ fun _ h => h.1
  intro _ tl' hend
  obtain ⟨hrests, rs, _, hs⟩ := hend
  exact ⟨hrests, hrests.world.pending_eq hs⟩

namespace Manager

/-- What is still stays so while the host rests. -/
theorem Still.attempted (hs : m.Still tl.world) (hr : tl.RestsTo tl')
    {r : Manager × Option (Except AttemptFault AttemptOutcome)} (hm : m.Attempted r) :
    r.1.Still tl'.world := by
  have hstatus := hr.world.status_eq
  have hinterface := hr.world.interface_eq
  obtain rfl | ⟨association, outcome, rfl⟩ := hm
  · exact ⟨by rw [hstatus]; exact hs.mirrored, by rw [hinterface]; exact hs.due⟩
  · exact ⟨by rw [hstatus]; exact hs.mirrored, by rw [hinterface]; exact hs.due⟩

theorem attempted_settings {r : Manager × Option (Except AttemptFault AttemptOutcome)}
    (hm : m.Attempted r) : r.1.settings = m.settings := by
  obtain rfl | ⟨association, outcome, rfl⟩ := hm <;> rfl

/-! ## the first part of a cycle -/

theorem associateIfNeeded_rests (m : Manager) (hidle : tl.Idle) :
    m.associateIfNeeded.Ends tl (fun r tl' => (tl.RestsTo tl' ∧
      tl'.world.mailbox.pending = tl.world.mailbox.pending) ∧ m.Attempted r) tl.RestsTo :=
  ((m.modest_associateIfNeeded.resting_pending m.associateIfNeeded_tame hidle).and
    (m.associateIfNeeded_attempted tl)).imp (fun _ _ h => h) fun _ h => h.1

/-- The main wait delivers what was pending when the cycle began, and leaves nothing of it. -/
theorem hear_rests (m : Manager) (hidle : tl.Idle) :
    m.hear.Ends tl (fun heard tl₁ => tl.RestsTo tl₁ ∧ m.Attempted (heard.1, heard.2.1) ∧
      heard.2.2 = tl.world.mailbox.pending &&& EventSet.known ∧
      tl₁.world.mailbox.pending = tl.world.mailbox.pending &&& ~~~EventSet.known) tl.RestsTo := by
  unfold hear
  refine Routine.ends_bind.mpr ((m.associateIfNeeded_rests hidle).imp ?_ fun _ h => h)
  intro r tlₐ hend
  obtain ⟨⟨hrests, hpending⟩, hm⟩ := hend
  refine Routine.ends_bind.mpr ((awaitAny_rests EventSet.known _ hrests.idle).imp ?_ ?_)
  · intro events tl₁ hend
    obtain ⟨hwaited, hevents, hleft⟩ := hend
    rw [hpending] at hevents hleft
    exact Routine.ends_pure ⟨hrests.trans hwaited, hm, hevents, hleft⟩
  · intro tl₁ hwaited
    exact hrests.trans hwaited

/-- An attempt is made exactly if the status asks for one. -/
theorem associateIfNeeded_isSome (m : Manager) (tl : Timeline Action Host) :
    m.associateIfNeeded.Ends tl (fun r _ => r.2.isSome = tl.world.status.mayAssociate)
      fun _ => True := by
  show Routine.Ends (if tl.world.status.mayAssociate then _ else _) tl _ _
  by_cases hmay : tl.world.status.mayAssociate = true
  · rw [if_pos hmay]
    refine Routine.ends_bind_last fun r _ => Routine.ends_bind_last fun m' _ => ?_
    exact Routine.ends_pure hmay.symm
  · rw [if_neg hmay]
    exact Routine.ends_pure (Bool.eq_false_iff.mpr hmay).symm

/-! ## the second part of a cycle -/

theorem handles_adjust (m : Manager) (now : Nat) (h : Host) : Handles h (m.adjust now h).2 :=
  (m.handles_mirrorStatus now h).trans (handles_reconcile _ now _)

theorem handles_afterWait (events : EventSet) (h : Host) : Handles h (afterWait events h) := by
  unfold afterWait
  split
  · exact .single (.note _)
  · exact .refl

theorem mailbox_afterWait (events : EventSet) (h : Host) :
    (afterWait events h).mailbox = h.mailbox := by
  unfold afterWait
  split <;> rfl

theorem Still.afterWait (hs : m.Still h) (events : EventSet) :
    m.Still (Manager.afterWait events h) := by
  unfold Manager.afterWait
  split
  · exact ⟨hs.mirrored, hs.due⟩
  · exact hs

/-- A stack that refuses no call on acquisition lets every adjustment succeed. -/
theorem adjust_succeeds (now : Nat) (hstart : h.interface.startError = none)
    (hstop : h.interface.stopError = none) (e : StackFault) :
    (m.adjust now h).1.2.2 ≠ some (.failed e) := by
  have hmirrored := handles_mirrorStatus m now h
  intro hfailed
  replace hfailed : ((m.mirrorStatus now h).1.1.reconcileAddress now
    (m.mirrorStatus now h).2).1.2 = some (.failed e) := hfailed
  cases hd : (m.mirrorStatus now h).1.1.dueCall (m.mirrorStatus now h).2.interface.snapshot with
  | none =>
    rw [reconcile_of_none now hd] at hfailed
    cases hfailed
  | some call =>
    have haccepted : (m.mirrorStatus now h).2.interface.refusal call = none := by
      rw [hmirrored.refusal]
      obtain rfl | rfl := dueCall_cases hd
      · exact hstart
      · exact hstop
    obtain ⟨h', heq, _, _⟩ := reconcile_succeeds now hd haccepted
    rw [heq] at hfailed
    obtain rfl | rfl := dueCall_cases hd <;> cases hfailed

/-- With nothing to adjust and no reconnect to serve, an answer is a line in the log at most. -/
theorem answer_of_still (hs : m.Still tl.world) {events : EventSet}
    (hasked : ¬ events.Has .reconnectRequested)
    (attempt : Option (Except AttemptFault AttemptOutcome)) :
    m.answer attempt events tl
      = .ok (m, { events, attempt }) { tl with world := afterWait events tl.world } := by
  rw [answer_eq, adjust_of_still tl.now (hs.afterWait events)]
  dsimp only
  rw [Routine.bind_apply, renewIfAsked_of_not_asked hasked]
  rfl

/-! ## two cycles -/

/-- Nothing is left to adjust, and no reconnect is requested; other events may be pending. -/
structure Calming (m : Manager) (tl : Timeline Action Host) : Prop where
  undisturbed : tl.Undisturbed
  still : m.Still tl.world
  not_asked : ¬ tl.world.mailbox.pending.Has .reconnectRequested

/-- Nothing is left to adjust, and nothing is pending. -/
structure AtRest (m : Manager) (tl : Timeline Action Host) : Prop where
  undisturbed : tl.Undisturbed
  still : m.Still tl.world
  none_pending : tl.world.mailbox.pending &&& EventSet.known = EventSet.empty

/-- **The first cycle**, from wherever it begins, leaves nothing to adjust. -/
theorem calming_of_cycle (hu : tl.Undisturbed) {r : Manager × CycleReport}
    (hcycle : m.cycle tl = .ok r tl') : r.1.Calming tl' := by
  rw [cycle_eq] at hcycle
  obtain ⟨heard, tl₁, hhear, hanswer⟩ := Routine.bind_eq_ok.mp hcycle
  obtain ⟨hrests, _, _, hleft⟩ := (m.hear_rests hu.toIdle).of_ok hhear
  rw [answer_eq] at hanswer
  obtain ⟨renewed, tl₂, hrenew, hreturn⟩ := Routine.bind_eq_ok.mp hanswer
  cases hreturn
  have hwaited := handles_afterWait heard.2.2 tl₁.world
  have hadjusted := hwaited.trans (handles_adjust heard.1 tl₁.now _)
  have hu₁ := hu.rests hrests
  have hu₂ := hu₁.handles hadjusted
  have hu₁' := hu₁.handles hwaited
  have hstill : (heard.1.adjust tl₁.now (afterWait heard.2.2 tl₁.world)).1.1.Still
      (heard.1.adjust tl₁.now (afterWait heard.2.2 tl₁.world)).2 :=
    still_adjust tl₁.now fun e => adjust_succeeds tl₁.now hu₁'.starts hu₁'.stops e
  -- the calls of the adjustment bring no reconnect request, and the renewal none either
  have hnot : ¬ tl₁.world.mailbox.pending.Has .reconnectRequested := by
    rw [hleft, EventSet.has_diff]
    exact fun h => h.2 (EventSet.has_known _)
  have hrenewed := (((modest_renewIfAsked _ _).resting_pending (renewIfAsked_asks _ _)
    hu₂.toIdle).and (renewIfAsked_attempted _ _ _)).of_ok hrenew
  obtain ⟨⟨hrests', hpending⟩, hm⟩ := hrenewed
  refine ⟨hu₂.rests hrests', Still.attempted hstill hrests' hm, ?_⟩
  rw [hpending]
  exact fun h => hnot ((Handles.pending rfl hadjusted).mp h)

/-- **The second cycle** delivers what the first one caused, and makes no call. -/
theorem Calming.atRest_of_cycle (hc : m.Calming tl) {r : Manager × CycleReport}
    (hcycle : m.cycle tl = .ok r tl') : r.1.AtRest tl' := by
  rw [cycle_eq] at hcycle
  obtain ⟨heard, tl₁, hhear, hanswer⟩ := Routine.bind_eq_ok.mp hcycle
  obtain ⟨hrests, hm, hevents, hleft⟩ := (m.hear_rests hc.undisturbed.toIdle).of_ok hhear
  have hasked : ¬ EventSet.Has heard.2.2 .reconnectRequested := by
    rw [hevents, EventSet.has_and]
    exact fun h => hc.not_asked h.1
  have hstill := hc.still.attempted hrests hm
  rw [answer_of_still hstill hasked] at hanswer
  cases hanswer
  refine ⟨(hc.undisturbed.rests hrests).handles (handles_afterWait heard.2.2 tl₁.world),
    hstill.afterWait _, ?_⟩
  show (afterWait heard.2.2 tl₁.world).mailbox.pending &&& EventSet.known = EventSet.empty
  rw [mailbox_afterWait, hleft, EventSet.diff_inter]

/-! ## quiet cycles -/

/-- A cycle that only waits, and attempts an association if the status asks for one. -/
structure QuietCycle (m : Manager) (tl : Timeline Action Host) : Prop where
  /-- It delivers no event and has nothing to report, except for its attempt. -/
  report : ∀ r tl', m.cycle tl = .ok r tl' → r.2.events = EventSet.empty ∧ r.2.link = none ∧
    r.2.address = none ∧ r.2.renewal = none ∧
    (r.2.attempt.isSome = true ↔ tl.world.status = .none ∨ tl.world.status = .stationDown)
  /-- It calls the interface not once; interface, cached status and the snapshot last observed stay
  as they are. -/
  untouched : m.cycle.Ends tl
    (fun _ tl' => callsSince tl.world tl'.world = [] ∧ tl.world.Rests tl'.world)
    (fun tl' => callsSince tl.world tl'.world = [] ∧ tl.world.Rests tl'.world)
  /-- Its main wait lasts as long as the settings say. -/
  waits : ∀ a tlₐ, m.associateIfNeeded tl = .ok a tlₐ →
    tlₐ.now + m.settings.loopTimeout < Clock.lastTick →
    Routine.mayReach tlₐ.horizon (tlₐ.now + m.settings.loopTimeout) = true →
    m.cycle tl = .ok (a.1, { attempt := a.2 }) { tlₐ with
      now := tlₐ.now + m.settings.loopTimeout, world := tlₐ.world.note .loopTimedOut }
  /-- It lasts for ever if its deadline never comes. -/
  waits_for_ever : ∀ a tlₐ, m.associateIfNeeded tl = .ok a tlₐ →
    Clock.lastTick ≤ tlₐ.now + m.settings.loopTimeout → m.cycle tl = .error .blocked tlₐ
  /-- Nothing else keeps a cycle from its return but its attempt and the end of the timeline. -/
  halts : ∀ e tl', m.cycle tl = .error e tl' → m.associateIfNeeded tl = .error e tl' ∨
    ∃ a tlₐ, m.associateIfNeeded tl = .ok a tlₐ ∧
      idleUntil (tlₐ.now + m.settings.loopTimeout) tlₐ = .error e tl'

section
variable {a : Manager × Option (Except AttemptFault AttemptOutcome)} {tlₐ : Timeline Action Host}

theorem cycle_of_attempt (hattempt : m.associateIfNeeded tl = .ok a tlₐ) :
    m.cycle tl = (awaitAny EventSet.known a.1.settings.loopTimeout >>=
      fun events => a.1.answer a.2 events) tlₐ := by
  have hcycle : m.cycle = m.associateIfNeeded >>= fun a =>
      awaitAny EventSet.known a.1.settings.loopTimeout >>= fun events =>
        a.1.answer a.2 events := by
    rw [cycle_eq]
    unfold hear
    simp only [bind_assoc, pure_bind]
  rw [hcycle, Routine.bind_apply, hattempt]

theorem cycle_of_halt {e : Halt} (hattempt : m.associateIfNeeded tl = .error e tl') :
    m.cycle tl = .error e tl' := by
  rw [cycle_eq, hear, Routine.bind_apply, Routine.bind_apply, hattempt]

/-- A cycle at rest, where its attempt has returned: the main wait is in vain. -/
theorem AtRest.cycle_waits (hr : m.AtRest tl) (hattempt : m.associateIfNeeded tl = .ok a tlₐ) :
    (∀ events tl₁, idleUntil (tlₐ.now + m.settings.loopTimeout) tlₐ = .ok events tl₁ →
      m.cycle tl = .ok (a.1, { attempt := a.2 })
        { tl₁ with world := tl₁.world.note .loopTimedOut }) ∧
    (∀ e tl₁, idleUntil (tlₐ.now + m.settings.loopTimeout) tlₐ = .error e tl₁ →
      m.cycle tl = .error e tl₁) := by
  obtain ⟨⟨hrests, hpending⟩, hm⟩ :=
    (m.associateIfNeeded_rests hr.undisturbed.toIdle).of_ok hattempt
  have hnone := hr.none_pending
  rw [← hpending] at hnone
  rw [cycle_of_attempt hattempt, attempted_settings hm, Routine.bind_apply,
    awaitAny_idle hrests.idle.agenda hnone]
  constructor
  · intro events tl₁ hwait
    obtain ⟨rfl, hworld⟩ := world_idleUntil hwait
    have hstill := hr.still.attempted hrests hm
    rw [← hworld] at hstill
    rw [hwait]
    exact answer_of_still hstill (EventSet.not_has_empty _) a.2
  · intro e tl₁ hwait
    rw [hwait]

end

/-- The three ways in which a cycle at rest ends. -/
theorem AtRest.cycle_cases (hr : m.AtRest tl) :
    (∃ e tl', m.associateIfNeeded tl = .error e tl' ∧ m.cycle tl = .error e tl') ∨
    ∃ a tlₐ, m.associateIfNeeded tl = .ok a tlₐ ∧
      ((∃ tl₁, idleUntil (tlₐ.now + m.settings.loopTimeout) tlₐ = .ok EventSet.empty tl₁ ∧
          m.cycle tl = .ok (a.1, { attempt := a.2 })
            { tl₁ with world := tl₁.world.note .loopTimedOut }) ∨
        ∃ e tl', idleUntil (tlₐ.now + m.settings.loopTimeout) tlₐ = .error e tl' ∧
          m.cycle tl = .error e tl') := by
  cases hattempt : m.associateIfNeeded tl with
  | error e tl' => exact Or.inl ⟨e, tl', rfl, cycle_of_halt hattempt⟩
  | ok a tlₐ =>
    obtain ⟨hreturns, hhalts⟩ := hr.cycle_waits hattempt
    refine Or.inr ⟨a, tlₐ, rfl, ?_⟩
    cases hwait : idleUntil (tlₐ.now + m.settings.loopTimeout) tlₐ with
    | ok events tl₁ =>
      obtain ⟨rfl, _⟩ := world_idleUntil hwait
      exact Or.inl ⟨tl₁, rfl, hreturns _ _ hwait⟩
    | error e tl' => exact Or.inr ⟨e, tl', rfl, hhalts _ _ hwait⟩

theorem AtRest.report (hr : m.AtRest tl) {r : Manager × CycleReport}
    (hcycle : m.cycle tl = .ok r tl') : r.2.events = EventSet.empty ∧ r.2.link = none ∧
      r.2.address = none ∧ r.2.renewal = none ∧
      (r.2.attempt.isSome = true ↔ tl.world.status = .none ∨ tl.world.status = .stationDown) := by
  obtain ⟨_, _, _, heq⟩ | ⟨a, tlₐ, hattempt, ⟨_, _, heq⟩ | ⟨_, _, _, heq⟩⟩ := hr.cycle_cases
  · cases hcycle.symm.trans heq
  · cases hcycle.symm.trans heq
    have hsome := (m.associateIfNeeded_isSome tl).of_ok hattempt
    refine ⟨rfl, rfl, rfl, rfl, ?_⟩
    rw [← tl.world.status.mayAssociate_iff, ← hsome]
  · cases hcycle.symm.trans heq

theorem AtRest.untouched (hr : m.AtRest tl) :
    m.cycle.Ends tl (fun _ tl' => tl.world.Rests tl'.world)
      fun tl' => tl.world.Rests tl'.world := by
  have hrests := m.associateIfNeeded_rests hr.undisturbed.toIdle
  unfold Routine.Ends
  obtain ⟨_, _, hattempt, heq⟩ | ⟨a, tlₐ, hattempt, ⟨tl₁, hwait, heq⟩ | ⟨_, _, hwait, heq⟩⟩ :=
    hr.cycle_cases
  · rw [heq]
    exact (hrests.of_error hattempt).world
  · have hworld := (world_idleUntil hwait).2
    rw [heq]
    show tl.world.Rests (tl₁.world.note .loopTimedOut)
    rw [hworld]
    exact (hrests.of_ok hattempt).1.1.world.trans (rests_of_trace rfl rfl rfl rfl)
  · rw [heq]
    show tl.world.Rests _
    rw [halted_idleUntil hwait]
    exact (hrests.of_ok hattempt).1.1.world

/-- **A cycle at rest is quiet.** -/
theorem AtRest.quiet (hr : m.AtRest tl) : m.QuietCycle tl where
  report r tl' := hr.report
  untouched := hr.untouched.imp (fun _ _ h => ⟨h.callsSince, h⟩) fun _ h => ⟨h.callsSince, h⟩
  waits a tlₐ hattempt hring hreach := by
    refine (hr.cycle_waits hattempt).1 EventSet.empty { tlₐ with
      now := tlₐ.now + m.settings.loopTimeout } ?_
    unfold idleUntil
    rw [if_pos hring, if_pos hreach]
  waits_for_ever a tlₐ hattempt hnever := by
    refine (hr.cycle_waits hattempt).2 .blocked tlₐ ?_
    unfold idleUntil
    rw [if_neg (Nat.not_lt.mpr hnever)]
  halts e tl' hcycle := by
    obtain ⟨_, _, hattempt, heq⟩ | ⟨a, tlₐ, hattempt, ⟨_, _, heq⟩ | ⟨_, _, hwait, heq⟩⟩ :=
      hr.cycle_cases
    · cases hcycle.symm.trans heq
      exact Or.inl hattempt
    · cases hcycle.symm.trans heq
    · cases hcycle.symm.trans heq
      exact Or.inr ⟨a, tlₐ, hattempt, hwait⟩

end Manager

/-! ## any number of cycles -/

/-- `n` cycles of a manager, one after the other.  Between two of them the manager may write to the
log and time may pass. -/
inductive Cycles : Nat → Manager → Timeline Action Host → Manager → Timeline Action Host → Prop
  | none (m : Manager) (tl : Timeline Action Host) : Cycles 0 m tl m tl
  | next {n : Nat} {m m₁ : Manager} {tl tl₁ tl' : Timeline Action Host}
    {r : Manager × CycleReport} : Cycles n m tl m₁ tl₁ → m₁.cycle tl₁ = .ok r tl' →
    Cycles (n + 1) m tl r.1 tl'
  | between {n : Nat} {m m₁ : Manager} {tl tl₁ : Timeline Action Host} (e : LogEntry)
    (now : Nat) : Cycles n m tl m₁ tl₁ →
    Cycles n m tl m₁ { tl₁ with now, world := tl₁.world.note e }

/-- What is known after `n` cycles. -/
structure Cycles.Leaves (n : Nat) (m : Manager) (tl : Timeline Action Host) : Prop where
  undisturbed : tl.Undisturbed
  calming : 1 ≤ n → m.Calming tl
  atRest : 2 ≤ n → m.AtRest tl

theorem Cycles.leaves {n : Nat} (hc : Cycles n m tl m' tl') (hu : tl.Undisturbed) :
    Leaves n m' tl' := by
  induction hc with
  | none m tl => exact ⟨hu, fun h => absurd h (by decide), fun h => absurd h (by decide)⟩
  | @next n m m₁ tl tl₁ tl' r _ hcycle ih =>
    have hbefore := ih hu
    have hcalming := Manager.calming_of_cycle hbefore.undisturbed hcycle
    refine ⟨hcalming.undisturbed, fun _ => hcalming, fun h => ?_⟩
    exact (hbefore.calming (by omega)).atRest_of_cycle hcycle
  | between e now _ ih =>
    obtain ⟨hu₁, hcalming, hrest⟩ := ih hu
    refine ⟨⟨⟨hu₁.agenda, hu₁.silent⟩, hu₁.starts, hu₁.stops⟩, fun h => ?_, fun h => ?_⟩
    · obtain ⟨⟨⟨hagenda, hsilent⟩, hstarts, hstops⟩, ⟨hmirrored, hdue⟩, hnot⟩ := hcalming h
      exact ⟨⟨⟨hagenda, hsilent⟩, hstarts, hstops⟩, ⟨hmirrored, hdue⟩, hnot⟩
    · obtain ⟨⟨⟨hagenda, hsilent⟩, hstarts, hstops⟩, ⟨hmirrored, hdue⟩, hnone⟩ := hrest h
      exact ⟨⟨⟨hagenda, hsilent⟩, hstarts, hstops⟩, ⟨hmirrored, hdue⟩, hnone⟩

/-- **The loop goes quiet.**  Take a manager and a host in any state, whatever is pending, mirrored
and cached, whatever the interface looks like, and whether or not a reconnect is requested.  If from
now on nobody else acts, the co-processor reports nothing and the stack refuses no call on
acquisition, then every cycle after the second one is quiet: it delivers no event, changes neither
link nor acquisition and serves no reconnect, calls the interface not once, leaves interface and
status alone, attempts an association exactly if the status asks for one, and its main wait lasts as
long as the settings say, or for ever if the clock does not reach that deadline. -/
theorem loop_goes_quiet {n : Nat} (hu : tl.Undisturbed) (hc : Cycles (n + 2) m tl m' tl') :
    m'.QuietCycle tl' :=
  ((hc.leaves hu).atRest (by omega)).quiet

/-- A reconnect is requested and a status was reported, and the link is still down. -/
def stirredUp : Timeline Action Host where
  now := slowSetup.clock
  world := { slowSetup.host with
    mailbox := { pending := 0xC0#32, claimed := true }
    status := .stationGotIp
    interface := { mac := some HostSetup.address, lease := some ⟨192, 168, 0, 7⟩ } }

theorem undisturbed_stirredUp : stirredUp.Undisturbed := by
  have hslow : ∀ r ∈ [({ delay := 5, outcome := .ok () } : Response Unit)], r.Silent := by
    intro r hr
    rw [List.mem_singleton.mp hr]
    exact ⟨rfl, rfl⟩
  have hquick : ∀ {α : Type} (a : α), (Feed.always a).All Response.Silent :=
    fun _ => Feed.all_always ⟨rfl, rfl⟩
  exact ⟨⟨rfl, hquick _, hquick _, ⟨hslow, fun _ => ⟨rfl, rfl⟩⟩, hquick _, hquick _⟩, rfl, rfl⟩

/-- Its first two cycles deliver events, the second of them those of the link and the address that
the first one brought about; the third one delivers none. -/
theorem quiet_after_reconnect :
    ∃ r₁ tl₁ r₂ tl₂ r₃ tl₃, Manager.cycle {} stirredUp = .ok r₁ tl₁ ∧
      r₁.1.cycle tl₁ = .ok r₂ tl₂ ∧ r₂.1.cycle tl₂ = .ok r₃ tl₃ ∧ r₁.2.renewal.isSome = true ∧
      r₂.2.events = EventSet.single .linkUp ||| EventSet.single .ipAddressChanged ∧
      r₃.2.events = EventSet.empty ∧ callsSince tl₂.world tl₃.world = [] ∧
      tl₃.now = tl₂.now + 30 * second := by
  refine ⟨_, _, _, _, _, _, rfl, rfl, rfl, rfl, rfl, ?_⟩
  have hquiet := loop_goes_quiet (n := 0) undisturbed_stirredUp
    (.next (.next (.none {} stirredUp) rfl) rfl)
  exact ⟨(hquiet.report _ _ rfl).1, (hquiet.untouched.of_ok rfl).1, rfl⟩

end Uplink
