import Uplink.Proofs.Endless
import Uplink.Proofs.Reports

/-!
# The loops of the status waits

A wait for a status can be written as a loop: as long as there is time, wait for an update on the
mailbox, for the time that is left, and look at the status after each.  The one wait of
`awaitReport`, which goes on over several updates, is that loop.

* `Clock.remaining?`            the time left until a deadline;
* `reportLoop`, `statusLoop`    the loops, for a number of rounds;
* `watched_of_remaining`        one round is one wait on the mailbox, and the rest goes on from there;
* `awaitReport_eq_reportLoop`   the loop for a report;
* `awaitStatus_eq_statusLoop`   the loop for a status.
-/

namespace Uplink

open Host HostRoutine

/-! ## the time that is left -/

namespace Clock

/-- The time left until a deadline, if there is some; without a deadline, all the time there is. -/
def remaining? (deadline : Option Nat) (now : Nat) : Option Nat :=
  match deadline with
  | none => some lastTick
  | some d => if now < d then some (d - now) else none

theorem remaining?_eq_none_iff {deadline : Option Nat} {now : Nat} :
    remaining? deadline now = none ↔ passed deadline now = true := by
  cases deadline with
  | none => simp [remaining?, passed_none]
  | some d => simp [remaining?, passed_some]

/-- A wait for the time that is left has the same deadline as the whole. -/
theorem ring?_of_remaining? {deadline : Option Nat} {now left : Nat}
    (h : remaining? deadline now = some left) : ring? (after? now left) = ring? deadline := by
  cases deadline with
  | none =>
    cases h
    exact ring?_after?_eq_none_iff.mpr (Nat.le_add_left _ _)
  | some d =>
    unfold remaining? at h
    dsimp only at h
    split at h
    · rename_i hlt
      cases h
      unfold after?
      rw [Nat.add_sub_cancel' (Nat.le_of_lt hlt)]
      split
      · rfl
      · refine (Option.eq_none_iff_forall_ne_some.mpr fun t ht => ?_).symm
        obtain ⟨hd, hring⟩ := ring?_eq_some_iff.mp ht
        cases hd
        omega
    · cases h

theorem ring?_not_passed {deadline : Option Nat} {now : Nat} (h : passed deadline now = false) :
    passed (ring? deadline) now = false := by
  apply Bool.eq_false_iff.mpr
  intro hpassed
  obtain ⟨d, hd, hle⟩ := passed_iff.mp hpassed
  rw [passed_iff.mpr ⟨d, (ring?_eq_some_iff.mp hd).1, hle⟩] at h
  exact Bool.false_ne_true h.symm

theorem passed_of_ring? {deadline : Option Nat} {now : Nat}
    (h : passed (ring? deadline) now = true) : passed deadline now = true := by
  obtain ⟨d, hd, hle⟩ := passed_iff.mp h
  exact passed_iff.mpr ⟨d, (ring?_eq_some_iff.mp hd).1, hle⟩

end Clock

namespace Routine

variable {α σ ρ β γ : Type}

/-- Goes on where a routine has ended. -/
def resume (f : β → Routine α σ γ) :
    EStateM.Result Halt (Timeline α σ) β → EStateM.Result Halt (Timeline α σ) γ
  | .ok b tl => f b tl
  | .error e tl => .error e tl

theorem bind_eq_resume (x : Routine α σ β) (f : β → Routine α σ γ) (tl : Timeline α σ) :
    (x >>= f) tl = resume f (x tl) := by
  rw [bind_apply]
  cases x tl <;> rfl

variable [Reactive α σ] {w : Wait σ ρ β} {deadline : Option Nat} {r : ρ} {tl : Timeline α σ}

/-- What counts of a deadline is when it rings. -/
theorem await_of_ring?_eq {deadline' : Option Nat} (w : Wait σ ρ β) (r : ρ) (tl : Timeline α σ)
    (h : Clock.ring? deadline = Clock.ring? deadline') :
    await w deadline r tl = await w deadline' r tl := by
  unfold await
  rw [h]

/-- A wait that finds nothing, with nothing due, follows the agenda. -/
theorem await_settled (hlook : w.look tl.now r tl.world = (.pending r, tl.world))
    (hlater : ∀ b ∈ tl.agenda, tl.now < b.time)
    (hpassed : Clock.passed (Clock.ring? deadline) tl.now = false) :
    await w deadline r tl
      = follow w (Clock.ring? deadline) tl.horizon tl.agenda tl.now r tl.world := by
  unfold await
  rw [hlook]
  dsimp only
  rw [Timeline.settle_of_idle hlater, hlook]
  dsimp only
  rw [hpassed, if_neg Bool.false_ne_true]

end Routine

/-! ## one wait for an update -/

namespace HostRoutine

variable {accept : RadioStatus → Bool} {deadline ring horizon : Option Nat} {now : Nat}
  {taken : Bool} {h : Host} {g : Agenda Action} {tl tl' : Timeline Action Host}

theorem take_updates_of_not_has (hnot : ¬ h.mailbox.pending.Has .statusUpdated) :
    (port.take updates h).2 = h := by
  have hback := Mailbox.putBack_take h.mailbox updates
  have hnone : (h.mailbox.take updates).1 = EventSet.empty := (take_updates_eq_empty h).mpr hnot
  rw [hnone, Mailbox.putBack_empty] at hback
  show { h with mailbox := (h.mailbox.take updates).2 } = h
  rw [hback]

/-- A wait for all of the updates takes them as soon as they are there. -/
theorem look_gather (now : Nat) (h : Host) :
    (port.gather updates).look now EventSet.empty h
      = if h.mailbox.pending.Has .statusUpdated then (.done updates, (port.take updates h).2)
        else (.pending EventSet.empty, (port.take updates h).2) := by
  show (if (EventSet.empty ||| (port.take updates h).1).Covers updates then _ else _) = _
  rw [take_updates]
  split <;> rfl

theorem look_watch (now : Nat) (taken : Bool) (h : Host) :
    (watch accept deadline).look now taken h
      = if h.mailbox.pending.Has .statusUpdated then
          if accept (port.take updates h).2.status then (.done (true, true), (port.take updates h).2)
          else if Clock.passed deadline now then (.done (true, false), (port.take updates h).2)
          else (.pending true, (port.take updates h).2.note (.waitStarted updates))
        else (.pending taken, (port.take updates h).2) := by
  show (if (port.take updates h).1 = EventSet.empty then _ else _) = _
  rw [take_updates]
  split <;> rfl

/-- While there is time, starts a wait for an update and watches from there. -/
def watched (accept : RadioStatus → Bool) (deadline : Option Nat) (taken : Bool) :
    HostRoutine (Bool × Bool) := do
  if Clock.passed deadline (← Routine.now) then return (taken, false)
  note (.waitStarted updates)
  Routine.await (watch accept deadline) deadline taken

/-- What follows a wait for an update, which has got the update or nothing. -/
def afterUpdate (accept : RadioStatus → Bool) (deadline : Option Nat) (taken : Bool)
    (got : EventSet) : HostRoutine (Bool × Bool) := do
  if got = EventSet.empty then return (taken, false)
  if accept (← status) then return (true, true)
  watched accept deadline true

/-- Starts no further wait of its own: the wait that goes on is one that starts afresh. -/
theorem watched_of_not_passed (hpassed : Clock.passed deadline tl.now = false) :
    watched accept deadline taken tl = Routine.await (watch accept deadline) deadline taken
      { tl with world := tl.world.note (.waitStarted updates) } := by
  show (if Clock.passed deadline tl.now then _ else _ : HostRoutine (Bool × Bool)) tl = _
  rw [hpassed, if_neg Bool.false_ne_true]
  rfl

theorem watched_of_passed (hpassed : Clock.passed deadline tl.now = true) :
    watched accept deadline taken tl = .ok (taken, false) tl := by
  show (if Clock.passed deadline tl.now then _ else _ : HostRoutine (Bool × Bool)) tl = _
  rw [hpassed, if_pos rfl]
  rfl

theorem look_watch_of_not_has (hnot : ¬ h.mailbox.pending.Has .statusUpdated) (now : Nat)
    (taken : Bool) : (watch accept deadline).look now taken h = (.pending taken, h) := by
  rw [look_watch, if_neg hnot, take_updates_of_not_has hnot]

/-- An update has been taken, and nothing is due: a look finds nothing new. -/
theorem watched_settled (hgone : ¬ tl.world.mailbox.pending.Has .statusUpdated)
    (hlater : ∀ b ∈ tl.agenda, tl.now < b.time)
    (hpassed : Clock.passed deadline tl.now = false) :
    watched accept deadline taken tl = Routine.follow (watch accept deadline)
      (Clock.ring? deadline) tl.horizon tl.agenda tl.now taken
      (tl.world.note (.waitStarted updates)) := by
  rw [watched_of_not_passed hpassed]
  have hnoted : ¬ (tl.world.note (.waitStarted updates)).mailbox.pending.Has .statusUpdated := hgone
  exact Routine.await_settled (look_watch_of_not_has hnoted _ _) hlater
    (Clock.ring?_not_passed hpassed)

/-- What follows an update that was taken with nothing due: the wait is over, or goes on over the
rest of the agenda. -/
theorem afterUpdate_updates (hgone : ¬ tl.world.mailbox.pending.Has .statusUpdated)
    (hlater : ∀ b ∈ tl.agenda, tl.now < b.time) :
    afterUpdate accept deadline taken updates tl
      = if accept tl.world.status then .ok (true, true) tl
        else if Clock.passed deadline tl.now then .ok (true, false) tl
        else Routine.follow (watch accept deadline) (Clock.ring? deadline) tl.horizon tl.agenda
          tl.now true (tl.world.note (.waitStarted updates)) := by
  have hsome : updates ≠ EventSet.empty := EventSet.single_ne_empty _
  unfold afterUpdate
  rw [if_neg hsome]
  show (if accept tl.world.status then _ else _ : HostRoutine (Bool × Bool)) tl = _
  split
  · rfl
  · split
    · exact watched_of_passed (by assumption)
    · exact watched_settled hgone hlater (Bool.eq_false_iff.mpr (by assumption))

/-- At its deadline a watch ends as a wait for an update does. -/
theorem ringAt_watch (t : Nat) (tl : Timeline Action Host) :
    Routine.ringAt (watch accept deadline) t taken tl
      = Routine.resume (afterUpdate accept deadline taken)
          (Routine.ringAt (port.gather updates) t EventSet.empty tl) := by
  unfold Routine.ringAt
  split <;> rfl

/-- The batches that a watch follows.  Up to the first that brings an update, it is a wait for that
update. -/
theorem follow_watch (hg : g.Ordered) :
    Routine.follow (watch accept deadline) (Clock.ring? deadline) horizon g now taken h
      = Routine.resume (afterUpdate accept deadline taken)
          (Routine.follow (port.gather updates) (Clock.ring? deadline) horizon g now
            EventSet.empty h) := by
  induction g generalizing now h with
  | nil =>
    unfold Routine.follow
    cases Clock.ring? deadline with
    | none => rfl
    | some t => exact ringAt_watch t _
  | cons b rest ih =>
    obtain ⟨hb, hrest⟩ := Agenda.ordered_cons.mp hg
    unfold Routine.follow
    cases hr : (Clock.ring? deadline).filter (· < b.time) with
    | some t => exact ringAt_watch t _
    | none =>
      dsimp only
      split
      · rw [look_watch, look_gather]
        have hgone := not_has_take_updates (fire b.time b.actions h)
        generalize (port.take updates (fire b.time b.actions h)).2 = h₁ at hgone
        by_cases hhas : (fire b.time b.actions h).mailbox.pending.Has .statusUpdated
        · rw [if_pos hhas, if_pos hhas]
          dsimp only
          have hafter : Routine.resume (afterUpdate accept deadline taken)
              (.ok updates ⟨b.time, horizon, rest, h₁⟩) = _ := afterUpdate_updates hgone hb
          rw [hafter]
          dsimp only
          by_cases haccept : accept h₁.status = true
          · rw [if_pos haccept, if_pos haccept]
          by_cases hpassed : Clock.passed deadline b.time = true
          · rw [if_neg haccept, if_neg haccept, if_pos hpassed, if_pos hpassed]
          -- the watch goes on, as it would afresh
          have hring : Clock.ring? deadline ≠ some b.time := by
            intro hring
            exact hpassed (Clock.passed_iff.mpr
              ⟨b.time, (Clock.ring?_eq_some_iff.mp hring).1, Nat.le_refl _⟩)
          rw [if_neg haccept, if_neg haccept, if_neg hpassed, if_neg hpassed]
          dsimp only
          rw [if_neg hring]
        · rw [if_neg hhas, if_neg hhas]
          dsimp only
          split
          · exact ringAt_watch b.time _
          · exact ih hrest
      · rfl

/-- An update is there when the watch begins: it goes on as it would afresh. -/
theorem await_watch_of_has (hhas : tl.world.mailbox.pending.Has .statusUpdated) :
    Routine.await (watch accept deadline) deadline taken tl
      = afterUpdate accept deadline taken updates
          { tl with world := (port.take updates tl.world).2 } := by
  have hgone := not_has_take_updates tl.world
  have hsome : updates ≠ EventSet.empty := EventSet.single_ne_empty _
  unfold afterUpdate
  rw [if_neg hsome]
  show _ = (if accept (port.take updates tl.world).2.status then _ else _ :
    HostRoutine (Bool × Bool)) _
  unfold Routine.await
  rw [look_watch, if_pos hhas]
  generalize (port.take updates tl.world).2 = h₁ at hgone
  by_cases haccept : accept h₁.status = true
  · rw [if_pos haccept, if_pos haccept]
    rfl
  by_cases hpassed : Clock.passed deadline tl.now = true
  · have hfresh : watched accept deadline true { tl with world := h₁ } = _ :=
      watched_of_passed hpassed
    rw [if_neg haccept, if_neg haccept, if_pos hpassed, hfresh]
  · have hnoted : ¬ (h₁.note (.waitStarted updates)).mailbox.pending.Has .statusUpdated := hgone
    have hfresh : watched accept deadline true { tl with world := h₁ } = _ :=
      watched_of_not_passed (Bool.eq_false_iff.mpr hpassed)
    rw [if_neg haccept, if_neg haccept, if_neg hpassed, hfresh]
    unfold Routine.await
    rw [look_watch_of_not_has hnoted]

/-- **A watch is one wait for an update**, and what follows it. -/
theorem await_watch (hord : tl.agenda.Ordered) :
    Routine.await (watch accept deadline) deadline taken tl
      = (Routine.await (port.gather updates) deadline EventSet.empty >>=
          afterUpdate accept deadline taken : HostRoutine (Bool × Bool)) tl := by
  rw [Routine.bind_eq_resume]
  by_cases hhas : tl.world.mailbox.pending.Has .statusUpdated
  · have hlook : (port.gather updates).look tl.now EventSet.empty tl.world
        = (.done updates, (port.take updates tl.world).2) := by
      rw [look_gather, if_pos hhas]
    rw [await_watch_of_has hhas, Routine.await_of_done _ _ _ _ hlook]
    rfl
  · have hlater : ∀ b ∈ tl.agenda.later tl.now, tl.now < b.time :=
      fun b hb => Agenda.lt_of_mem_later hord hb
    unfold Routine.await
    rw [look_watch_of_not_has hhas, look_gather, if_neg hhas, take_updates_of_not_has hhas]
    dsimp only [Timeline.settle]
    rw [look_watch, look_gather]
    generalize fire tl.now (tl.agenda.due tl.now) tl.world = h₁
    have hgone := not_has_take_updates h₁
    generalize (port.take updates h₁).2 = h₂ at hgone
    by_cases hdue : h₁.mailbox.pending.Has .statusUpdated
    · rw [if_pos hdue, if_pos hdue]
      dsimp only
      have hafter : Routine.resume (afterUpdate accept deadline taken)
          (.ok updates ⟨tl.now, tl.horizon, tl.agenda.later tl.now, h₂⟩) = _ :=
        afterUpdate_updates hgone hlater
      rw [hafter]
      dsimp only
      by_cases haccept : accept h₂.status = true
      · rw [if_pos haccept, if_pos haccept]
      by_cases hpassed : Clock.passed deadline tl.now = true
      · rw [if_neg haccept, if_neg haccept, if_pos hpassed, if_pos hpassed]
      have hring := Clock.ring?_not_passed (Bool.eq_false_iff.mpr hpassed)
      rw [if_neg haccept, if_neg haccept, if_neg hpassed, if_neg hpassed]
      dsimp only
      rw [hring, if_neg Bool.false_ne_true]
    · rw [if_neg hdue, if_neg hdue]
      dsimp only
      split
      · exact ringAt_watch tl.now _
      · exact follow_watch (Agenda.later_ordered _ hord)

/-- **One round.**  While there is time, a watch is one wait for an update, for the time that is
left, and what follows it. -/
theorem watched_of_remaining (hord : tl.agenda.Ordered) {left : Nat}
    (hleft : Clock.remaining? deadline tl.now = some left) :
    watched accept deadline taken tl
      = Routine.resume (afterUpdate accept deadline taken) (awaitAll updates left tl) := by
  have hnot : Clock.passed deadline tl.now = false := by
    apply Bool.eq_false_iff.mpr
    intro hpassed
    rw [Clock.remaining?_eq_none_iff.mpr hpassed] at hleft
    cases hleft
  have hwait : (awaitAll updates left : HostRoutine EventSet) tl
      = Routine.await (port.gather updates) deadline EventSet.empty
          { tl with world := tl.world.note (.waitStarted updates) } :=
    (port.awaitAll_apply updates left tl).trans
      (Routine.await_of_ring?_eq _ _ _ (Clock.ring?_of_remaining? hleft))
  have hwatch : Routine.await (watch accept deadline) deadline taken
      { tl with world := tl.world.note (.waitStarted updates) } = _ := await_watch hord
  rw [watched_of_not_passed hnot, hwatch, Routine.bind_eq_resume, hwait]

/-- How often a wait for an update can still be over by an update. -/
def roundsLeft (tl : Timeline Action Host) : Nat :=
  tl.agenda.length + if tl.world.mailbox.pending.Has .statusUpdated then 1 else 0

/-- An update comes from the mailbox or from the agenda. -/
theorem gather_over (deadline : Option Nat) (tl : Timeline Action Host) :
    Routine.Over (fun past got h => got ≠ EventSet.empty →
        ¬ h.mailbox.pending.Has .statusUpdated ∧
          (past = [] → tl.world.mailbox.pending.Has .statusUpdated))
      (fun _ seen h => seen = EventSet.empty ∧ ¬ h.mailbox.pending.Has .statusUpdated) tl.agenda []
      (Routine.await (port.gather updates) deadline EventSet.empty tl) := by
  refine Routine.await_over
    (I := fun past seen h => seen = EventSet.empty ∧ (past = [] →
      h.mailbox.pending.Has .statusUpdated → tl.world.mailbox.pending.Has .statusUpdated))
    ?_ ?_ ?_ ⟨rfl, fun _ => id⟩
  · intro past t seen h hi
    obtain ⟨rfl, hhere⟩ := hi
    rw [look_gather]
    split
    · rename_i hhas
      exact fun _ => ⟨not_has_take_updates h, fun hpast => hhere hpast hhas⟩
    · exact ⟨rfl, not_has_take_updates h⟩
  · intro past seen h t as hj
    obtain ⟨rfl, hgone⟩ := hj
    refine ⟨rfl, fun hnone hhas => ?_⟩
    obtain ⟨_, rfl⟩ := List.append_eq_nil_iff.mp hnone
    exact absurd hhas hgone
  · intro past seen h hj hsome
    obtain ⟨rfl, _⟩ := hj
    exact absurd rfl hsome

/-- Whatever was seen before, a look that ends a wait for an update has it. -/
theorem look_gather_done {t : Nat} {seen got : EventSet} {h' : Host}
    (hlook : (port.gather updates).look t seen h = (.done got, h')) : got = updates := by
  change (if (seen ||| (port.take updates h).1).Covers updates then
      (Look.done (updates &&& (seen ||| (port.take updates h).1)), (port.take updates h).2)
    else _) = _ at hlook
  split at hlook
  · rename_i hcovers
    cases hlook
    rw [BitVec.and_comm]
    exact hcovers
  · cases hlook

/-- A wait for an update ends at its deadline, or it takes an update, and then there is a round
less. -/
theorem awaitAll_updates_ok {left : Nat} {got : EventSet} (hord : tl.agenda.Ordered)
    (hreturn : awaitAll updates left tl = .ok got tl') :
    tl'.agenda.Ordered ∧
      (got = EventSet.empty → Clock.passed (Clock.ring? (Clock.after? tl.now left)) tl'.now = true) ∧
      (got ≠ EventSet.empty → roundsLeft tl' < roundsLeft tl) := by
  have hwait : Routine.await (port.gather updates) (Clock.after? tl.now left) EventSet.empty
      { tl with world := tl.world.note (.waitStarted updates) } = .ok got tl' := hreturn
  have hkept : (Routine.await (port.gather updates) (Clock.after? tl.now left)
      EventSet.empty).Ends { tl with world := tl.world.note (.waitStarted updates) } _ _ :=
    Routine.await_ordered _ _ _ hord
  refine ⟨hkept.of_ok hwait, ?_, ?_⟩
  · intro hnone
    rcases Routine.await_returned hwait with ⟨t, seen, h, hlook⟩ | ⟨hpassed, _⟩
    · have hgot := look_gather_done hlook
      rw [hnone] at hgot
      exact absurd hgot.symm (EventSet.single_ne_empty _)
    · exact hpassed
  · intro hsome
    have hover := gather_over (Clock.after? tl.now left)
      { tl with world := tl.world.note (.waitStarted updates) }
    rw [hwait] at hover
    obtain ⟨passed, hg, hgot⟩ := hover
    obtain ⟨hgone, hhere⟩ := hgot hsome
    have hlength : tl.agenda.length = passed.length + tl'.agenda.length := by
      rw [← List.length_append]
      exact congrArg List.length hg
    unfold roundsLeft
    rw [if_neg hgone]
    by_cases hpassed : passed = []
    · have hhas : tl.world.mailbox.pending.Has .statusUpdated := hhere (by rw [hpassed]; rfl)
      rw [if_pos hhas]
      omega
    · have hpos := List.length_pos_iff.mpr hpassed
      omega

end HostRoutine

/-! ## the loops -/

namespace HostRoutine

/-- The loop of a wait for a report, for so many rounds: whether an update was taken, and whether it
was accepted. -/
def reportRounds (accept : RadioStatus → Bool) (deadline : Option Nat) :
    Nat → Bool → HostRoutine (Bool × Bool)
  | 0, _ => Routine.halt .unfinished
  | rounds + 1, taken => do
    match Clock.remaining? deadline (← Routine.now) with
    | none => return (taken, false)
    | some left =>
      let got ← awaitAll updates left
      if got = EventSet.empty then reportRounds accept deadline rounds taken
      else if accept (← status) then return (true, true)
      else reportRounds accept deadline rounds true

def reportLoop (accept : RadioStatus → Bool) (timeout rounds : Nat) : HostRoutine Bool := do
  let deadline := Clock.after? (← Routine.now) timeout
  let (taken, accepted) ← reportRounds accept deadline rounds false
  if taken then putBack updates
  return accepted

/-- The loop of a wait for a status, for so many rounds: whether an update was taken. -/
def statusRounds (accept : RadioStatus → Bool) (deadline : Option Nat) :
    Nat → Bool → HostRoutine Bool
  | 0, _ => Routine.halt .unfinished
  | rounds + 1, taken => do
    if accept (← status) then return taken
    match Clock.remaining? deadline (← Routine.now) with
    | none => return taken
    | some left =>
      let got ← awaitAll updates left
      statusRounds accept deadline rounds (taken || decide (got ≠ EventSet.empty))

def statusLoop (accept : RadioStatus → Bool) (timeout rounds : Nat) : HostRoutine Bool := do
  let deadline := Clock.after? (← Routine.now) timeout
  let taken ← statusRounds accept deadline rounds false
  if taken then putBack updates
  return accept (← status)

variable {accept : RadioStatus → Bool} {deadline : Option Nat} {rounds timeout left : Nat}
  {taken : Bool} {got : EventSet} {tl tl' : Timeline Action Host}

theorem afterUpdate_empty : afterUpdate accept deadline taken EventSet.empty tl
    = .ok (taken, false) tl := rfl

theorem afterUpdate_some (hsome : got ≠ EventSet.empty) :
    afterUpdate accept deadline taken got tl
      = if accept tl.world.status then .ok (true, true) tl
        else watched accept deadline true tl := by
  unfold afterUpdate
  rw [if_neg hsome]
  show (if accept tl.world.status then _ else _ : HostRoutine (Bool × Bool)) tl = _
  split <;> rfl

/-- When no time is left, one more round of the loop ends it. -/
theorem reportRounds_of_passed (hrounds : 0 < rounds)
    (hpassed : Clock.passed deadline tl.now = true) :
    reportRounds accept deadline rounds taken tl = .ok (taken, false) tl := by
  obtain ⟨more, rfl⟩ := Nat.exists_eq_add_of_lt hrounds
  rw [Nat.zero_add]
  show (match Clock.remaining? deadline tl.now with
    | none => _
    | some left => _ : HostRoutine (Bool × Bool)) tl = _
  rw [Clock.remaining?_eq_none_iff.mpr hpassed]
  rfl

/-- One round of the loop for a report. -/
theorem reportRounds_succ (hleft : Clock.remaining? deadline tl.now = some left) :
    reportRounds accept deadline (rounds + 1) taken tl = Routine.resume (fun got tl' =>
        if got = EventSet.empty then reportRounds accept deadline rounds taken tl'
        else if accept tl'.world.status then .ok (true, true) tl'
        else reportRounds accept deadline rounds true tl') (awaitAll updates left tl) := by
  show (match Clock.remaining? deadline tl.now with
    | none => _
    | some left => _ : HostRoutine (Bool × Bool)) tl = _
  rw [hleft]
  refine (Routine.bind_eq_resume _ _ tl).trans ?_
  congr 1
  funext got tl'
  by_cases hnone : got = EventSet.empty
  · rw [if_pos hnone, if_pos hnone]
  · rw [if_neg hnone, if_neg hnone]
    show (if accept tl'.world.status then _ else _ : HostRoutine (Bool × Bool)) tl' = _
    split <;> rfl

/-- Induction on the rounds: with one for each update to come and two more, the loop is a watch. -/
theorem reportRounds_eq (hord : tl.agenda.Ordered) (hrounds : roundsLeft tl + 2 ≤ rounds) :
    reportRounds accept deadline rounds taken tl = watched accept deadline taken tl := by
  induction rounds generalizing taken tl with
  | zero => omega
  | succ rounds ih =>
    cases hleft : Clock.remaining? deadline tl.now with
    | none =>
      have hpassed := Clock.remaining?_eq_none_iff.mp hleft
      rw [reportRounds_of_passed (Nat.succ_pos _) hpassed, watched_of_passed hpassed]
    | some left =>
      rw [reportRounds_succ hleft, watched_of_remaining hord hleft]
      cases hwait : awaitAll updates left tl with
      | error e tl' => rfl
      | ok got tl' =>
        obtain ⟨hord', hrang, hless⟩ := awaitAll_updates_ok hord hwait
        unfold Routine.resume
        dsimp only
        by_cases hnone : got = EventSet.empty
        · have hpassed : Clock.passed deadline tl'.now = true := by
            have hring := hrang hnone
            rw [Clock.ring?_of_remaining? hleft] at hring
            exact Clock.passed_of_ring? hring
          rw [if_pos hnone, hnone, reportRounds_of_passed (by omega) hpassed, afterUpdate_empty]
        · have hfewer := hless hnone
          rw [if_neg hnone, afterUpdate_some hnone, ih hord' (by omega)]

theorem statusRounds_of_accepted (hrounds : 0 < rounds) (haccept : accept tl.world.status = true) :
    statusRounds accept deadline rounds taken tl = .ok taken tl := by
  obtain ⟨more, rfl⟩ := Nat.exists_eq_add_of_lt hrounds
  rw [Nat.zero_add]
  show (if accept tl.world.status then _ else _ : HostRoutine Bool) tl = _
  rw [haccept, if_pos rfl]
  rfl

theorem statusRounds_of_passed (hrounds : 0 < rounds)
    (hpassed : Clock.passed deadline tl.now = true) :
    statusRounds accept deadline rounds taken tl = .ok taken tl := by
  by_cases haccept : accept tl.world.status = true
  · exact statusRounds_of_accepted hrounds haccept
  · obtain ⟨more, rfl⟩ := Nat.exists_eq_add_of_lt hrounds
    rw [Nat.zero_add]
    show (if accept tl.world.status then _ else _ : HostRoutine Bool) tl = _
    rw [if_neg haccept]
    show (match Clock.remaining? deadline tl.now with
      | none => _
      | some left => _ : HostRoutine Bool) tl = _
    rw [Clock.remaining?_eq_none_iff.mpr hpassed]
    rfl

/-- One round of the loop for a status. -/
theorem statusRounds_succ (hreject : accept tl.world.status = false)
    (hleft : Clock.remaining? deadline tl.now = some left) :
    statusRounds accept deadline (rounds + 1) taken tl = Routine.resume (fun got =>
        statusRounds accept deadline rounds (taken || decide (got ≠ EventSet.empty)))
      (awaitAll updates left tl) := by
  show (if accept tl.world.status then _ else _ : HostRoutine Bool) tl = _
  rw [hreject, if_neg Bool.false_ne_true]
  show (match Clock.remaining? deadline tl.now with
    | none => _
    | some left => _ : HostRoutine Bool) tl = _
  rw [hleft]
  exact Routine.bind_eq_resume _ _ tl

/-- Induction on the rounds: a loop that looks at the status first, where it is not accepted, is a
watch too. -/
theorem statusRounds_eq (hord : tl.agenda.Ordered) (hreject : accept tl.world.status = false)
    (hrounds : roundsLeft tl + 2 ≤ rounds) :
    statusRounds accept deadline rounds taken tl
      = Routine.resume (fun v => pure v.1) (watched accept deadline taken tl) := by
  induction rounds generalizing taken tl with
  | zero => omega
  | succ rounds ih =>
    cases hleft : Clock.remaining? deadline tl.now with
    | none =>
      have hpassed := Clock.remaining?_eq_none_iff.mp hleft
      rw [statusRounds_of_passed (Nat.succ_pos _) hpassed, watched_of_passed hpassed]
      rfl
    | some left =>
      rw [statusRounds_succ hreject hleft, watched_of_remaining hord hleft]
      cases hwait : awaitAll updates left tl with
      | error e tl' => rfl
      | ok got tl' =>
        obtain ⟨hord', hrang, hless⟩ := awaitAll_updates_ok hord hwait
        by_cases hnone : got = EventSet.empty
        · have hpassed : Clock.passed deadline tl'.now = true := by
            have hring := hrang hnone
            rw [Clock.ring?_of_remaining? hleft] at hring
            exact Clock.passed_of_ring? hring
          have hover : statusRounds accept deadline rounds taken tl' = .ok taken tl' :=
            statusRounds_of_passed (by omega) hpassed
          unfold Routine.resume
          dsimp only
          rw [hnone, afterUpdate_empty, decide_eq_false (fun h => h rfl), Bool.or_false, hover]
          rfl
        · have hfewer := hless hnone
          unfold Routine.resume
          dsimp only
          rw [afterUpdate_some hnone, decide_eq_true hnone, Bool.or_true]
          by_cases haccept : accept tl'.world.status = true
          · rw [if_pos haccept, statusRounds_of_accepted (by omega) haccept]
            rfl
          · rw [if_neg haccept, ih hord' (Bool.eq_false_iff.mpr haccept) (by omega)]
            rfl

/-- What a wait for a report does with what its watch found. -/
def handBack (v : Bool × Bool) : HostRoutine Bool := do
  if v.1 then putBack updates
  return v.2

theorem awaitReport_eq_watched (accept : RadioStatus → Bool) (timeout : Nat)
    (tl : Timeline Action Host) : awaitReport accept timeout tl
      = Routine.resume handBack (watched accept (Clock.after? tl.now timeout) false tl) := by
  show (if Clock.passed (Clock.after? tl.now timeout) tl.now then _ else _ : HostRoutine Bool) tl = _
  by_cases hpassed : Clock.passed (Clock.after? tl.now timeout) tl.now = true
  · rw [if_pos hpassed, watched_of_passed hpassed]
    rfl
  · rw [if_neg hpassed, watched_of_not_passed (Bool.eq_false_iff.mpr hpassed)]
    exact Routine.bind_eq_resume (Routine.await _ _ false) handBack _

theorem roundsLeft_le (tl : Timeline Action Host) : roundsLeft tl ≤ tl.agenda.length + 1 := by
  unfold roundsLeft
  split <;> omega

/-- **The loop for a report**, with enough rounds, is the wait for a report. -/
theorem awaitReport_eq_reportLoop (accept : RadioStatus → Bool) (timeout : Nat)
    (hord : tl.agenda.Ordered) (hrounds : tl.agenda.length + 3 ≤ rounds) :
    awaitReport accept timeout tl = reportLoop accept timeout rounds tl := by
  have henough := roundsLeft_le tl
  have hloop : reportLoop accept timeout rounds tl = Routine.resume handBack
      (reportRounds accept (Clock.after? tl.now timeout) rounds false tl) :=
    Routine.bind_eq_resume (reportRounds _ _ rounds false) handBack tl
  rw [hloop, reportRounds_eq hord (by omega), awaitReport_eq_watched]

/-- **The loop for a status**, with enough rounds, is the wait for a status. -/
theorem awaitStatus_eq_statusLoop (accept : RadioStatus → Bool) (timeout : Nat)
    (hord : tl.agenda.Ordered) (hrounds : tl.agenda.length + 3 ≤ rounds) :
    awaitStatus accept timeout tl = statusLoop accept timeout rounds tl := by
  have henough := roundsLeft_le tl
  have hloop : statusLoop accept timeout rounds tl = Routine.resume (fun taken => do
        if taken then putBack updates
        return accept (← status))
      (statusRounds accept (Clock.after? tl.now timeout) rounds false tl) :=
    Routine.bind_eq_resume (statusRounds _ _ rounds false) _ tl
  rw [hloop]
  show (if accept tl.world.status then _ else _ : HostRoutine Bool) tl = _
  by_cases haccept : accept tl.world.status = true
  · rw [if_pos haccept, statusRounds_of_accepted (by omega) haccept]
    show _ = EStateM.Result.ok (accept tl.world.status) tl
    rw [haccept]
    rfl
  · rw [if_neg haccept, statusRounds_eq hord (Bool.eq_false_iff.mpr haccept) (by omega)]
    have hreport : awaitReport accept timeout tl = _ := awaitReport_eq_watched accept timeout tl
    refine (Routine.bind_eq_resume _ _ tl).trans ?_
    rw [hreport]
    cases watched accept (Clock.after? tl.now timeout) false tl with
    | error e tl' => rfl
    | ok v tl' =>
      obtain ⟨taken, accepted⟩ := v
      cases taken <;> rfl

end HostRoutine

end Uplink
