import Uplink.Proofs.Overflow
import Uplink.Proofs.StatusLoops
import Uplink.Proofs.Unattended

/-!
# Time bounds

A wait with a deadline that rings is over when it rings, or before.  Whatever happens meanwhile, and
however often it makes the wait look, does not move the deadline.  So a routine that is made of such
waits takes no longer than they are allowed together.

* `Timeline.Room`             neither the clock nor the horizon ends within so many ticks;
* `Timeline.Elapsed`          at most so many ticks went by;
* `Routine.InTime`            a routine that returns within so many ticks;
* `Routine.await_by`          a wait returns by its deadline;
* `inTime_ask`, `inTime_awaitAny`, `inTime_awaitReport`  requests, and the waits of a consumer;
* `reportLoop_in_time`        the wait for a report, written as a loop.
-/

namespace Uplink

/-! ## ticks -/

namespace Timeline

variable {α σ : Type} {tl tl₁ tl' : Timeline α σ} {a b : Nat}

/-- Neither the clock nor the horizon ends within so many ticks. -/
structure Room (tl : Timeline α σ) (ticks : Nat) : Prop where
  clock : tl.now + ticks < Clock.lastTick
  horizon : Routine.mayReach tl.horizon (tl.now + ticks) = true

/-- From `tl` to `tl'` at most so many ticks went by. -/
structure Elapsed (tl : Timeline α σ) (ticks : Nat) (tl' : Timeline α σ) : Prop where
  now_le : tl'.now ≤ tl.now + ticks
  horizon_eq : tl'.horizon = tl.horizon

theorem Room.of_le (h : tl.Room b) (hle : a ≤ b) : tl.Room a :=
  ⟨Nat.lt_of_le_of_lt (Nat.add_le_add_left hle _) h.clock,
    Routine.mayReach_of_le h.horizon (Nat.add_le_add_left hle _)⟩

/-- What was not used of the room is still there. -/
theorem Room.after (h : tl.Room (a + b)) (he : tl.Elapsed a tl₁) : tl₁.Room b := by
  have hclock := h.clock
  have hnow := he.now_le
  refine ⟨by omega, ?_⟩
  rw [he.horizon_eq]
  exact Routine.mayReach_of_le h.horizon (by omega)

theorem Room.before (h : tl.Room (a + b)) : tl.Room a := h.of_le (Nat.le_add_right a b)

theorem Elapsed.of_le (h : tl.Elapsed a tl') (hle : a ≤ b) : tl.Elapsed b tl' :=
  ⟨Nat.le_trans h.now_le (Nat.add_le_add_left hle _), h.horizon_eq⟩

theorem Elapsed.trans (h : tl.Elapsed a tl₁) (h' : tl₁.Elapsed b tl') :
    tl.Elapsed (a + b) tl' := by
  have hnow := h.now_le
  have hnow' := h'.now_le
  exact ⟨by omega, h'.horizon_eq.trans h.horizon_eq⟩

end Timeline

namespace Routine

variable {α σ ρ β γ : Type} {x : Routine α σ β} {f : β → Routine α σ γ} {tl : Timeline α σ}
  {a b ticks : Nat}

/-! ## routines -/

/-- The routine returns within so many ticks wherever there is room for them. -/
def InTime (x : Routine α σ β) (ticks : Nat) : Prop :=
  ∀ ⦃tl⦄, tl.Room ticks → x.Ends tl (fun _ tl' => tl.Elapsed ticks tl') fun _ => False

theorem inTime_act (f : Nat → σ → β × σ) : (act f : Routine α σ β).InTime 0 :=
  fun _ _ => ends_act ⟨Nat.le_refl _, rfl⟩

theorem inTime_change (f : σ → σ) : (change f : Routine α σ Unit).InTime 0 :=
  inTime_act fun _ s => ((), f s)

theorem inTime_world : (world : Routine α σ σ).InTime 0 := inTime_act fun _ s => (s, s)

theorem InTime.of_le (hx : x.InTime a) (hle : a ≤ b) : x.InTime b :=
  fun _ hroom => (hx (hroom.of_le hle)).imp (fun _ _ h => h.of_le hle) fun _ h => h

/-- What takes no time may take some. -/
theorem inTime_pure (b : β) (ticks : Nat) : (pure b : Routine α σ β).InTime ticks :=
  InTime.of_le (a := 0) (fun _ _ => ends_pure ⟨Nat.le_refl _, rfl⟩) (Nat.zero_le _)

/-- Of two routines in a row, the second has the room that the first one leaves. -/
theorem InTime.bind (hx : x.InTime a) (hf : ∀ v, (f v).InTime b) : (x >>= f).InTime (a + b) := by
  intro tl hroom
  refine ends_bind.mpr ((hx hroom.before).imp ?_ fun _ h => h)
  intro v tl₁ he
  exact (hf v (hroom.after he)).imp (fun _ _ he' => he.trans he') fun _ h => h

theorem InTime.then (hx : x.InTime 0) (hf : ∀ v, (f v).InTime ticks) :
    (x >>= f).InTime ticks := by
  have h := hx.bind hf
  rw [Nat.zero_add] at h
  exact h

/-! ## waits -/

variable [Reactive α σ] {w : Wait σ ρ β} {r : ρ} {s : σ} {d now t : Nat}
  {deadline horizon : Option Nat}

/-- The end of a wait at the instant `d` or before. -/
def EndedBy (d : Nat) (horizon : Option Nat) :
    EStateM.Result Halt (Timeline α σ) β → Prop :=
  Ended (fun _ tl' => tl'.now ≤ d ∧ tl'.horizon = horizon) fun _ => False

omit [Reactive α σ] in
theorem ringAt_by (hreach : mayReach tl.horizon t = true) (hle : t ≤ d) :
    EndedBy d tl.horizon (ringAt w t r tl) := by
  unfold ringAt
  rw [if_pos hreach]
  exact ⟨hle, rfl⟩

/-- Induction on the agenda.  The next batch is later than the deadline, which then rings, or it
happens in time and leaves the deadline as it is. -/
theorem follow_by (hreach : mayReach horizon d = true) (g : Agenda α) :
    EndedBy d horizon (follow w (some d) horizon g now r s) := by
  induction g generalizing now r s with
  | nil => exact ringAt_by hreach (Nat.le_refl d)
  | cons b rest ih =>
    rw [follow]
    cases hring : (some d).filter (· < b.time) with
    | some t =>
      obtain ⟨⟨⟩, _⟩ := Option.filter_eq_some_iff.mp hring
      exact ringAt_by hreach (Nat.le_refl d)
    | none =>
      have hle : b.time ≤ d :=
        Nat.le_of_not_lt fun hlt => Option.filter_eq_none_iff.mp hring d rfl (decide_eq_true hlt)
      have hreach' := mayReach_of_le hreach hle
      dsimp only
      rw [if_pos hreach']
      rcases w.look b.time r (fire b.time b.actions s) with ⟨v | r', s'⟩
      · exact ⟨hle, rfl⟩
      · dsimp only
        split
        · exact ringAt_by hreach' hle
        · exact ih

/-- **A wait returns by its deadline**, whatever it waits for and whatever happens. -/
theorem await_by (hring : Clock.ring? deadline = some d) (hnow : tl.now ≤ d)
    (hreach : mayReach tl.horizon d = true) :
    EndedBy d tl.horizon (await w deadline r tl) := by
  unfold await
  rcases w.look tl.now r tl.world with ⟨v | r₁, s₁⟩
  · exact ⟨hnow, rfl⟩
  dsimp only
  rcases w.look _ r₁ _ with ⟨v | r₂, s₂⟩
  · exact ⟨hnow, rfl⟩
  dsimp only
  rw [hring]
  split
  · exact ringAt_by (mayReach_of_le hreach hnow) hnow
  · exact follow_by hreach _

theorem await_in_time (w : Wait σ ρ β) (r : ρ) (hroom : tl.Room ticks) :
    (await w (Clock.after? tl.now ticks) r).Ends tl (fun _ tl' => tl.Elapsed ticks tl')
      fun _ => False :=
  (await_by (Clock.ring?_after? hroom.clock) (Nat.le_add_right _ _) hroom.horizon).imp
    (fun _ _ h => ⟨h.1, h.2⟩) fun _ h => h

theorem inTime_sleep (ticks : Nat) : (sleep ticks : Routine α σ Unit).InTime ticks := by
  intro tl hroom
  have hshown : Clock.after? tl.now ticks = some (tl.now + ticks) :=
    Clock.after?_eq_some_iff.mpr ⟨rfl, Nat.le_of_lt hroom.clock⟩
  have hwait := await_in_time timer () hroom
  rw [hshown] at hwait
  unfold Ends sleep
  rw [hshown]
  exact hwait

end Routine

/-! ## requests and the waits of a consumer -/

namespace HostRoutine

open Routine

theorem inTime_note (e : LogEntry) : (note e).InTime 0 := inTime_change _

theorem inTime_status : status.InTime 0 := inTime_act fun _ h => (h.status, h)

theorem inTime_putBack (events : EventSet) : (putBack events).InTime 0 := inTime_change _

/-- A request returns in the time it allows, whatever time the response takes. -/
theorem inTime_ask {β : Type} (request : Request)
    (draw : Coprocessor → Response β × Coprocessor) (timeout : Nat) :
    (ask request draw timeout).InTime timeout := by
  unfold ask
  refine (inTime_act _).then fun response => (inTime_change _).then fun _ => ?_
  have hlate : Routine.InTime (do
      Routine.change (·.reportCodes response.late)
      return response.outcome : HostRoutine (Except TransportFault β)) 0 :=
    (inTime_change _).then fun _ => inTime_pure _ _
  split
  · exact (inTime_sleep timeout).bind fun _ => inTime_pure _ 0
  · rename_i hdelay
    split
    · refine ((inTime_sleep response.delay).bind fun _ => hlate).of_le ?_
      omega
    · exact hlate.of_le (Nat.zero_le _)

theorem inTime_awaitAny (target : EventSet) (timeout : Nat) :
    (awaitAny target timeout).InTime timeout :=
  fun _ hroom => await_in_time (Host.port.deliver target) () hroom

/-- A wait for any event that returns without one lasted as long as it was allowed. -/
theorem awaitAny_in_vain {target : EventSet} {timeout : Nat} {tl tl' : Timeline Action Host}
    (hroom : tl.Room timeout) (h : awaitAny target timeout tl = .ok EventSet.empty tl') :
    tl'.now = tl.now + timeout := by
  have hwait : Routine.await (Host.port.deliver target) (Clock.after? tl.now timeout) () tl
      = .ok EventSet.empty tl' := h
  have hle := ((inTime_awaitAny target timeout hroom).of_ok h).now_le
  rcases await_returned hwait with ⟨t, r, s, hlook⟩ | ⟨hpassed, _⟩
  · exact absurd rfl (look_deliver_done hlook)
  · rw [Clock.ring?_after? hroom.clock] at hpassed
    have hge : tl.now + timeout ≤ tl'.now := of_decide_eq_true hpassed
    exact Nat.le_antisymm hle hge

/-! ### reports -/

variable {accept : RadioStatus → Bool} {deadline : Option Nat} {d rounds timeout : Nat}
  {taken : Bool} {tl : Timeline Action Host}

theorem watched_by (hring : Clock.ring? deadline = some d) (hnow : tl.now ≤ d)
    (hreach : mayReach tl.horizon d = true) :
    EndedBy d tl.horizon (watched accept deadline taken tl) := by
  by_cases hpassed : Clock.passed deadline tl.now = true
  · rw [watched_of_passed hpassed]
    exact ⟨hnow, rfl⟩
  · let noted : Timeline Action Host :=
      { tl with world := tl.world.note (.waitStarted updates) }
    have hwait : EndedBy d noted.horizon (Routine.await (watch accept deadline) deadline taken
        noted) := await_by hring hnow hreach
    rw [watched_of_not_passed (Bool.eq_false_iff.mpr hpassed)]
    exact hwait

theorem inTime_handBack (v : Bool × Bool) : (handBack v).InTime 0 := by
  unfold handBack
  split
  · exact (inTime_putBack _).then fun _ => inTime_pure _ _
  · exact inTime_pure _ _

/-- A wait for a report returns in its time, however many updates it takes and puts back. -/
theorem inTime_awaitReport (accept : RadioStatus → Bool) (timeout : Nat) :
    (awaitReport accept timeout).InTime timeout := by
  intro tl hroom
  have hwatched : EndedBy (tl.now + timeout) tl.horizon
      (watched accept (Clock.after? tl.now timeout) false tl) :=
    watched_by (Clock.ring?_after? hroom.clock) (Nat.le_add_right _ _) hroom.horizon
  unfold Routine.Ends
  rw [awaitReport_eq_watched]
  cases hwait : watched accept (Clock.after? tl.now timeout) false tl with
  | error e tl' =>
    rw [hwait] at hwatched
    exact hwatched.elim
  | ok v tl' =>
    rw [hwait] at hwatched
    have he : tl.Elapsed timeout tl' := ⟨hwatched.1, hwatched.2⟩
    exact (inTime_handBack v (Timeline.Room.after hroom he)).imp (fun _ _ he' => he.trans he')
      fun _ h => h

/-- Induction on the rounds.  What is left of the time is worked out anew in each of them, from the
same deadline. -/
theorem reportRounds_by (hring : Clock.ring? deadline = some d) (hnow : tl.now ≤ d)
    (hreach : mayReach tl.horizon d = true) :
    (reportRounds accept deadline rounds taken).Ends tl (fun _ tl' => tl'.now ≤ d)
      fun tl' => tl'.now ≤ d := by
  induction rounds generalizing taken tl with
  | zero => exact hnow
  | succ rounds ih =>
    cases hleft : Clock.remaining? deadline tl.now with
    | none =>
      unfold Routine.Ends
      rw [reportRounds_of_passed (Nat.succ_pos _) (Clock.remaining?_eq_none_iff.mp hleft)]
      exact hnow
    | some left =>
      let noted : Timeline Action Host :=
        { tl with world := tl.world.note (.waitStarted updates) }
      have hwait : EndedBy d noted.horizon (awaitAll updates left tl) := by
        show EndedBy d noted.horizon (Routine.await _ (Clock.after? tl.now left) _ noted)
        exact await_by ((Clock.ring?_of_remaining? hleft).trans hring) hnow hreach
      unfold Routine.Ends
      rw [reportRounds_succ hleft]
      cases hgot : awaitAll updates left tl with
      | error e tl' =>
        rw [hgot] at hwait
        exact hwait.elim
      | ok got tl' =>
        rw [hgot] at hwait
        obtain ⟨hnow', hhorizon⟩ := hwait
        have hrest : ∀ taken, (reportRounds accept deadline rounds taken).Ends tl' _ _ :=
          fun _ => ih hnow' (hhorizon ▸ hreach)
        unfold Routine.resume
        dsimp only
        split
        · exact hrest taken
        · split
          · exact hnow'
          · exact hrest true

/-- **The loop for a report never passes its deadline**, be its rounds enough or not. -/
theorem reportLoop_in_time (accept : RadioStatus → Bool) (rounds : Nat)
    (hroom : tl.Room timeout) :
    (reportLoop accept timeout rounds).Ends tl (fun _ tl' => tl'.now ≤ tl.now + timeout)
      fun tl' => tl'.now ≤ tl.now + timeout := by
  have hrounds : (reportRounds accept (Clock.after? tl.now timeout) rounds false).Ends tl _ _ :=
    reportRounds_by (Clock.ring?_after? hroom.clock) (Nat.le_add_right _ _) hroom.horizon
  have hback : ∀ (v : Bool × Bool) {tl' : Timeline Action Host}, tl'.now ≤ tl.now + timeout →
      (handBack v).Ends tl' (fun _ tl'' => tl''.now ≤ tl.now + timeout)
        fun tl'' => tl''.now ≤ tl.now + timeout := by
    intro v tl' hnow
    unfold handBack
    split <;> exact hnow
  show Routine.Ends (reportRounds accept (Clock.after? tl.now timeout) rounds false >>= handBack)
    tl _ _
  exact ends_bind.mpr (hrounds.imp (fun v _ => hback v) fun _ h => h)

end HostRoutine

end Uplink
