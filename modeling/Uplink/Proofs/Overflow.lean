import Uplink.Proofs.Endless
import Uplink.Proofs.Rest

/-!
# Timers beyond the end of the clock

A wait whose deadline lies beyond the end of the clock goes on without it.  A timer that lies there
is an overflow instead, and the routine comes to a halt.

* `Routine.Overflows`               a routine sets a timer beyond the end of the clock;
* `Routine.Untimed`                 it never does;
* `Routine.overflows_bind`          of two routines in a row, either may overflow;
* `Routine.repeated_overflows_iff`  of several rounds, any that is come to;
* `HostRoutine.awaitReport_endless` a wait that no deadline ends;
* `HostRoutine.ask_overflows_iff`   a request overflows by the time of its response alone.
-/

namespace Uplink

/-! ## routines that overflow -/

namespace Routine

section
variable {α σ ρ β γ : Type} {x : Routine α σ β} {f : β → Routine α σ γ} {tl tl' : Timeline α σ}

/-- Started on `tl`, the routine sets a timer beyond the end of the clock; it leaves `tl'`. -/
def Overflows (x : Routine α σ β) (tl tl' : Timeline α σ) : Prop := x tl = .error .overflow tl'

/-- The routine sets no timer beyond the end of the clock. -/
def Untimed (x : Routine α σ β) : Prop := ∀ tl tl', ¬ x.Overflows tl tl'

theorem overflows_bind : (x >>= f).Overflows tl tl' ↔
    x.Overflows tl tl' ∨ ∃ b tl₁, x tl = .ok b tl₁ ∧ (f b).Overflows tl₁ tl' := by
  unfold Overflows
  rw [bind_apply]
  cases hx : x tl with
  | ok b tl₁ =>
    constructor
    · exact fun h => Or.inr ⟨b, tl₁, rfl, h⟩
    · rintro (h | ⟨_, _, heq, h⟩)
      · cases h
      · cases heq
        exact h
  | error e tl₁ =>
    constructor
    · intro h
      cases h
      exact Or.inl rfl
    · rintro (h | ⟨_, _, heq, _⟩)
      · cases h
        rfl
      · cases heq

/-- A part that may fail: what overflows after it depends on whether it did. -/
theorem overflows_bind_except {ε : Type} {x : Routine α σ (Except ε β)}
    {f : Except ε β → Routine α σ γ} {R : ε → Timeline α σ → Prop} {S : β → Timeline α σ → Prop}
    (herror : ∀ e tl₁, (f (.error e)).Overflows tl₁ tl' ↔ R e tl₁)
    (hok : ∀ b tl₁, (f (.ok b)).Overflows tl₁ tl' ↔ S b tl₁) : (x >>= f).Overflows tl tl' ↔
      x.Overflows tl tl' ∨ (∃ e tl₁, x tl = .ok (.error e) tl₁ ∧ R e tl₁) ∨
        ∃ b tl₁, x tl = .ok (.ok b) tl₁ ∧ S b tl₁ := by
  refine overflows_bind.trans (or_congr Iff.rfl ⟨?_, ?_⟩)
  · rintro ⟨e | b, tl₁, hx, h⟩
    · exact Or.inl ⟨e, tl₁, hx, (herror e tl₁).mp h⟩
    · exact Or.inr ⟨b, tl₁, hx, (hok b tl₁).mp h⟩
  · rintro (⟨e, tl₁, hx, h⟩ | ⟨b, tl₁, hx, h⟩)
    · exact ⟨.error e, tl₁, hx, (herror e tl₁).mpr h⟩
    · exact ⟨.ok b, tl₁, hx, (hok b tl₁).mpr h⟩

/-- A part that may fail, and after whose failure nothing overflows. -/
theorem overflows_bind_ok {ε : Type} {x : Routine α σ (Except ε β)}
    {f : Except ε β → Routine α σ γ} {S : β → Timeline α σ → Prop}
    (herror : ∀ e, (f (.error e)).Untimed)
    (hok : ∀ b tl₁, (f (.ok b)).Overflows tl₁ tl' ↔ S b tl₁) : (x >>= f).Overflows tl tl' ↔
      x.Overflows tl tl' ∨ ∃ b tl₁, x tl = .ok (.ok b) tl₁ ∧ S b tl₁ := by
  have hnever : ∀ e tl₁, (f (.error e)).Overflows tl₁ tl' ↔ False :=
    fun e tl₁ => iff_false_intro (herror e tl₁ tl')
  exact (overflows_bind_except hnever hok).trans (by simp)

/-- A part that may fail, and after whose success nothing overflows. -/
theorem overflows_bind_error {ε : Type} {x : Routine α σ (Except ε β)}
    {f : Except ε β → Routine α σ γ} {R : ε → Timeline α σ → Prop}
    (hok : ∀ b, (f (.ok b)).Untimed)
    (herror : ∀ e tl₁, (f (.error e)).Overflows tl₁ tl' ↔ R e tl₁) : (x >>= f).Overflows tl tl' ↔
      x.Overflows tl tl' ∨ ∃ e tl₁, x tl = .ok (.error e) tl₁ ∧ R e tl₁ := by
  have hnever : ∀ b tl₁, (f (.ok b)).Overflows tl₁ tl' ↔ False :=
    fun b tl₁ => iff_false_intro (hok b tl₁ tl')
  exact (overflows_bind_except herror hnever).trans (by simp)

theorem Untimed.overflows_bind (hx : x.Untimed) : (x >>= f).Overflows tl tl' ↔
    ∃ b tl₁, x tl = .ok b tl₁ ∧ (f b).Overflows tl₁ tl' :=
  Routine.overflows_bind.trans (or_iff_right (hx tl tl'))

theorem overflows_bind_of_untimed (hf : ∀ b, (f b).Untimed) :
    (x >>= f).Overflows tl tl' ↔ x.Overflows tl tl' := by
  refine overflows_bind.trans (or_iff_left ?_)
  rintro ⟨b, tl₁, _, h⟩
  exact hf b tl₁ tl' h

theorem Untimed.bind (hx : x.Untimed) (hf : ∀ b, (f b).Untimed) : (x >>= f).Untimed :=
  fun tl tl' h => hx tl tl' ((overflows_bind_of_untimed hf).mp h)

/-- A routine that always returns sets no such timer. -/
theorem untimed_of_returns (hx : ∀ tl, ∃ b tl', x tl = .ok b tl') : x.Untimed := by
  intro tl tl' h
  obtain ⟨b, tl₁, hb⟩ := hx tl
  unfold Overflows at h
  rw [hb] at h
  cases h

theorem untimed_pure (b : β) : (pure b : Routine α σ β).Untimed :=
  untimed_of_returns fun _ => ⟨_, _, rfl⟩

/-- A routine begins with a step: it overflows where the rest does. -/
theorem act_overflows_bind {f : Nat → σ → β × σ} {g : β → Routine α σ γ} :
    (act f >>= g).Overflows tl tl' ↔
      (g (f tl.now tl.world).1).Overflows { tl with world := (f tl.now tl.world).2 } tl' := Iff.rfl

theorem change_overflows_bind {f : σ → σ} {g : Unit → Routine α σ γ} :
    (change f >>= g).Overflows tl tl' ↔
      (g ()).Overflows { tl with world := f tl.world } tl' := Iff.rfl

theorem world_overflows_bind {g : σ → Routine α σ γ} :
    (world >>= g).Overflows tl tl' ↔ (g tl.world).Overflows tl tl' := Iff.rfl

/-! ### waits and timers -/

theorem ringAt_untimed (w : Wait σ ρ β) (t : Nat) (r : ρ) : (ringAt w t r).Untimed (α := α) := by
  intro tl tl' h
  unfold Overflows ringAt at h
  split at h <;> cases h

variable [Reactive α σ]

/-- Induction on the agenda: a wait blocks or comes to the horizon, if it does not return. -/
theorem follow_not_overflow (w : Wait σ ρ β) (ring horizon : Option Nat) (g : Agenda α)
    (now : Nat) (r : ρ) (s : σ) (tl' : Timeline α σ) :
    follow w ring horizon g now r s ≠ .error .overflow tl' := by
  induction g generalizing now r s with
  | nil =>
    cases ring with
    | none =>
      intro h
      cases h
    | some t => exact ringAt_untimed w t r _ tl'
  | cons b rest ih =>
    intro h
    rw [follow] at h
    split at h
    · exact ringAt_untimed w _ r _ tl' h
    · split at h
      · split at h
        · cases h
        · split at h
          · exact ringAt_untimed w _ _ _ tl' h
          · exact ih _ _ _ h
      · cases h

/-- A wait never overflows, whatever its deadline. -/
theorem untimed_await (w : Wait σ ρ β) (deadline : Option Nat) (r : ρ) :
    (await w deadline r : Routine α σ β).Untimed := by
  intro tl tl' h
  unfold Overflows await at h
  split at h
  · cases h
  · dsimp only at h
    split at h
    · cases h
    · split at h
      · exact ringAt_untimed w _ _ _ tl' h
      · exact follow_not_overflow w _ _ _ _ _ _ tl' h

theorem sleep_overflows_iff (ticks : Nat) : (sleep ticks : Routine α σ Unit).Overflows tl tl' ↔
    Clock.lastTick < tl.now + ticks ∧ tl' = tl := by
  constructor
  · intro h
    unfold Overflows sleep at h
    split at h
    · exact absurd h (untimed_await timer _ () tl tl')
    · rename_i hafter
      unfold Clock.after? at hafter
      split at hafter
      · cases hafter
      · cases h
        exact ⟨by omega, rfl⟩
  · rintro ⟨hbeyond, rfl⟩
    exact sleep_of_overflow ticks tl' hbeyond

end

/-! ### rounds -/

section
variable {α σ β τ : Type} {body : Nat → τ → Routine α σ (τ ⊕ β)} {rounds left : Nat} {s s' : τ}
  {tl tl₁ tl' : Timeline α σ}

/-- Rounds of a routine, each of which goes on with a new state or ends with a value. -/
def repeated (body : Nat → τ → Routine α σ (τ ⊕ β)) : (rounds : Nat) → τ → Routine α σ β
  | 0, _ => halt .unfinished
  | rounds + 1, s => do
    match ← body rounds s with
    | .inl s => repeated body rounds s
    | .inr b => return b

/-- The rounds begun with the state `s` on `tl` come to the state `s'` on `tl'`, with `left` of them
left. -/
inductive Rounds (body : Nat → τ → Routine α σ (τ ⊕ β)) (left : Nat) (s' : τ)
    (tl' : Timeline α σ) : (rounds : Nat) → τ → Timeline α σ → Prop
  | here : Rounds body left s' tl' left s' tl'
  | next {rounds : Nat} {s s₁ : τ} {tl tl₁ : Timeline α σ} : body rounds s tl = .ok (.inl s₁) tl₁ →
    Rounds body left s' tl' rounds s₁ tl₁ → Rounds body left s' tl' (rounds + 1) s tl

theorem repeated_succ_overflows : (repeated body (rounds + 1) s).Overflows tl tl' ↔
    (body rounds s).Overflows tl tl' ∨ ∃ s₁ tl₁, body rounds s tl = .ok (.inl s₁) tl₁ ∧
      (repeated body rounds s₁).Overflows tl₁ tl' := by
  rw [repeated, overflows_bind]
  refine or_congr Iff.rfl ⟨?_, ?_⟩
  · rintro ⟨s₁ | b, tl₁, hbody, h⟩
    · exact ⟨s₁, tl₁, hbody, h⟩
    · cases h
  · rintro ⟨s₁, tl₁, hbody, h⟩
    exact ⟨.inl s₁, tl₁, hbody, h⟩

/-- **Rounds overflow** where one of them does. -/
theorem repeated_overflows_iff : (repeated body rounds s).Overflows tl tl' ↔
    ∃ left s₁ tl₁, Rounds body (left + 1) s₁ tl₁ rounds s tl ∧
      (body left s₁).Overflows tl₁ tl' := by
  constructor
  · intro h
    -- on the rounds: the first one overflows, or it goes on and the rest do
    induction rounds generalizing s tl with
    | zero => cases h
    | succ rounds ih =>
      obtain hbody | ⟨s₁, tl₁, hbody, hrest⟩ := repeated_succ_overflows.mp h
      · exact ⟨rounds, s, tl, .here, hbody⟩
      · obtain ⟨left, s₂, tl₂, hrounds, hlast⟩ := ih hrest
        exact ⟨left, s₂, tl₂, .next hbody hrounds, hlast⟩
  · rintro ⟨left, s₁, tl₁, hrounds, hlast⟩
    induction hrounds with
    | here => exact repeated_succ_overflows.mpr (Or.inl hlast)
    | next hbody _ ih => exact repeated_succ_overflows.mpr (Or.inr ⟨_, _, hbody, ih⟩)

end

end Routine

open Host HostRoutine Routine

variable {tl tl' : Timeline Action Host}

def Response.Prompt {α : Type} (r : Response α) : Prop := r.delay = 0

/-! ## waits of the consumer -/

namespace HostRoutine

theorem untimed_note (e : LogEntry) : (note e).Untimed :=
  untimed_of_returns fun _ => ⟨_, _, rfl⟩

theorem untimed_noted {β : Type} (e : LogEntry) (b : β) : (do
    note e
    return b : HostRoutine β).Untimed := (untimed_note e).bind fun _ => untimed_pure b

/-- The only timer of a routine that logs something, sleeps and goes on without timers. -/
theorem noted_sleep_overflows_iff {β : Type} {f : Unit → HostRoutine β} {e : LogEntry}
    {ticks : Nat} (hf : ∀ u, (f u).Untimed) : (do
      note e
      Routine.sleep ticks
      f ()).Overflows tl tl' ↔
      Clock.lastTick < tl.now + ticks ∧ tl' = { tl with world := tl.world.note e } :=
  change_overflows_bind.trans ((overflows_bind_of_untimed hf).trans (sleep_overflows_iff ticks))

theorem untimed_status : status.Untimed := untimed_of_returns fun _ => ⟨_, _, rfl⟩

theorem untimed_putBack (events : EventSet) : (putBack events).Untimed :=
  untimed_of_returns fun _ => ⟨_, _, rfl⟩

theorem untimed_awaitAll (target : EventSet) (timeout : Nat) :
    (awaitAll target timeout).Untimed := fun _ _ => untimed_await _ _ _ _ _

theorem untimed_awaitAny (target : EventSet) (timeout : Nat) :
    (awaitAny target timeout).Untimed := fun _ _ => untimed_await _ _ _ _ _

theorem untimed_awaitReport (accept : RadioStatus → Bool) (timeout : Nat) :
    (awaitReport accept timeout).Untimed := by
  refine (untimed_of_returns fun _ => ⟨_, _, rfl⟩).bind fun start => ?_
  dsimp only
  split
  · exact untimed_pure _
  · refine (untimed_note _).bind fun _ => (untimed_await _ _ _).bind fun waited => ?_
    split
    · exact (untimed_putBack _).bind fun _ => untimed_pure _
    · exact untimed_pure _

theorem untimed_awaitStatus (accept : RadioStatus → Bool) (timeout : Nat) :
    (awaitStatus accept timeout).Untimed := by
  refine untimed_status.bind fun current => ?_
  split
  · exact untimed_pure _
  · exact (untimed_awaitReport accept timeout).bind fun _ =>
      untimed_status.bind fun _ => untimed_pure _

/-! ### deadlines beyond the end of the clock -/

/-- A look that ends a wait for any event has found one. -/
theorem look_deliver_done {target events : EventSet} {t : Nat} {r : Unit} {h h' : Host}
    (hlook : (port.deliver target).look t r h = (.done events, h')) : events ≠ EventSet.empty := by
  unfold Port.deliver at hlook
  dsimp only at hlook
  split at hlook
  · cases hlook
  · rename_i hsome
    exact Look.done.inj (Prod.mk.inj hlook).1 ▸ hsome

section
variable {timeout : Nat} (hbeyond : Clock.lastTick < tl.now + timeout)
include hbeyond

theorem after?_beyond : Clock.after? tl.now timeout = none := if_neg (Nat.not_le.mpr hbeyond)

/-- Beyond the end of the clock, a wait for any event returns only with one. -/
theorem awaitAny_endless {target events : EventSet}
    (h : awaitAny target timeout tl = .ok events tl') : events ≠ EventSet.empty := by
  have hwait : Routine.await (port.deliver target) (Clock.after? tl.now timeout) () tl
      = .ok events tl' := h
  rw [after?_beyond hbeyond] at hwait
  obtain ⟨t, _, s, hlook⟩ := await_found rfl hwait
  exact look_deliver_done hlook

/-- Beyond the end of the clock, a wait for a report returns only with an accepted one. -/
theorem awaitReport_endless {accept : RadioStatus → Bool} {up : Bool}
    (h : awaitReport accept timeout tl = .ok up tl') :
    up = true ∧ accept tl'.world.status = true := by
  obtain ⟨start, _, hstart, h⟩ := Routine.bind_eq_ok.mp h
  cases hstart
  dsimp only at h
  rw [after?_beyond hbeyond, Clock.passed_none, if_neg Bool.false_ne_true] at h
  obtain ⟨_, noted, _, h⟩ := Routine.bind_eq_ok.mp h
  obtain ⟨⟨taken, accepted⟩, waited, hawait, h⟩ := Routine.bind_eq_ok.mp h
  obtain ⟨t, _, s, hlook⟩ := await_found rfl hawait
  have hfound : (taken, accepted) = (true, true) ∧ accept waited.world.status = true := by
    unfold watch at hlook
    dsimp only at hlook
    split at hlook
    · cases hlook
    · split at hlook
      · rename_i haccept
        obtain ⟨hdone, hworld⟩ := Prod.mk.inj hlook
        exact ⟨(Look.done.inj hdone).symm, hworld ▸ haccept⟩
      · rw [Clock.passed_none, if_neg Bool.false_ne_true] at hlook
        cases hlook
  cases hfound.1
  cases h
  exact ⟨rfl, hfound.2⟩

theorem awaitStatus_endless {accept : RadioStatus → Bool} {up : Bool}
    (h : awaitStatus accept timeout tl = .ok up tl') : up = true := by
  obtain ⟨current, _, hcurrent, h⟩ := Routine.bind_eq_ok.mp h
  cases hcurrent
  split at h
  · cases h
    rfl
  · obtain ⟨reported, waited, hwaited, h⟩ := Routine.bind_eq_ok.mp h
    cases h
    exact (awaitReport_endless hbeyond hwaited).2

end

/-! ## requests -/

section
variable {β : Type} (request : Request) (draw : Coprocessor → Response β × Coprocessor)
  (timeout : Nat)

/-- A request was made, and what the co-processor reports at once has been reported. -/
def asked (tl : Timeline Action Host) : Timeline Action Host :=
  let drawn := draw tl.world.coprocessor
  { tl with
    world := (({ tl.world with coprocessor := drawn.2 } : Host).record
      (.asked tl.now request timeout)).reportCodes drawn.1.early }

/-- **A request overflows** by the time of its response alone, or by what it allows of that. -/
theorem ask_overflows_iff : (ask request draw timeout).Overflows tl tl' ↔
    0 < (draw tl.world.coprocessor).1.delay ∧
      Clock.lastTick < tl.now + min timeout (draw tl.world.coprocessor).1.delay ∧
      tl' = asked request draw timeout tl := by
  have hlate : ∀ response : Response β, (Routine.change (·.reportCodes response.late) >>=
      fun _ => pure response.outcome : HostRoutine (Except TransportFault β)).Untimed :=
    fun _ => untimed_of_returns fun _ => ⟨_, _, rfl⟩
  have hnow : (asked request draw timeout tl).now = tl.now := rfl
  unfold ask
  rw [act_overflows_bind, change_overflows_bind]
  dsimp only
  split
  · refine (overflows_bind_of_untimed fun _ => untimed_pure _).trans
      ((sleep_overflows_iff timeout).trans ?_)
    rw [Nat.min_eq_left (by omega)]
    exact ⟨fun h => ⟨by omega, h⟩, fun h => h.2⟩
  · split
    · refine (overflows_bind_of_untimed fun _ => hlate _).trans ((sleep_overflows_iff _).trans ?_)
      rw [Nat.min_eq_right (by omega)]
      exact ⟨fun h => ⟨by omega, h⟩, fun h => h.2⟩
    · refine ⟨fun h => absurd h (hlate _ _ _), fun h => ?_⟩
      omega

/-- A request to a co-processor that answers at once sets no timer. -/
theorem ask_not_overflows {request : Request} {draw : Coprocessor → Response β × Coprocessor}
    {timeout : Nat} (hdraw : Coprocessor.Draws draw)
    (hprompt : tl.world.coprocessor.All Response.Prompt) :
    ¬ (ask request draw timeout).Overflows tl tl' := by
  intro h
  have hdelay : (draw tl.world.coprocessor).1.delay = 0 := (hdraw.all hprompt).1
  have hpos := ((ask_overflows_iff request draw timeout).mp h).1
  omega

end

end HostRoutine

end Uplink
