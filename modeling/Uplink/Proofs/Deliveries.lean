import Uplink.Proofs.Unattended

/-!
# Deliveries

What happens while a routine is blocked reaches it in deliveries: first all that is overdue, at
once, and then each batch of the agenda at its instant.

* `Timeline.deliveries`      what a routine that blocks now is going to see, in order;
* `Timeline.Orderly`         the agenda is in order and within the reach of the clock;
* `Routine.Attends`          a wait whose looks tell what the deliveries so far have brought;
* `Routine.await_attended`   such a wait has seen all deliveries up to its end, and none after it; it
                             comes to a halt only if nothing more is within its reach.
-/

namespace Uplink

namespace Timeline

variable {α σ : Type}

/-- What somebody who blocks now is going to see, in order: all that is overdue, at once, and then
each batch by itself. -/
def deliveries (tl : Timeline α σ) : Agenda α :=
  ⟨tl.now, tl.agenda.due tl.now⟩ :: tl.agenda.later tl.now

/-- With nothing due, nothing happens. -/
theorem settle_of_idle [Reactive α σ] {tl : Timeline α σ} (hidle : ∀ b ∈ tl.agenda, tl.now < b.time) :
    tl.settle = tl := by
  obtain ⟨now, horizon, agenda, world⟩ := tl
  cases agenda with
  | nil => rfl
  | cons b rest =>
    have hb := hidle b List.mem_cons_self
    unfold settle
    dsimp only
    rw [Agenda.due_cons_of_lt rest hb, Agenda.later_cons_of_lt rest hb]
    rfl

/-- The agenda is in order of time, and the clock can show all its instants. -/
structure Orderly (tl : Timeline α σ) : Prop where
  ordered : tl.agenda.Ordered
  time_le : ∀ b ∈ tl.agenda, b.time ≤ Clock.lastTick

theorem Orderly.schedule {tl : Timeline α σ} (h : tl.Orderly) (ticks : Nat) (a : α) :
    (tl.schedule ticks a).Orderly := by
  refine ⟨tl.schedule_ordered ticks a h.ordered, ?_⟩
  intro c hc
  rcases Agenda.time_of_mem_insert hc with htime | ⟨b, hb, htime⟩
  · rw [htime]
    exact Nat.min_le_right _ _
  · rw [← htime]
    exact h.time_le b hb

theorem Orderly.of_suffix {tl tl' : Timeline α σ} (h : tl.Orderly) (hg : tl'.agenda <:+ tl.agenda) :
    tl'.Orderly :=
  ⟨List.Pairwise.sublist hg.sublist h.ordered, fun b hb => h.time_le b (hg.subset hb)⟩

/-- A property of instants and actions that holds of all batches holds of all deliveries. -/
theorem forall_deliveries {tl : Timeline α σ} {T : Nat → Prop} {A : α → Prop} (hnow : T tl.now)
    (htime : ∀ b ∈ tl.agenda, T b.time) (hactions : ∀ b ∈ tl.agenda, ∀ a ∈ b.actions, A a) :
    ∀ b ∈ tl.deliveries, T b.time ∧ ∀ a ∈ b.actions, A a := by
  intro b hb
  rcases List.mem_cons.mp hb with rfl | hb
  · refine ⟨hnow, fun a ha => ?_⟩
    obtain ⟨c, hc, ha⟩ := List.mem_flatMap.mp ha
    exact hactions c ((List.takeWhile_sublist _).subset hc) a ha
  · have hmem := (List.dropWhile_sublist _).subset hb
    exact ⟨htime b hmem, hactions b hmem⟩

end Timeline

namespace Clock

/-- What happens before the deadline rings, happens within the time that the deadline gives. -/
theorem le_of_before_ring {now ticks t : Nat}
    (hring : ∀ d, ring? (after? now ticks) = some d → t ≤ d) (ht : t ≤ now ∨ t ≤ lastTick) :
    t ≤ now + ticks := by
  by_cases hreach : now + ticks < lastTick
  · exact hring _ (ring?_after? hreach)
  · omega

end Clock

namespace Routine

variable {α σ ρ β : Type}

/-- The looks of a wait tell what the deliveries so far have brought.  `J` holds after a look that
goes on, `Q` when the wait is over; both are told the deliveries, which are all such that `D`. -/
structure Attends [Reactive α σ] (w : Wait σ ρ β) (ring : Option Nat) (D : Batch α → Prop)
    (J : Agenda α → ρ → σ → Prop) (Q : Agenda α → Nat → β → σ → Prop) : Prop where
  look : ∀ seen b r s, J seen r s → D b → (∀ d, ring = some d → b.time ≤ d) →
    Looked (Q (seen ++ [b]) b.time) (J (seen ++ [b])) (w.look b.time r (fire b.time b.actions s))
  expire : ∀ seen t r s, J seen r s → ring = some t → Q seen t (w.expire r s).1 (w.expire r s).2

/-- A wait after the deliveries `seen` that goes no further: neither its deadline nor any delivery
to come, of those in `g`, lies within the horizon. -/
def Stalled (ring horizon : Option Nat) (seen g : Agenda α) (J : Agenda α → ρ → σ → Prop) : Prop :=
  (∀ d, ring = some d → mayReach horizon d = false) ∧
    ∃ more rest, g = more ++ rest ∧ (∀ b ∈ rest, mayReach horizon b.time = false) ∧
      ∃ r s, J (seen ++ more) r s

/-- The end of a wait after the deliveries `seen`, with the deliveries `g` to come: it has seen all
those up to its end, or it has stalled. -/
def Attended (ring horizon : Option Nat) (seen g : Agenda α) (J : Agenda α → ρ → σ → Prop)
    (Q : Agenda α → Nat → β → σ → Prop) : EStateM.Result Halt (Timeline α σ) β → Prop :=
  Ended (fun v tl' => ∃ more, g = more ++ tl'.agenda ∧ (∀ b ∈ tl'.agenda, tl'.now < b.time) ∧
    Q (seen ++ more) tl'.now v tl'.world) fun _ => Stalled ring horizon seen g J

section
variable {w : Wait σ ρ β} {ring horizon : Option Nat} {D : Batch α → Prop}
  {J : Agenda α → ρ → σ → Prop} {Q : Agenda α → Nat → β → σ → Prop} {seen g : Agenda α} {r : ρ}
  {s : σ}

theorem Stalled.cons {b : Batch α} (h : Stalled ring horizon (seen ++ [b]) g J) :
    Stalled ring horizon seen (b :: g) J := by
  obtain ⟨hring, more, rest, hg, hrest, r, s, hj⟩ := h
  refine ⟨hring, b :: more, rest, ?_, hrest, r, s, ?_⟩
  · rw [hg, List.cons_append]
  · rw [List.append_cons]
    exact hj

/-- Nothing that is to come lies within the horizon. -/
theorem stalled_here (hj : J seen r s) (hring : ∀ d, ring = some d → mayReach horizon d = false)
    (hg : ∀ b ∈ g, mayReach horizon b.time = false) : Stalled ring horizon seen g J := by
  refine ⟨hring, [], g, rfl, hg, r, s, ?_⟩
  rw [List.append_nil]
  exact hj

theorem mayReach_eq_false_of_le {t t' : Nat} (h : mayReach horizon t = false) (hle : t ≤ t') :
    mayReach horizon t' = false := by
  apply Bool.eq_false_iff.mpr
  intro hreach
  rw [mayReach_of_le hreach hle] at h
  exact Bool.false_ne_true h.symm

theorem Attended.cons {b : Batch α} {result : EStateM.Result Halt (Timeline α σ) β}
    (h : Attended ring horizon (seen ++ [b]) g J Q result) :
    Attended ring horizon seen (b :: g) J Q result := by
  refine h.imp ?_ fun _ => Stalled.cons
  intro v tl' hend
  obtain ⟨more, hg, hlater, hq⟩ := hend
  refine ⟨b :: more, ?_, hlater, ?_⟩
  · rw [hg, List.cons_append]
  · rw [List.append_cons]
    exact hq

/-- A wait that is over, with nothing more to see. -/
theorem attended_ok {now : Nat} {v : β} (hlater : ∀ b ∈ g, now < b.time) (hq : Q seen now v s) :
    Attended ring horizon seen g J Q (.ok v ⟨now, horizon, g, s⟩) := by
  refine ⟨[], rfl, hlater, ?_⟩
  rw [List.append_nil]
  exact hq

variable [Reactive α σ]

theorem ringAt_attended (hw : Attends w ring D J Q) (hj : J seen r s) {t start : Nat}
    (hring : ring = some t) (hlater : ∀ b ∈ g, t < b.time) :
    Attended ring horizon seen g J Q (ringAt w t r ⟨start, horizon, g, s⟩) := by
  unfold ringAt
  split
  · exact attended_ok hlater (hw.expire seen t r s hj hring)
  · rename_i hbeyond
    have hbeyond := Bool.eq_false_iff.mpr hbeyond
    refine stalled_here hj ?_ ?_
    · intro d hd
      cases hring.symm.trans hd
      exact hbeyond
    · intro b hb
      exact mayReach_eq_false_of_le hbeyond (Nat.le_of_lt (hlater b hb))

/-- Induction on the agenda: each batch is one delivery and one look. -/
theorem follow_attended (hw : Attends w ring D J Q) (hg : g.Ordered) (hD : ∀ b ∈ g, D b) {now : Nat}
    (hj : J seen r s) : Attended ring horizon seen g J Q (follow w ring horizon g now r s) := by
  induction g generalizing now seen r s with
  | nil =>
    cases hr : ring with
    | none =>
      exact stalled_here hj (fun d hd => nomatch hd) fun b hb => absurd hb List.not_mem_nil
    | some t => exact ringAt_attended (hr ▸ hw) hj rfl fun b hb => absurd hb List.not_mem_nil
  | cons b rest ih =>
    obtain ⟨hb, hrest⟩ := Agenda.ordered_cons.mp hg
    rw [follow]
    cases hr : ring.filter (· < b.time) with
    | some t =>
      -- the deadline is before the batch
      obtain ⟨hsome, hbefore⟩ := Option.filter_eq_some_iff.mp hr
      have hlt := of_decide_eq_true hbefore
      refine ringAt_attended hw hj hsome ?_
      intro c hc
      rcases List.mem_cons.mp hc with rfl | hc
      · exact hlt
      · exact Nat.lt_trans hlt (hb c hc)
    | none =>
      have hlook := hw.look seen b r s hj (hD b List.mem_cons_self) fun d =>
        le_of_filter_eq_none hr
      dsimp only
      split
      · rcases hl : w.look b.time r (fire b.time b.actions s) with ⟨v | r', s'⟩
        · rw [hl] at hlook
          refine Attended.cons ?_
          exact attended_ok hb hlook
        · rw [hl] at hlook
          dsimp only
          refine Attended.cons ?_
          split
          · exact ringAt_attended hw hlook (by assumption) hb
          · exact ih hrest (fun c hc => hD c (List.mem_cons_of_mem _ hc)) hlook
      · -- the batch, and with it the deadline, lies beyond the horizon
        rename_i hbeyond
        have hbeyond := Bool.eq_false_iff.mpr hbeyond
        refine stalled_here hj ?_ ?_
        · intro d hd
          exact mayReach_eq_false_of_le hbeyond (le_of_filter_eq_none hr hd)
        · intro c hc
          rcases List.mem_cons.mp hc with rfl | hc
          · exact hbeyond
          · exact mayReach_eq_false_of_le hbeyond (Nat.le_of_lt (hb c hc))

/-- **The end of a wait among its deliveries.**  A wait that is not over at once has seen, when it
is over, all deliveries up to that instant, and none after it.  It comes to a halt only if neither
its deadline nor any further delivery lies within the horizon. -/
theorem await_attended {tl : Timeline α σ} {deadline : Option Nat} {r₁ : ρ}
    (hw : Attends w (Clock.ring? deadline) D J Q) (hord : tl.agenda.Ordered)
    (hdeadline : ∀ d, Clock.ring? deadline = some d → tl.now ≤ d) (hD : ∀ b ∈ tl.deliveries, D b)
    (hfirst : w.look tl.now r tl.world = (.pending r₁, s)) (hj : J [] r₁ s) :
    Attended (Clock.ring? deadline) tl.horizon [] tl.deliveries J Q (await w deadline r tl) := by
  obtain ⟨hDnow, hDlater⟩ := List.forall_mem_cons.mp hD
  have hlater : ∀ b ∈ tl.agenda.later tl.now, tl.now < b.time :=
    fun b hb => Agenda.lt_of_mem_later hord hb
  have hsecond := hw.look [] ⟨tl.now, tl.agenda.due tl.now⟩ r₁ s hj hDnow hdeadline
  have hsettle : ({ tl with world := s } : Timeline α σ).settle = ⟨tl.now, tl.horizon,
      tl.agenda.later tl.now, fire tl.now (tl.agenda.due tl.now) s⟩ := rfl
  unfold await
  rw [hfirst]
  dsimp only
  rw [hsettle]
  refine Attended.cons ?_
  dsimp only at hsecond ⊢
  rcases hl : w.look tl.now r₁ (fire tl.now (tl.agenda.due tl.now) s) with ⟨v | r₂, s₂⟩
  · rw [hl] at hsecond
    exact attended_ok hlater hsecond
  · rw [hl] at hsecond
    dsimp only
    split
    · rename_i hpassed
      obtain ⟨d, hd, hle⟩ := Clock.passed_iff.mp hpassed
      have hnow : d = tl.now := Nat.le_antisymm hle (hdeadline d hd)
      exact ringAt_attended hw hsecond (hnow ▸ hd) hlater
    · exact follow_attended hw (Agenda.later_ordered _ hord) hDlater hsecond

end

end Routine

end Uplink
