import Uplink.Proofs.Ending

/-!
# Waits in virtual time

A wait is compared with the same time passing without it.  Where a wait only takes things aside,
what it sees can be read off the world that nobody attends to, and so can the instant of its end.

* `Timeline.unattended`   the timeline at an instant, if only the agenda changes the world;
* `Routine.Shadows`       a wait whose looks tell whether the unattended world has `enough`;
* `Routine.await_exact`   such a wait is over at the first instant with enough, or at its deadline;
* `Routine.sleep_exact`   a timer leaves the timeline unattended until it rings.
-/

namespace Uplink

namespace Agenda

variable {α : Type}

theorem due_append_later {now t : Nat} (h : now ≤ t) (g : Agenda α) :
    g.due now ++ (g.later now).due t = g.due t := by
  induction g with
  | nil => rfl
  | cons b rest ih =>
    by_cases hb : b.time ≤ now
    · rw [due_cons_of_le rest hb, later_cons_of_le rest hb, due_cons_of_le rest (Nat.le_trans hb h),
        List.append_assoc, ih]
    · have hlt := Nat.lt_of_not_le hb
      rw [due_cons_of_lt rest hlt, later_cons_of_lt rest hlt, List.nil_append]

theorem later_later {now t : Nat} (h : now ≤ t) (g : Agenda α) :
    (g.later now).later t = g.later t := by
  induction g with
  | nil => rfl
  | cons b rest ih =>
    by_cases hb : b.time ≤ now
    · rw [later_cons_of_le rest hb, later_cons_of_le rest (Nat.le_trans hb h), ih]
    · rw [later_cons_of_lt rest (Nat.lt_of_not_le hb)]

theorem actionsOf_filter (t : Nat) {g : Agenda α} (h : g.Ordered) :
    Routine.actionsOf (g.filter fun b => decide (b.time ≤ t)) = g.due t := by
  induction g with
  | nil => rfl
  | cons b rest ih =>
    obtain ⟨hb, hrest⟩ := ordered_cons.mp h
    by_cases hle : b.time ≤ t
    · have hkeep : (b :: rest).filter (fun c => decide (c.time ≤ t))
          = b :: rest.filter fun c => decide (c.time ≤ t) :=
        List.filter_cons_of_pos (decide_eq_true hle)
      rw [hkeep, Routine.actionsOf_cons, ih hrest, due_cons_of_le rest hle]
    · have hlt := Nat.lt_of_not_le hle
      have hnone : (b :: rest).filter (fun c => decide (c.time ≤ t)) = [] := by
        refine List.filter_eq_nil_iff.mpr fun c hc => ?_
        have hct : t < c.time := by
          rcases List.mem_cons.mp hc with rfl | hc
          · exact hlt
          · exact Nat.lt_trans hlt (hb c hc)
        exact fun h => Nat.not_le.mpr hct (of_decide_eq_true h)
      rw [hnone, due_cons_of_lt rest hlt]
      rfl

end Agenda

namespace Timeline

variable {α σ : Type} [Reactive α σ]

/-- The timeline at the instant `t` if only the agenda changes the world: what is due happens at
once, and then each batch at its instant. -/
def unattended (tl : Timeline α σ) (t : Nat) : Timeline α σ :=
  let passed := passTo t tl.settle.agenda tl.settle.world
  { tl with now := t, agenda := passed.1, world := passed.2 }

theorem advance_eq_unattended (tl : Timeline α σ) (ticks : Nat) :
    tl.advance ticks = tl.unattended (Clock.afterSat tl.now ticks) := rfl

theorem passTo_cons_of_le {t : Nat} {b : Batch α} (rest : Agenda α) (s : σ) (h : b.time ≤ t) :
    passTo t (b :: rest) s = passTo t rest (fire b.time b.actions s) := by
  rw [passTo, if_pos h]

theorem fst_passTo (t : Nat) (g : Agenda α) (s : σ) : (passTo t g s).1 = g.later t := by
  induction g generalizing s with
  | nil => rfl
  | cons b rest ih =>
    by_cases hb : b.time ≤ t
    · rw [passTo_cons_of_le rest s hb, ih, Agenda.later_cons_of_le rest hb]
    · rw [passTo, if_neg hb, Agenda.later_cons_of_lt rest (Nat.lt_of_not_le hb)]

theorem passTo_of_lt {t : Nat} {g : Agenda α} (s : σ) (h : ∀ b ∈ g, t < b.time) :
    passTo t g s = (g, s) := by
  cases g with
  | nil => rfl
  | cons b rest =>
    have hb := h b List.mem_cons_self
    rw [passTo, if_neg (Nat.not_le.mpr hb)]

end Timeline

namespace Routine

open Timeline

variable {α σ ρ β : Type} [Reactive α σ]

/-- The looks of a wait tell whether the unattended world has `enough`.  `I` and `J` relate, before
and after a look, what was gathered, the unattended world and the world; `Q` holds of a wait that
is done, and `E` of one that expires. -/
structure Shadows (w : Wait σ ρ β) (I J : ρ → σ → σ → Prop) (enough : σ → Prop)
    (Q E : β → σ → σ → Prop) : Prop where
  look : ∀ t r u s, I r u s →
    Looked (fun v s' => enough u ∧ Q v u s') (fun r' s' => ¬ enough u ∧ J r' u s') (w.look t r s)
  fire : ∀ r u s t (as : List α), J r u s → I r (fire t as u) (fire t as s)
  expire : ∀ r u s, J r u s → E (w.expire r s).1 u (w.expire r s).2

/-- The end of a wait from `now` on, with the agenda `g` and the unattended world `u`: at the first
instant with enough, or at the instant `ring` if there was never enough.  It comes to a halt if
neither is within the horizon. -/
def OnTime (g : Agenda α) (u : σ) (now : Nat) (ring horizon : Option Nat) (enough : σ → Prop)
    (Q E : β → σ → σ → Prop) : EStateM.Result Halt (Timeline α σ) β → Prop :=
  Ended
    (fun v tl' => now ≤ tl'.now ∧ tl'.agenda = (passTo tl'.now g u).1 ∧
      (∀ t, now ≤ t → t < tl'.now → ¬ enough (passTo t g u).2) ∧
      ((enough (passTo tl'.now g u).2 ∧ Q v (passTo tl'.now g u).2 tl'.world ∧
          ∀ d, ring = some d → tl'.now ≤ d) ∨
        (¬ enough (passTo tl'.now g u).2 ∧ E v (passTo tl'.now g u).2 tl'.world ∧
          ring = some tl'.now)))
    (fun _ => (∀ d, ring = some d → mayReach horizon d = false) ∧
      ∀ t, now ≤ t → mayReach horizon t = true → ¬ enough (passTo t g u).2)

theorem mayReach_of_le {horizon : Option Nat} {t t' : Nat} (h : mayReach horizon t' = true)
    (hle : t ≤ t') : mayReach horizon t = true := by
  cases horizon with
  | none => rfl
  | some limit =>
    have hlimit : t' ≤ limit := of_decide_eq_true h
    exact decide_eq_true (Nat.le_trans hle hlimit)

section
variable {w : Wait σ ρ β} {I J : ρ → σ → σ → Prop} {enough : σ → Prop} {Q E : β → σ → σ → Prop}
  {g : Agenda α} {now : Nat} {ring horizon : Option Nat} {r : ρ} {u s : σ}

theorem lt_of_not_mayReach {t t' : Nat} (h : ¬ mayReach horizon t = true)
    (h' : mayReach horizon t' = true) : t' < t :=
  Nat.lt_of_not_le fun hle => h (mayReach_of_le h' hle)

theorem ringAt_onTime (hw : Shadows (α := α) w I J enough Q E) (hj : J r u s) (hu : ¬ enough u)
    {t : Nat} (hring : ring = some t) (hle : now ≤ t) (hlater : ∀ b ∈ g, t < b.time)
    {start : Nat} :
    OnTime g u now ring horizon enough Q E (ringAt w t r ⟨start, horizon, g, s⟩) := by
  have hidle : ∀ t', t' ≤ t → passTo t' g u = (g, u) := by
    intro t' hto
    exact passTo_of_lt u fun b hb => Nat.lt_of_le_of_lt hto (hlater b hb)
  have hnot : ∀ t', t' ≤ t → ¬ enough (passTo t' g u).2 := by
    intro t' hto
    rw [hidle t' hto]
    exact hu
  unfold ringAt
  split
  · refine ⟨hle, ?_, fun t' _ hto => hnot t' (Nat.le_of_lt hto), Or.inr ⟨?_, ?_, hring⟩⟩
    · show g = (passTo t g u).1
      rw [hidle t (Nat.le_refl t)]
    · exact hnot t (Nat.le_refl t)
    · show E _ (passTo t g u).2 _
      rw [hidle t (Nat.le_refl t)]
      exact hw.expire r u s hj
  · rename_i hbeyond
    refine ⟨?_, ?_⟩
    · intro d hd
      cases hring.symm.trans hd
      exact Bool.eq_false_iff.mpr hbeyond
    · intro t' _ hreach
      exact hnot t' (Nat.le_of_lt (lt_of_not_mayReach hbeyond hreach))

/-- One batch happens, and then the rest of the agenda. -/
theorem OnTime.cons {b : Batch α} {result : EStateM.Result Halt (Timeline α σ) β}
    (h : OnTime g (fire b.time b.actions u) b.time ring horizon enough Q E result)
    (hnow : now < b.time) (hu : ¬ enough u) :
    OnTime (b :: g) u now ring horizon enough Q E result := by
  have hafter : ∀ t, b.time ≤ t →
      passTo t (b :: g) u = passTo t g (fire b.time b.actions u) :=
    fun t ht => passTo_cons_of_le g u ht
  have hbefore : ∀ t, ¬ b.time ≤ t → ¬ enough (passTo t (b :: g) u).2 := by
    intro t ht
    rw [passTo, if_neg ht]
    exact hu
  refine h.imp ?_ ?_
  · intro v tl' hpair
    obtain ⟨hle, hagenda, hfirst, hend⟩ := hpair
    rw [← hafter tl'.now hle] at hagenda hend
    refine ⟨by omega, hagenda, ?_, hend⟩
    intro t _ hlt
    by_cases ht : b.time ≤ t
    · rw [hafter t ht]
      exact hfirst t ht hlt
    · exact hbefore t ht
  · intro tl' hpair
    obtain ⟨hring, hnever⟩ := hpair
    refine ⟨hring, fun t _ hreach => ?_⟩
    by_cases ht : b.time ≤ t
    · rw [hafter t ht]
      exact hnever t ht hreach
    · exact hbefore t ht

theorem onTime_done {v : β} {tl' : Timeline α σ} (hnow : tl'.now = now) (hagenda : tl'.agenda = g)
    (hlater : ∀ b ∈ g, now < b.time) (hu : enough u) (hq : Q v u tl'.world)
    (hring : ∀ d, ring = some d → now ≤ d) :
    OnTime g u now ring horizon enough Q E (.ok v tl') := by
  have hidle : passTo tl'.now g u = (g, u) := by
    rw [hnow]
    exact passTo_of_lt u hlater
  refine ⟨by omega, ?_, fun t hle hlt => by omega, Or.inl ?_⟩
  · rw [hidle, hagenda]
  · rw [hidle, hnow]
    exact ⟨hu, hq, hring⟩

theorem le_of_filter_eq_none {t d : Nat} (h : ring.filter (· < t) = none) (hd : ring = some d) :
    t ≤ d := by
  rw [hd] at h
  have hnot : ¬ d < t := by simpa using h
  omega

/-- The horizon ends a wait before its next batch, and so before its deadline. -/
theorem onTime_beyond {b : Batch α} {tl' : Timeline α σ}
    (hbeyond : ¬ mayReach horizon b.time = true) (hdeadline : ∀ d, ring = some d → b.time ≤ d)
    (hu : ¬ enough u) : OnTime (b :: g) u now ring horizon enough Q E (.error .limit tl') := by
  refine ⟨?_, ?_⟩
  · intro d hd
    apply Bool.eq_false_iff.mpr
    intro hreach
    exact hbeyond (mayReach_of_le hreach (hdeadline d hd))
  · intro t _ hreach
    have hlt := lt_of_not_mayReach hbeyond hreach
    rw [passTo, if_neg (by omega)]
    exact hu

/-- Induction on the agenda: the first batch that brings enough is the end, unless the deadline
rings before it. -/
theorem follow_onTime (hw : Shadows (α := α) w I J enough Q E) (hg : g.Ordered)
    (hlater : ∀ b ∈ g, now < b.time) (hring : ∀ d, ring = some d → now < d) (hj : J r u s)
    (hu : ¬ enough u) :
    OnTime g u now ring horizon enough Q E (follow w ring horizon g now r s) := by
  induction g generalizing now r u s with
  | nil =>
    cases hr : ring with
    | none => exact ⟨fun d hd => (nomatch hd), fun _ _ _ => hu⟩
    | some t =>
      have hlt := hring t hr
      exact ringAt_onTime hw hj hu rfl (Nat.le_of_lt hlt) fun b hb => absurd hb List.not_mem_nil
  | cons b rest ih =>
    obtain ⟨hb, hrest⟩ := Agenda.ordered_cons.mp hg
    have hnow := hlater b List.mem_cons_self
    rw [follow]
    cases hr : ring.filter (· < b.time) with
    | some t =>
      -- the deadline is before the batch
      obtain ⟨hsome, hbefore⟩ := Option.filter_eq_some_iff.mp hr
      have hlt := of_decide_eq_true hbefore
      have hge := hring t hsome
      refine ringAt_onTime hw hj hu hsome (Nat.le_of_lt hge) ?_
      intro c hc
      rcases List.mem_cons.mp hc with rfl | hc
      · exact hlt
      · exact Nat.lt_trans hlt (hb c hc)
    | none =>
      have hdeadline : ∀ d, ring = some d → b.time ≤ d := fun d => le_of_filter_eq_none hr
      dsimp only
      split
      · have hlook := hw.look b.time r _ _ (hw.fire r u s b.time b.actions hj)
        rcases hl : w.look b.time r (fire b.time b.actions s) with ⟨v | r', s'⟩
        · rw [hl] at hlook
          obtain ⟨hu', hq⟩ := hlook
          exact OnTime.cons (onTime_done rfl rfl hb hu' hq hdeadline) hnow hu
        · rw [hl] at hlook
          obtain ⟨hu', hj'⟩ := hlook
          dsimp only
          split
          · rename_i hrings
            exact (ringAt_onTime hw hj' hu' hrings (Nat.le_refl _) hb).cons hnow hu
          · rename_i hnot
            refine (ih hrest hb ?_ hj' hu').cons hnow hu
            intro d hd
            have hle := hdeadline d hd
            have hne : d ≠ b.time := fun h => hnot (h ▸ hd)
            omega
      · exact onTime_beyond (by assumption) hdeadline hu

/-- What a wait does at its start: nothing at all if there is enough, and otherwise it lets happen
what is due and goes on from there. -/
def Exact (tl : Timeline α σ) (ring : Option Nat) (enough : σ → Prop) (Q E : β → σ → σ → Prop)
    (result : EStateM.Result Halt (Timeline α σ) β) : Prop :=
  (enough tl.world ∧ ∃ v s', result = .ok v { tl with world := s' } ∧ Q v tl.world s') ∨
    (¬ enough tl.world ∧
      OnTime tl.settle.agenda tl.settle.world tl.now ring tl.horizon enough Q E result)

/-- **A wait in virtual time.**  If the unattended world has enough, the wait is over at once and
nothing happens.  Otherwise it is over at the first instant at which the unattended world has
enough, or at its deadline. -/
theorem await_exact (hw : Shadows (α := α) w I J enough Q E) {tl : Timeline α σ}
    (hord : tl.agenda.Ordered) {deadline : Option Nat}
    (hdeadline : ∀ d, Clock.ring? deadline = some d → tl.now ≤ d)
    (hi : I r tl.world tl.world) :
    Exact tl (Clock.ring? deadline) enough Q E (await w deadline r tl) := by
  have hfirst := hw.look tl.now r _ _ hi
  unfold await
  rcases hl : w.look tl.now r tl.world with ⟨v | r₁, s₁⟩
  · rw [hl] at hfirst
    exact Or.inl ⟨hfirst.1, v, s₁, rfl, hfirst.2⟩
  rw [hl] at hfirst
  obtain ⟨hu, hj₁⟩ := hfirst
  refine Or.inr ⟨hu, ?_⟩
  have hsecond := hw.look tl.now r₁ _ _ (hw.fire r₁ _ _ tl.now (tl.agenda.due tl.now) hj₁)
  have hlater : ∀ b ∈ tl.settle.agenda, tl.now < b.time :=
    fun b hb => Agenda.lt_of_mem_later hord hb
  dsimp only [Timeline.settle]
  rcases hl' : w.look tl.now r₁ (Uplink.fire tl.now (tl.agenda.due tl.now) s₁) with ⟨v | r₂, s₂⟩
  · rw [hl'] at hsecond
    exact onTime_done rfl rfl hlater hsecond.1 hsecond.2 hdeadline
  · rw [hl'] at hsecond
    obtain ⟨hu₂, hj₂⟩ := hsecond
    dsimp only
    split
    · rename_i hpassed
      obtain ⟨d, hd, hle⟩ := Clock.passed_iff.mp hpassed
      have hnow : d = tl.now := Nat.le_antisymm hle (hdeadline d hd)
      exact ringAt_onTime hw hj₂ hu₂ (hnow ▸ hd) (Nat.le_refl _) hlater
    · rename_i hnot
      refine follow_onTime hw (Agenda.later_ordered _ hord) hlater ?_ hj₂ hu₂
      intro d hd
      exact Nat.lt_of_not_le fun hle => hnot (Clock.passed_iff.mpr ⟨d, hd, hle⟩)

end

/-! ## timers -/

section
variable {horizon : Option Nat} {tl : Timeline α σ} {t ticks : Nat}

/-- Induction on the agenda: the batches up to `t` happen, and then the timer rings. -/
theorem follow_timer (hreach : mayReach horizon t = true) {g : Agenda α} (hg : g.Ordered)
    (now : Nat) (s : σ) : follow timer (some t) horizon g now () s
      = .ok () ⟨t, horizon, (passTo t g s).1, (passTo t g s).2⟩ := by
  have hring : ∀ (now : Nat) (g : Agenda α) (s : σ), (∀ b ∈ g, t < b.time) →
      ringAt timer t () ⟨now, horizon, g, s⟩
        = .ok () ⟨t, horizon, (passTo t g s).1, (passTo t g s).2⟩ := by
    intro now g s hlater
    rw [passTo_of_lt s hlater]
    exact if_pos hreach
  induction g generalizing now s with
  | nil => exact hring now [] s fun b hb => absurd hb List.not_mem_nil
  | cons b rest ih =>
    obtain ⟨hb, hrest⟩ := Agenda.ordered_cons.mp hg
    rw [follow]
    by_cases hlt : t < b.time
    · have hfilter : (some t).filter (fun d => decide (d < b.time)) = some t :=
        Option.filter_some_pos (decide_eq_true hlt)
      rw [hfilter]
      refine hring now (b :: rest) s fun c hc => ?_
      rcases List.mem_cons.mp hc with rfl | hc
      · exact hlt
      · exact Nat.lt_trans hlt (hb c hc)
    · have hle := Nat.le_of_not_lt hlt
      have hfilter : (some t).filter (fun d => decide (d < b.time)) = none :=
        Option.filter_some_neg (by simpa using hle)
      rw [hfilter, passTo_cons_of_le rest s hle]
      dsimp only
      rw [if_pos (mayReach_of_le hreach hle)]
      show (if some t = some b.time then _ else _) = _
      split
      · rename_i heq
        cases heq
        exact hring _ rest _ hb
      · exact ih hrest b.time _

/-- **A timer** rings at its instant, and all that happens until then is on the agenda. -/
theorem sleep_exact (hord : tl.agenda.Ordered) (hend : tl.now + ticks < Clock.lastTick)
    (hreach : mayReach tl.horizon (tl.now + ticks) = true) :
    (sleep ticks : Routine α σ Unit) tl = .ok () (tl.unattended (tl.now + ticks)) := by
  have hafter : Clock.after? tl.now ticks = some (tl.now + ticks) :=
    Clock.after?_eq_some_iff.mpr ⟨rfl, Nat.le_of_lt hend⟩
  have hring : Clock.ring? (some (tl.now + ticks)) = some (tl.now + ticks) :=
    Option.filter_some_pos (decide_eq_true hend)
  have hfollow := follow_timer hreach (Agenda.later_ordered tl.now hord) tl.now tl.settle.world
  unfold sleep
  rw [hafter]
  show (if Clock.passed (Clock.ring? (some (tl.now + ticks))) tl.now then
    ringAt timer tl.now () tl.settle
    else follow timer (Clock.ring? (some (tl.now + ticks))) tl.horizon tl.settle.agenda tl.now ()
      tl.settle.world) = _
  rw [hring]
  split
  · rename_i hpassed
    -- a timer of no ticks rings at once, after what is due
    have hnone : ticks = 0 := by
      have hle : tl.now + ticks ≤ tl.now := of_decide_eq_true hpassed
      omega
    subst hnone
    have hidle : passTo tl.now tl.settle.agenda tl.settle.world
        = (tl.settle.agenda, tl.settle.world) :=
      passTo_of_lt _ fun b hb => Agenda.lt_of_mem_later hord hb
    unfold Timeline.unattended
    rw [Nat.add_zero, hidle]
    exact if_pos hreach
  · exact hfollow

end

end Routine

end Uplink
