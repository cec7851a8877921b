import Uplink.Routine

/-!
# Waits without a deadline

A wait is ended by what it looks for or by its deadline.  One whose deadline never rings is ended by
what it looks for, or not at all.

* `Routine.await_returned` a wait returns what a look has found, or expires when its deadline rings;
* `Routine.await_found`   without a deadline that rings it returns what a look has found;
* `Routine.Unending`      what it looks for is not there, and nothing on the agenda brings it;
* `Routine.await_unrung`  then it is never over;
* `Routine.sleep_lastTick` a timer that would ring at the last tick is such a wait.
-/

namespace Uplink.Routine

variable {α σ ρ β : Type} [Reactive α σ] {w : Wait σ ρ β} {g : Agenda α} {horizon : Option Nat}
  {now : Nat} {r : ρ} {s : σ} {v : β} {deadline : Option Nat} {tl tl' : Timeline α σ}

/-! ## what ends it -/

/-- A wait is over by a look that finds what it looks for, or because its deadline rings. -/
def Returned (w : Wait σ ρ β) (ring : Option Nat) (v : β) (tl : Timeline α σ) : Prop :=
  (∃ t r s, w.look t r s = (.done v, tl.world)) ∨
    (Clock.passed ring tl.now = true ∧ ∃ r s, w.expire r s = (v, tl.world))

omit [Reactive α σ] in
theorem ringAt_returned {ring : Option Nat} {t : Nat} (hpassed : Clock.passed ring t = true)
    (h : ringAt w t r tl = .ok v tl') : Returned w ring v tl' := by
  unfold ringAt at h
  split at h
  · cases h
    exact Or.inr ⟨hpassed, r, tl.world, rfl⟩
  · cases h

theorem follow_returned {ring : Option Nat} (h : follow w ring horizon g now r s = .ok v tl') :
    Returned w ring v tl' := by
  induction g generalizing now r s with
  | nil =>
    cases ring with
    | none => cases h
    | some t => exact ringAt_returned (decide_eq_true (Nat.le_refl t)) h
  | cons b rest ih =>
    rw [follow] at h
    cases hr : ring.filter (· < b.time) with
    | some t =>
      rw [hr] at h
      obtain ⟨rfl, _⟩ := Option.filter_eq_some_iff.mp hr
      exact ringAt_returned (decide_eq_true (Nat.le_refl t)) h
    | none =>
      rw [hr] at h
      dsimp only at h
      split at h
      · split at h
        · rename_i s' hlook
          cases h
          exact Or.inl ⟨_, _, _, hlook⟩
        · split at h
          · rename_i hring
            exact ringAt_returned (Clock.passed_iff.mpr ⟨b.time, hring, Nat.le_refl _⟩) h
          · exact ih h
      · cases h

theorem await_returned (h : await w deadline r tl = .ok v tl') :
    Returned w (Clock.ring? deadline) v tl' := by
  unfold await at h
  split at h
  · rename_i hlook
    cases h
    exact Or.inl ⟨_, _, _, hlook⟩
  · dsimp only at h
    split at h
    · rename_i hlook
      cases h
      exact Or.inl ⟨_, _, _, hlook⟩
    · split at h
      · exact ringAt_returned (by assumption) h
      · exact follow_returned h

/-- Without a deadline that rings, a wait ends by a look that finds what it looks for. -/
theorem await_found (hring : Clock.ring? deadline = none)
    (h : await w deadline r tl = .ok v tl') : ∃ t r' s', w.look t r' s' = (.done v, tl'.world) := by
  rcases await_returned h with hfound | ⟨hpassed, _⟩
  · exact hfound
  · rw [hring, Clock.passed_none] at hpassed
    exact absurd hpassed Bool.false_ne_true

/-! ## where nothing does -/

/-- Looks that keep `P` and always go on, and actions on the agenda that keep it too. -/
structure Unending (w : Wait σ ρ β) (P : ρ → σ → Prop) (g : Agenda α) : Prop where
  look : ∀ t r s, P r s → ∃ r' s', w.look t r s = (.pending r', s') ∧ P r' s'
  react : ∀ b ∈ g, ∀ a ∈ b.actions, ∀ t r s, P r s → P r (Reactive.react t a s)

/-- A wait that is never over: it blocks, or it comes to the horizon. -/
def Halts (horizon : Option Nat) (result : EStateM.Result Halt (Timeline α σ) β) : Prop :=
  ∃ halt tl, result = .error halt tl ∧ (halt = .blocked ∨ (halt = .limit ∧ horizon ≠ none))

variable {P : ρ → σ → Prop}

theorem Unending.fire (hw : Unending w P g) {b : Batch α} (hb : b ∈ g) (t : Nat) (h : P r s) :
    P r (fire t b.actions s) :=
  fire_induction (P := P r) t b.actions h fun a ha s hs => hw.react b hb a ha t r s hs

/-- Induction on the agenda: no batch ends the wait, and no deadline rings. -/
theorem follow_unrung (hw : Unending w P g) (h : P r s) :
    Halts horizon (follow w none horizon g now r s) := by
  induction g generalizing now r s with
  | nil => exact ⟨.blocked, _, rfl, Or.inl rfl⟩
  | cons b rest ih =>
    have hrest : Unending w P rest := ⟨hw.look, fun c hc => hw.react c (List.mem_cons_of_mem _ hc)⟩
    rw [follow]
    dsimp only [Option.filter_none]
    by_cases hreach : mayReach horizon b.time = true
    · rw [if_pos hreach]
      obtain ⟨r', s', hlook, h'⟩ := hw.look b.time r _ (hw.fire List.mem_cons_self b.time h)
      rw [hlook]
      dsimp only
      rw [if_neg (by simp)]
      exact ih hrest h'
    · rw [if_neg hreach]
      refine ⟨.limit, _, rfl, Or.inr ⟨rfl, fun hnone => ?_⟩⟩
      rw [hnone] at hreach
      exact hreach rfl

/-- **A wait without a deadline that nothing ends** never returns. -/
theorem await_unrung (hring : Clock.ring? deadline = none) (hw : Unending w P tl.agenda)
    (h : P r tl.world) : Halts tl.horizon (await w deadline r tl) := by
  obtain ⟨r₁, s₁, hlook₁, h₁⟩ := hw.look tl.now r tl.world h
  have hfired : P r₁ (Uplink.fire tl.now (tl.agenda.due tl.now) s₁) := by
    refine fire_induction (P := P r₁) tl.now _ h₁ fun a ha s hs => ?_
    obtain ⟨b, hb, hab⟩ := Agenda.exists_batch_of_mem_due ha
    exact hw.react b hb a hab tl.now r₁ s hs
  obtain ⟨r₂, s₂, hlook₂, h₂⟩ := hw.look tl.now r₁ _ hfired
  have hlater : Unending w P (tl.agenda.later tl.now) :=
    ⟨hw.look, fun b hb => hw.react b (Agenda.mem_of_mem_later hb)⟩
  unfold await
  rw [hlook₁]
  dsimp only [Timeline.settle]
  rw [hlook₂, hring]
  exact follow_unrung hlater h₂

/-- A timer that would ring at the last tick never does. -/
theorem sleep_lastTick {ticks : Nat} (hend : tl.now + ticks = Clock.lastTick) :
    Halts tl.horizon ((sleep ticks : Routine α σ Unit) tl) := by
  have hafter : Clock.after? tl.now ticks = some Clock.lastTick :=
    Clock.after?_eq_some_iff.mpr ⟨hend.symm, Nat.le_refl _⟩
  have hnever : Clock.ring? (some Clock.lastTick) = none :=
    Option.filter_some_neg (by decide)
  have hwait : Unending (timer : Wait σ Unit Unit) (fun _ _ => True) tl.agenda :=
    ⟨fun _ _ s _ => ⟨(), s, rfl, trivial⟩, fun _ _ _ _ _ _ _ _ => trivial⟩
  unfold sleep
  rw [hafter]
  exact await_unrung hnever hwait trivial

end Uplink.Routine
