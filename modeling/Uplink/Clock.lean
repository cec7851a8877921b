/-!
# The clock

Instants and durations are ticks, natural numbers up to `lastTick`.  A deadline that the clock
cannot show, or shows only at its very last tick, never rings.

* `after?`     the instant a duration from now, if the clock can show it;
* `afterSat`   the same, or the last tick;
* `ring?`      the instant at which a deadline rings;
* `passed`     a deadline lies in the past or is now.
-/

namespace Uplink.Clock

/-- The last instant, the largest word of 64 bits. -/
def lastTick : Nat := 0xFFFFFFFFFFFFFFFF

/-- The instant `ticks` after `now`, if the clock can show it. -/
def after? (now ticks : Nat) : Option Nat :=
  if now + ticks ≤ lastTick then some (now + ticks) else none

def afterSat (now ticks : Nat) : Nat := min (now + ticks) lastTick

/-- When a deadline rings: not at all without a deadline, nor at the last tick. -/
def ring? (deadline : Option Nat) : Option Nat := deadline.filter (· < lastTick)

def passed (deadline : Option Nat) (now : Nat) : Bool := deadline.any (· ≤ now)

theorem after?_eq_some_iff {now ticks t : Nat} :
    after? now ticks = some t ↔ t = now + ticks ∧ t ≤ lastTick := by
  unfold after?
  split
  · rename_i h
    constructor
    · intro e
      cases e
      exact ⟨rfl, h⟩
    · intro hend
      obtain ⟨rfl, _⟩ := hend
      rfl
  · rename_i h
    exact ⟨fun e => (nomatch e), fun e => absurd (e.1 ▸ e.2) h⟩

theorem ring?_eq_some_iff {deadline : Option Nat} {t : Nat} :
    ring? deadline = some t ↔ deadline = some t ∧ t < lastTick := by
  simp [ring?, Option.filter_eq_some_iff]

theorem ring?_after?_eq_some_iff {now ticks t : Nat} :
    ring? (after? now ticks) = some t ↔ t = now + ticks ∧ now + ticks < lastTick := by
  rw [ring?_eq_some_iff, after?_eq_some_iff]
  constructor
  · intro h
    obtain ⟨⟨rfl, _⟩, hlt⟩ := h
    exact ⟨rfl, hlt⟩
  · intro h
    obtain ⟨rfl, hlt⟩ := h
    exact ⟨⟨rfl, Nat.le_of_lt hlt⟩, hlt⟩

theorem ring?_after? {now ticks : Nat} (h : now + ticks < lastTick) :
    ring? (after? now ticks) = some (now + ticks) := ring?_after?_eq_some_iff.mpr ⟨rfl, h⟩

/-- A deadline that the clock shows at its very last tick, or not at all, never rings. -/
theorem ring?_after?_eq_none_iff {now ticks : Nat} :
    ring? (after? now ticks) = none ↔ lastTick ≤ now + ticks := by
  rw [Option.eq_none_iff_forall_ne_some]
  constructor
  · intro hnever
    exact Nat.le_of_not_lt fun hlt => hnever _ (ring?_after? hlt)
  · intro hbeyond t ht
    have hlt := (ring?_after?_eq_some_iff.mp ht).2
    omega

theorem passed_none (now : Nat) : passed none now = false := rfl

theorem passed_some (t now : Nat) : passed (some t) now = decide (t ≤ now) := rfl

theorem passed_iff {deadline : Option Nat} {now : Nat} :
    passed deadline now = true ↔ ∃ t, deadline = some t ∧ t ≤ now := by
  cases deadline with
  | none => simp [passed_none]
  | some t => simp [passed_some]

end Uplink.Clock
