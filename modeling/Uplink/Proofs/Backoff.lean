import Mathlib.Algebra.Group.Nat.Defs
import Uplink.RetryPlan

/-!
# Delays in machine words

The ideal schedule of a retry plan doubles its interval without end and cuts it at the cap.  A plan
computes it in words: attempts are counted in 32 bits, ticks in 64, the power of two is a shift and
the product saturates.  Nothing is lost that way.

* `RetryPlan.ideal`          the delay of the ideal schedule;
* `RetryPlan.delay_eq_ideal` a plan with a cap that the clock can show keeps that schedule;
* `RetryPlan.Paced`          how the delays of a plan follow one another;
* `powerOfTwo`, `timesSat`   the two operations on words, and that neither of them wraps;
* `WordPlan`                 a plan in words, and what it computes;
* `backoff_is_ideal`         all of it.
-/

namespace Uplink

/-! ## the ideal schedule -/

namespace RetryPlan

variable {p : RetryPlan} {a b d e cap : Nat}

/-- The delay after failed attempt number `attempt`, with numbers that have no end. -/
def ideal (p : RetryPlan) (attempt : Nat) : Nat :=
  match p.growth with
  | .fixed => p.interval
  | .doubling cap => min cap (p.interval * 2 ^ (attempt - 1))

/-- The clock can show the cap. -/
def Capped (p : RetryPlan) : Prop := ∀ cap, p.growth = .doubling cap → cap ≤ Clock.lastTick

theorem ideal_fixed (h : p.growth = .fixed) (attempt : Nat) : p.ideal attempt = p.interval := by
  unfold ideal
  rw [h]

theorem ideal_doubling (h : p.growth = .doubling cap) (attempt : Nat) :
    p.ideal attempt = min cap (p.interval * 2 ^ (attempt - 1)) := by
  unfold ideal
  rw [h]

/-- Beyond 63 doublings the power does not fit a word.  Then the product of any interval but zero
is beyond the cap, with the power as with the last tick in its place. -/
theorem min_product_factor (interval attempt : Nat) (hcap : cap ≤ Clock.lastTick) :
    min (min (interval * factor attempt) Clock.lastTick) cap
      = min cap (interval * 2 ^ (attempt - 1)) := by
  unfold factor
  split
  · show min (min (interval * 2 ^ (attempt - 1)) Clock.lastTick) cap = _
    omega
  · rename_i hlarge
    obtain hzero | hpos := Nat.eq_zero_or_pos interval
    · rw [hzero, Nat.zero_mul, Nat.zero_mul]
      omega
    · have hpower : Clock.lastTick < 2 ^ (attempt - 1) :=
        calc Clock.lastTick < 2 ^ 64 := by decide
          _ ≤ 2 ^ (attempt - 1) := Nat.pow_le_pow_right (by decide) (by omega)
      have hword : Clock.lastTick ≤ interval * Clock.lastTick := Nat.le_mul_of_pos_left _ hpos
      have hexact : 2 ^ (attempt - 1) ≤ interval * 2 ^ (attempt - 1) :=
        Nat.le_mul_of_pos_left _ hpos
      omega

/-- **A plan keeps the ideal schedule**, whatever its interval. -/
theorem delay_eq_ideal (hp : p.Capped) (attempt : Nat) : p.delay attempt = p.ideal attempt := by
  unfold delay
  cases hg : p.growth with
  | fixed => exact (ideal_fixed hg attempt).symm
  | doubling cap =>
    rw [ideal_doubling hg]
    exact min_product_factor p.interval attempt (hp cap hg)

theorem eq_ideal_of_granted (hp : p.Capped) (h : p.delayAfter a = some d) : d = p.ideal a := by
  unfold delayAfter at h
  split at h
  · cases h
  · cases h
    exact delay_eq_ideal hp a

/-! ## one delay after the other -/

theorem ideal_mono (h : a ≤ b) : p.ideal a ≤ p.ideal b := by
  cases hg : p.growth with
  | fixed => exact Nat.le_of_eq ((ideal_fixed hg a).trans (ideal_fixed hg b).symm)
  | doubling cap =>
    have hpower : 2 ^ (a - 1) ≤ 2 ^ (b - 1) := Nat.pow_le_pow_right (by decide) (by omega)
    have hproduct := Nat.mul_le_mul_left p.interval hpower
    rw [ideal_doubling hg, ideal_doubling hg]
    omega

theorem ideal_succ_le (p : RetryPlan) (a : Nat) : p.ideal (a + 1) ≤ 2 * p.ideal a := by
  cases hg : p.growth with
  | fixed =>
    rw [ideal_fixed hg, ideal_fixed hg]
    omega
  | doubling cap =>
    have hpower : 2 ^ a ≤ 2 * 2 ^ (a - 1) := by
      rw [← Nat.pow_succ']
      exact Nat.pow_le_pow_right (by decide) (by omega)
    have hproduct : p.interval * 2 ^ a ≤ 2 * (p.interval * 2 ^ (a - 1)) := by
      rw [Nat.mul_left_comm]
      exact Nat.mul_le_mul_left p.interval hpower
    rw [ideal_doubling hg, ideal_doubling hg, Nat.add_sub_cancel]
    omega

theorem ideal_le_cap (hg : p.growth = .doubling cap) (a : Nat) : p.ideal a ≤ cap := by
  rw [ideal_doubling hg]
  exact Nat.min_le_left _ _

/-- 64 doublings carry any interval but zero beyond every cap that the clock can show. -/
theorem ideal_of_late (hp : p.Capped) (hg : p.growth = .doubling cap) (hpos : 0 < p.interval)
    (hlate : 64 < a) : p.ideal a = cap := by
  have hpower : 2 ^ 64 ≤ 2 ^ (a - 1) := Nat.pow_le_pow_right (by decide) (by omega)
  have hproduct : 2 ^ (a - 1) ≤ p.interval * 2 ^ (a - 1) := Nat.le_mul_of_pos_left _ hpos
  have hword : Clock.lastTick < 2 ^ 64 := by decide
  have hcap := hp cap hg
  rw [ideal_doubling hg]
  omega

/-- An attempt before one that has a further attempt has one too. -/
theorem granted_before (h : p.delayAfter b = some e) (hle : a ≤ b) :
    ∃ d, p.delayAfter a = some d := by
  refine Option.ne_none_iff_exists'.mp fun hnone => ?_
  obtain ⟨n, hn, hna⟩ := (p.delayAfter_eq_none_iff a).mp hnone
  have hends := (p.delayAfter_eq_none_iff b).mpr ⟨n, hn, Nat.le_trans hna hle⟩
  rw [hends] at h
  cases h

/-- How the delays that a plan grants follow one another. -/
structure Paced (p : RetryPlan) : Prop where
  /-- No delay is granted after one that is not. -/
  granted {a b e : Nat} : a ≤ b → p.delayAfter b = some e → ∃ d, p.delayAfter a = some d
  mono {a b d e : Nat} : a ≤ b → p.delayAfter a = some d → p.delayAfter b = some e → d ≤ e
  doubles {a d e : Nat} : p.delayAfter a = some d → p.delayAfter (a + 1) = some e → e ≤ 2 * d
  /-- Once the cap is reached the delays stay there. -/
  stays {a b e cap : Nat} : p.growth = .doubling cap → p.delayAfter a = some cap → a ≤ b →
    p.delayAfter b = some e → e = cap
  /-- Any interval but zero reaches the cap. -/
  reaches {a d cap : Nat} : p.growth = .doubling cap → 0 < p.interval → 64 < a →
    p.delayAfter a = some d → d = cap

theorem paced (hp : p.Capped) : p.Paced where
  granted := fun hle h => granted_before h hle
  mono := by
    intro a b d e hle ha hb
    rw [eq_ideal_of_granted hp ha, eq_ideal_of_granted hp hb]
    exact ideal_mono hle
  doubles := by
    intro a d e ha hb
    rw [eq_ideal_of_granted hp ha, eq_ideal_of_granted hp hb]
    exact p.ideal_succ_le a
  stays := by
    intro a b e cap hg ha hle hb
    have hat : cap = p.ideal a := eq_ideal_of_granted hp ha
    have hgrown : p.ideal a ≤ p.ideal b := ideal_mono hle
    have hbelow : p.ideal b ≤ cap := ideal_le_cap hg b
    rw [eq_ideal_of_granted hp hb]
    omega
  reaches := by
    intro a d cap hg hpos hlate ha
    rw [eq_ideal_of_granted hp ha]
    exact ideal_of_late hp hg hpos hlate

end RetryPlan

/-! ## words -/

/-- The largest word of 64 bits, which is the last tick of the clock. -/
def lastWord : UInt64 := 0xFFFFFFFFFFFFFFFF

/-- A one shifted to the left, or the largest word where the one would be shifted out. -/
def powerOfTwo (places : UInt32) : UInt64 :=
  if places < 64 then 1 <<< places.toUInt64 else lastWord

/-- The product of two words, or the largest word where the product does not fit. -/
def timesSat (x y : UInt64) : UInt64 :=
  if x.toNat * y.toNat < 2 ^ 64 then x * y else lastWord

theorem toNat_lastWord : lastWord.toNat = Clock.lastTick := rfl

/-- A shift that is carried out loses no bit. -/
theorem toNat_powerOfTwo (places : UInt32) : (powerOfTwo places).toNat
    = if places.toNat < 64 then 2 ^ places.toNat else Clock.lastTick := by
  unfold powerOfTwo
  by_cases hsmall : places.toNat < 64
  · have hword : places < 64 := UInt32.lt_iff_toNat_lt.mpr hsmall
    have hmod : places.toUInt64.toNat % 64 = places.toNat := by
      rw [UInt32.toNat_toUInt64]
      exact Nat.mod_eq_of_lt hsmall
    have hfits : 2 ^ places.toNat < 2 ^ 64 := Nat.pow_lt_pow_right (by decide) hsmall
    rw [if_pos hword, if_pos hsmall, UInt64.toNat_shiftLeft, hmod]
    show 1 <<< places.toNat % 2 ^ 64 = _
    rw [Nat.one_shiftLeft, Nat.mod_eq_of_lt hfits]
  · have hword : ¬ places < 64 := fun h => hsmall (UInt32.lt_iff_toNat_lt.mp h)
    rw [if_neg hword, if_neg hsmall, toNat_lastWord]

/-- A product that is carried out does not wrap. -/
theorem toNat_timesSat (x y : UInt64) :
    (timesSat x y).toNat = min (x.toNat * y.toNat) Clock.lastTick := by
  have hlast : Clock.lastTick + 1 = 2 ^ 64 := by decide
  unfold timesSat
  split
  · rename_i hfits
    rw [UInt64.toNat_mul, Nat.mod_eq_of_lt hfits]
    omega
  · rw [toNat_lastWord]
    omega

/-- A retry plan in words. -/
structure WordPlan where
  /-- Attempts allowed in all, `none` for no limit. -/
  maxAttempts : Option UInt32
  interval : UInt64
  /-- The cap of a growing delay, `none` for a fixed one. -/
  cap : Option UInt64
  deriving DecidableEq

namespace WordPlan

/-- The plan that the words stand for. -/
def plan (w : WordPlan) : RetryPlan where
  maxAttempts := w.maxAttempts.map UInt32.toNat
  interval := w.interval.toNat
  growth := match w.cap with
    | none => .fixed
    | some cap => .doubling cap.toNat

def delay (w : WordPlan) (attempt : UInt32) : UInt64 :=
  match w.cap with
  | none => w.interval
  | some cap =>
    let doublings := if attempt = 0 then 0 else attempt - 1
    min (timesSat w.interval (powerOfTwo doublings)) cap

/-- The delay after failed attempt number `attempt`, computed in words. -/
def delayAfter (w : WordPlan) (attempt : UInt32) : Option UInt64 :=
  if w.maxAttempts.any (· ≤ attempt) then none else some (w.delay attempt)

theorem capped_plan (w : WordPlan) : w.plan.Capped := by
  intro cap hg
  unfold plan at hg
  dsimp only at hg
  split at hg
  · cases hg
  · rename_i word _
    cases hg
    exact Nat.le_of_lt_succ word.toNat_lt

theorem endsAt_plan (w : WordPlan) (attempt : UInt32) :
    w.plan.endsAt attempt.toNat = w.maxAttempts.any (· ≤ attempt) := by
  unfold plan RetryPlan.endsAt
  cases w.maxAttempts with
  | none => rfl
  | some n => exact decide_eq_decide.mpr UInt32.le_iff_toNat_le.symm

theorem toNat_doublings (attempt : UInt32) :
    (if attempt = 0 then 0 else attempt - 1 : UInt32).toNat = attempt.toNat - 1 := by
  split
  · rename_i hzero
    rw [hzero]
    rfl
  · rename_i hpos
    have hone : (1 : UInt32) ≤ attempt := by
      rw [UInt32.le_iff_toNat_le]
      exact Nat.pos_of_ne_zero fun h => hpos (UInt32.toNat_inj.mp h)
    rw [UInt32.toNat_sub_of_le _ _ hone]
    rfl

theorem toNat_min (x y : UInt64) : (min x y).toNat = min x.toNat y.toNat := by
  rw [Std.min_eq_if, Nat.min_def]
  by_cases hle : x ≤ y
  · rw [if_pos hle, if_pos (UInt64.le_iff_toNat_le.mp hle)]
  · rw [if_neg hle, if_neg fun h => hle (UInt64.le_iff_toNat_le.mpr h)]

theorem toNat_delay (w : WordPlan) (attempt : UInt32) :
    (w.delay attempt).toNat = w.plan.delay attempt.toNat := by
  unfold delay plan RetryPlan.delay
  cases w.cap with
  | none => rfl
  | some cap =>
    dsimp only
    rw [toNat_min, toNat_timesSat, toNat_powerOfTwo, toNat_doublings]
    rfl

/-- **The words compute the plan.** -/
theorem delayAfter_plan (w : WordPlan) (attempt : UInt32) :
    (w.delayAfter attempt).map UInt64.toNat = w.plan.delayAfter attempt.toNat := by
  unfold delayAfter RetryPlan.delayAfter
  rw [endsAt_plan]
  split
  · rfl
  · rw [Option.map_some, toNat_delay]

end WordPlan

/-- **Delays are those of the ideal schedule.**  Take any plan in words and any attempt.  There is
no delay exactly if the plan allows no more attempts than were made; otherwise the delay is that of
the ideal schedule: the interval, or the least of the cap and the interval times a power of two.
The words compute the same.  On the way a shift gives the power itself as long as that fits a word,
and the product saturates exactly where it does not fit; neither of them wraps.  So the delays
never shrink, at most double from one attempt to the next, reach the cap unless the interval is
zero, and stay there. -/
theorem backoff_is_ideal (w : WordPlan) :
    (∀ attempt : UInt32, w.plan.delayAfter attempt.toNat = none ↔
      ∃ n, w.maxAttempts = some n ∧ n ≤ attempt) ∧
    (∀ (attempt : UInt32) (d : Nat), w.plan.delayAfter attempt.toNat = some d →
      d = w.plan.ideal attempt.toNat) ∧
    (∀ attempt : UInt32,
      (w.delayAfter attempt).map UInt64.toNat = w.plan.delayAfter attempt.toNat) ∧
    (∀ places : UInt32, (powerOfTwo places).toNat
      = if places.toNat < 64 then 2 ^ places.toNat else Clock.lastTick) ∧
    (∀ x y : UInt64, (timesSat x y).toNat = min (x.toNat * y.toNat) Clock.lastTick) ∧
    w.plan.Paced := by
  refine ⟨fun attempt => ?_, fun attempt d h => ?_, w.delayAfter_plan, toNat_powerOfTwo,
    toNat_timesSat, RetryPlan.paced w.capped_plan⟩
  · rw [RetryPlan.delayAfter_eq_none_iff]
    constructor
    · rintro ⟨_, hn, hle⟩
      obtain ⟨n, hmax, rfl⟩ := Option.map_eq_some_iff.mp hn
      exact ⟨n, hmax, UInt32.le_iff_toNat_le.mpr hle⟩
    · rintro ⟨n, hmax, hle⟩
      exact ⟨n.toNat, congrArg (Option.map UInt32.toNat) hmax, UInt32.le_iff_toNat_le.mp hle⟩
  · exact RetryPlan.eq_ideal_of_granted w.capped_plan h

/-- Three ticks, doubled 62 times, still fit a word; doubled once more they do not. -/
example : (⟨none, 3, some lastWord⟩ : WordPlan).delayAfter 63 = some 0xC000000000000000 ∧
    (⟨none, 3, some lastWord⟩ : WordPlan).delayAfter 64 = some lastWord ∧
    (⟨none, 0, some 5⟩ : WordPlan).delayAfter 200 = some 0 := by decide

end Uplink
