/-!
# The agenda

Actions that will happen at given instants, gathered into batches.  A batch holds all actions of
one instant, in the order in which they were entered, and an agenda lists its batches in order of
time.

* `Agenda.insert`              enters an action;
* `Agenda.due`, `Agenda.later` cut an agenda at an instant;
* `fire`                       lets actions happen to a world;
* `Agenda.Ordered`             the times of an agenda increase; every operation keeps that.
-/

namespace Uplink

/-- The actions of one instant, in the order in which they were entered. -/
structure Batch (α : Type) where
  time : Nat
  actions : List α

/-- Batches in order of time. -/
abbrev Agenda (α : Type) := List (Batch α)

namespace Agenda

variable {α : Type}

/-- Enters an action behind those of the same instant. -/
def insert (t : Nat) (a : α) : Agenda α → Agenda α
  | [] => [⟨t, [a]⟩]
  | b :: rest =>
    if t < b.time then ⟨t, [a]⟩ :: b :: rest
    else if t = b.time then ⟨t, b.actions ++ [a]⟩ :: rest
    else b :: insert t a rest

def due (now : Nat) (g : Agenda α) : List α :=
  (g.takeWhile (fun b => decide (b.time ≤ now))).flatMap Batch.actions

def later (now : Nat) (g : Agenda α) : Agenda α :=
  g.dropWhile (fun b => decide (b.time ≤ now))

theorem due_cons_of_le {now : Nat} {b : Batch α} (g : Agenda α) (h : b.time ≤ now) :
    due now (b :: g) = b.actions ++ due now g := by simp [due, h]

theorem due_cons_of_lt {now : Nat} {b : Batch α} (g : Agenda α) (h : now < b.time) :
    due now (b :: g) = [] := by simp [due, Nat.not_le.mpr h]

theorem later_cons_of_le {now : Nat} {b : Batch α} (g : Agenda α) (h : b.time ≤ now) :
    later now (b :: g) = later now g := by simp [later, h]

theorem later_cons_of_lt {now : Nat} {b : Batch α} (g : Agenda α) (h : now < b.time) :
    later now (b :: g) = b :: g := by simp [later, Nat.not_le.mpr h]

/-! ## order -/

def Ordered (g : Agenda α) : Prop := g.Pairwise (fun a b => a.time < b.time)

theorem ordered_nil : Ordered ([] : Agenda α) := List.Pairwise.nil

theorem ordered_cons {b : Batch α} {g : Agenda α} :
    Ordered (b :: g) ↔ (∀ c ∈ g, b.time < c.time) ∧ Ordered g := List.pairwise_cons

theorem time_of_mem_insert {t : Nat} {a : α} {g : Agenda α} {c : Batch α}
    (h : c ∈ insert t a g) : c.time = t ∨ ∃ b ∈ g, b.time = c.time := by
  induction g with
  | nil =>
    rw [insert, List.mem_singleton] at h
    exact Or.inl (by rw [h])
  | cons b rest ih =>
    unfold insert at h
    split at h
    · rcases List.mem_cons.mp h with rfl | h
      · exact Or.inl rfl
      · exact Or.inr ⟨c, h, rfl⟩
    · split at h
      · rcases List.mem_cons.mp h with rfl | h
        · exact Or.inl rfl
        · exact Or.inr ⟨c, List.mem_cons_of_mem _ h, rfl⟩
      · rcases List.mem_cons.mp h with rfl | h
        · exact Or.inr ⟨c, List.mem_cons_self, rfl⟩
        · rcases ih h with e | ⟨d, hd, e⟩
          · exact Or.inl e
          · exact Or.inr ⟨d, List.mem_cons_of_mem _ hd, e⟩

theorem insert_ordered (t : Nat) (a : α) {g : Agenda α} (h : Ordered g) :
    Ordered (insert t a g) := by
  induction g with
  | nil => exact List.pairwise_singleton _ _
  | cons b rest ih =>
    obtain ⟨hb, hrest⟩ := ordered_cons.mp h
    unfold insert
    split
    · rename_i hlt
      refine ordered_cons.mpr ⟨fun c hc => ?_, h⟩
      rcases List.mem_cons.mp hc with rfl | hc
      · exact hlt
      · exact Nat.lt_trans hlt (hb c hc)
    · split
      · rename_i heq
        refine ordered_cons.mpr ⟨fun c hc => ?_, hrest⟩
        show t < c.time
        rw [heq]
        exact hb c hc
      · rename_i hge hne
        refine ordered_cons.mpr ⟨fun c hc => ?_, ih hrest⟩
        rcases time_of_mem_insert hc with e | ⟨d, hd, e⟩
        · omega
        · have hd' := hb d hd
          omega

theorem exists_batch_of_mem_due {now : Nat} {g : Agenda α} {a : α} (ha : a ∈ g.due now) :
    ∃ b ∈ g, a ∈ b.actions := by
  obtain ⟨b, hb, hab⟩ := List.mem_flatMap.mp ha
  exact ⟨b, (List.takeWhile_prefix _).subset hb, hab⟩

theorem mem_of_mem_later {now : Nat} {g : Agenda α} {b : Batch α} (hb : b ∈ g.later now) : b ∈ g :=
  (List.dropWhile_suffix _).subset hb

theorem later_ordered (now : Nat) {g : Agenda α} (h : Ordered g) : Ordered (later now g) :=
  List.Pairwise.sublist (List.dropWhile_sublist _) h

theorem lt_of_mem_later {now : Nat} {g : Agenda α} (h : Ordered g) {b : Batch α}
    (hb : b ∈ later now g) : now < b.time := by
  induction g with
  | nil => exact absurd hb List.not_mem_nil
  | cons c rest ih =>
    obtain ⟨hc, hrest⟩ := ordered_cons.mp h
    by_cases hle : c.time ≤ now
    · rw [later_cons_of_le rest hle] at hb
      exact ih hrest hb
    · rw [later_cons_of_lt rest (Nat.lt_of_not_le hle)] at hb
      rcases List.mem_cons.mp hb with rfl | hb
      · exact Nat.lt_of_not_le hle
      · have hlt := hc b hb
        omega

end Agenda

/-! ## actions happen -/

/-- How an action of type `α` changes a world of type `σ` at an instant. -/
class Reactive (α σ : Type) where
  react : Nat → α → σ → σ

section
variable {α σ : Type} [Reactive α σ]

/-- Actions happen one after the other, all at the instant `now`. -/
def fire (now : Nat) (actions : List α) (s : σ) : σ :=
  actions.foldl (fun s a => Reactive.react now a s) s

theorem fire_cons (now : Nat) (a : α) (as : List α) (s : σ) :
    fire now (a :: as) s = fire now as (Reactive.react now a s) := rfl

/-- What every action of a list keeps, the list keeps. -/
theorem fire_induction {P : σ → Prop} (now : Nat) (as : List α) {s : σ} (h : P s)
    (step : ∀ a ∈ as, ∀ s, P s → P (Reactive.react now a s)) : P (fire now as s) := by
  induction as generalizing s with
  | nil => exact h
  | cons a as ih =>
    obtain ⟨ha, has⟩ := List.forall_mem_cons.mp step
    exact ih (ha s h) has

end

end Uplink
