import Uplink.Routine

/-!
# How a routine ends

A routine returns a value or comes to a halt, and either way it leaves a timeline.

* `Routine.Ends`         what holds at the end: one condition for a return and one for a halt;
* `Routine.ends_bind`    of two routines in a row, the second starts where the first returns;
* `Routine.await_over`   a wait: what every look and every action keeps holds at its end;
* `Routine.await_agenda` what happens during a wait is a first part of the agenda.

The conditions of a wait come in two forms, `I` before a look and `J` after a look that goes on.
Both are told which actions have happened since the wait began.
-/

namespace Uplink.Routine

variable {α σ ρ β γ : Type}

def Ended (Q : β → Timeline α σ → Prop) (E : Timeline α σ → Prop) :
    EStateM.Result Halt (Timeline α σ) β → Prop
  | .ok b tl => Q b tl
  | .error _ tl => E tl

/-- The routine `x`, started on `tl`, returns such that `Q` or comes to a halt such that `E`. -/
def Ends (x : Routine α σ β) (tl : Timeline α σ) (Q : β → Timeline α σ → Prop)
    (E : Timeline α σ → Prop) : Prop :=
  Ended Q E (x tl)

theorem Ended.imp {Q Q' : β → Timeline α σ → Prop} {E E' : Timeline α σ → Prop}
    {result : EStateM.Result Halt (Timeline α σ) β} (h : Ended Q E result)
    (hQ : ∀ b tl, Q b tl → Q' b tl) (hE : ∀ tl, E tl → E' tl) : Ended Q' E' result := by
  cases result with
  | ok b tl => exact hQ b tl h
  | error e tl => exact hE tl h

section
variable {x : Routine α σ β} {tl tl' : Timeline α σ} {Q : β → Timeline α σ → Prop}
  {E : Timeline α σ → Prop}

theorem Ends.of_ok (h : x.Ends tl Q E) {b : β} (hx : x tl = .ok b tl') : Q b tl' := by
  unfold Ends at h
  rw [hx] at h
  exact h

theorem Ends.of_error (h : x.Ends tl Q E) {e : Halt} (hx : x tl = .error e tl') : E tl' := by
  unfold Ends at h
  rw [hx] at h
  exact h

theorem ends_of_ok {b : β} (hx : x tl = .ok b tl') : x.Ends tl Q E ↔ Q b tl' := by
  unfold Ends
  rw [hx]
  exact Iff.rfl

/-- A routine that cannot come to a halt returns. -/
theorem Ends.exists_ok (h : x.Ends tl Q fun _ => False) : ∃ b tl', x tl = .ok b tl' ∧ Q b tl' := by
  unfold Ends at h
  cases hx : x tl with
  | ok b tl' =>
    rw [hx] at h
    exact ⟨b, tl', rfl, h⟩
  | error e tl' =>
    rw [hx] at h
    exact h.elim

theorem Ends.imp {Q' : β → Timeline α σ → Prop} {E' : Timeline α σ → Prop} (h : x.Ends tl Q E)
    (hQ : ∀ b tl', Q b tl' → Q' b tl') (hE : ∀ tl', E tl' → E' tl') : x.Ends tl Q' E' :=
  Ended.imp h hQ hE

theorem Ends.and {Q' : β → Timeline α σ → Prop} {E' : Timeline α σ → Prop} (h : x.Ends tl Q E)
    (h' : x.Ends tl Q' E') : x.Ends tl (fun b tl' => Q b tl' ∧ Q' b tl') fun tl' => E tl' ∧ E' tl' := by
  unfold Ends at h h' ⊢
  cases hx : x tl with
  | ok b tl' =>
    rw [hx] at h h'
    exact ⟨h, h'⟩
  | error e tl' =>
    rw [hx] at h h'
    exact ⟨h, h'⟩

/-- How a routine ends can be told by what it returns. -/
theorem ends_self (x : Routine α σ β) (tl : Timeline α σ) :
    x.Ends tl (fun b tl' => x tl = .ok b tl') fun tl' => ∃ e, x tl = .error e tl' := by
  unfold Ends
  cases hx : x tl with
  | ok b tl' => exact rfl
  | error e tl' => exact ⟨e, rfl⟩

theorem ends_pure {b : β} (h : Q b tl) : (pure b : Routine α σ β).Ends tl Q E := h

theorem ends_halt {e : Halt} (h : E tl) : (halt e : Routine α σ β).Ends tl Q E := h

theorem ends_act {f : Nat → σ → β × σ}
    (h : Q (f tl.now tl.world).1 { tl with world := (f tl.now tl.world).2 }) :
    (act f : Routine α σ β).Ends tl Q E := h

theorem ends_bind {f : β → Routine α σ γ} {Q : γ → Timeline α σ → Prop} :
    (x >>= f).Ends tl Q E ↔ x.Ends tl (fun b tl' => (f b).Ends tl' Q E) E := by
  unfold Ends
  rw [bind_apply]
  cases x tl <;> rfl

theorem ends_world_bind {f : σ → Routine α σ β} :
    (world >>= f).Ends tl Q E ↔ (f tl.world).Ends tl Q E := Iff.rfl

end

/-- What the last part of a routine ensures, whatever the first one does. -/
theorem ends_bind_last {x : Routine α σ β} {f : β → Routine α σ γ} {tl : Timeline α σ}
    {Q : γ → Timeline α σ → Prop} (hf : ∀ b tl', (f b).Ends tl' Q fun _ => True) :
    (x >>= f).Ends tl Q fun _ => True := by
  refine ends_bind.mpr ?_
  show Ended _ _ (x tl)
  cases x tl with
  | ok b tl' => exact hf b tl'
  | error e tl' => trivial

theorem bind_eq_ok {x : Routine α σ β} {f : β → Routine α σ γ} {tl tl' : Timeline α σ} {c : γ} :
    (x >>= f) tl = .ok c tl' ↔ ∃ b tl₁, x tl = .ok b tl₁ ∧ f b tl₁ = .ok c tl' := by
  rw [bind_apply]
  constructor
  · intro h
    cases hx : x tl with
    | ok b tl₁ =>
      rw [hx] at h
      exact ⟨b, tl₁, rfl, h⟩
    | error e tl₁ =>
      rw [hx] at h
      cases h
  · intro hend
    obtain ⟨b, tl₁, hx, hf⟩ := hend
    rw [hx]
    exact hf

/-- What a routine returned, if it did. -/
def value? : EStateM.Result Halt (Timeline α σ) β → Option β
  | .ok b _ => some b
  | .error _ _ => none

theorem value?_eq_some_iff {result : EStateM.Result Halt (Timeline α σ) β} {b : β} :
    value? result = some b ↔ ∃ tl, result = .ok b tl := by
  cases result with
  | ok c tl =>
    constructor
    · intro h
      cases h
      exact ⟨tl, rfl⟩
    · rintro ⟨_, h⟩
      cases h
      rfl
  | error e tl =>
    constructor
    · intro h
      cases h
    · rintro ⟨_, h⟩
      cases h

/-! ## waits -/

def actionsOf (batches : List (Batch α)) : List α := batches.flatMap Batch.actions

theorem actionsOf_cons (b : Batch α) (batches : List (Batch α)) :
    actionsOf (b :: batches) = b.actions ++ actionsOf batches := List.flatMap_cons

theorem actionsOf_concat (batches : List (Batch α)) (b : Batch α) :
    actionsOf (batches ++ [b]) = actionsOf batches ++ b.actions := by
  rw [actionsOf, List.flatMap_append, List.flatMap_cons, List.flatMap_nil, List.append_nil]
  rfl

theorem due_later (now : Nat) (g : Agenda α) :
    ∃ passed, g = passed ++ g.later now ∧ g.due now = actionsOf passed :=
  ⟨g.takeWhile (fun b => decide (b.time ≤ now)), List.takeWhile_append_dropWhile.symm, rfl⟩

/-- `C` holds of the actions that have happened, `past` and a first part of the agenda `g`, and of
the world; the rest of the agenda is still to come. -/
def Passed (g : Agenda α) (past : List α) (C : List α → σ → Prop) (tl : Timeline α σ) : Prop :=
  ∃ passed, g = passed ++ tl.agenda ∧ C (past ++ actionsOf passed) tl.world

/-- The end of a wait with the agenda `g` before it, after the actions of `past`. -/
def Over (Q : List α → β → σ → Prop) (J : List α → ρ → σ → Prop) (g : Agenda α) (past : List α) :
    EStateM.Result Halt (Timeline α σ) β → Prop :=
  Ended (fun v => Passed g past fun as s => Q as v s) (Passed g past fun as s => ∃ r, J as r s)

section
variable {w : Wait σ ρ β} {I J : List α → ρ → σ → Prop} {Q : List α → β → σ → Prop}
  {g : Agenda α} {past : List α}

theorem passed_here {C : List α → σ → Prop} {tl : Timeline α σ} (hg : tl.agenda = g)
    (h : C past tl.world) : Passed g past C tl := by
  refine ⟨[], hg.symm, ?_⟩
  rw [actionsOf, List.flatMap_nil, List.append_nil]
  exact h

theorem over_ok {tl : Timeline α σ} {v : β} (hg : tl.agenda = g) (h : Q past v tl.world) :
    Over Q J g past (.ok v tl) := passed_here (C := fun as s => Q as v s) hg h

theorem over_error {tl : Timeline α σ} {e : Halt} {r : ρ} (hg : tl.agenda = g)
    (h : J past r tl.world) : Over Q J g past (.error e tl) :=
  passed_here (C := fun as s => ∃ r, J as r s) hg ⟨r, h⟩

theorem Over.prepend {result : EStateM.Result Halt (Timeline α σ) β} {passed : List (Batch α)}
    (h : Over Q J g (past ++ actionsOf passed) result) : Over Q J (passed ++ g) past result := by
  have hback : ∀ {C : List α → σ → Prop} {tl : Timeline α σ},
      Passed g (past ++ actionsOf passed) C tl → Passed (passed ++ g) past C tl := by
    intro C tl hend
    obtain ⟨further, hg, hC⟩ := hend
    refine ⟨passed ++ further, by rw [hg, List.append_assoc], ?_⟩
    rw [actionsOf, List.flatMap_append, ← List.append_assoc]
    exact hC
  exact h.imp (fun _ _ => hback) fun _ => hback

theorem Over.cons {result : EStateM.Result Halt (Timeline α σ) β} {b : Batch α}
    (h : Over Q J g (past ++ b.actions) result) : Over Q J (b :: g) past result := by
  have hb : actionsOf [b] = b.actions := List.append_nil _
  rw [← hb] at h
  exact h.prepend

/-- The end of a wait, told without what has happened. -/
theorem Over.ended {result : EStateM.Result Halt (Timeline α σ) β} {Q' : β → σ → Prop}
    {E : σ → Prop} (h : Over Q J g past result) (hQ : ∀ as v s, Q as v s → Q' v s)
    (hJ : ∀ as r s, J as r s → E s) :
    Ended (fun v tl' => Q' v tl'.world) (fun tl' => E tl'.world) result := by
  refine h.imp ?_ ?_
  · intro v tl' hpassed
    obtain ⟨passed, _, hq⟩ := hpassed
    exact hQ _ v _ hq
  · intro tl' hpassed
    obtain ⟨passed, _, r, hj⟩ := hpassed
    exact hJ _ r _ hj

/-- What a look finds: `Q` if it is done, and `J` if it goes on. -/
def Looked (Q : β → σ → Prop) (J : ρ → σ → Prop) : Look ρ β × σ → Prop
  | (.done v, s) => Q v s
  | (.pending r, s) => J r s

def Looks (w : Wait σ ρ β) (I J : List α → ρ → σ → Prop) (Q : List α → β → σ → Prop) : Prop :=
  ∀ past t r s, I past r s → Looked (Q past) (J past) (w.look t r s)

def Expires (w : Wait σ ρ β) (J : List α → ρ → σ → Prop) (Q : List α → β → σ → Prop) : Prop :=
  ∀ past r s, J past r s → Q past (w.expire r s).1 (w.expire r s).2

theorem ringAt_over {t now : Nat} {horizon : Option Nat} {r : ρ} {s : σ}
    (hexpire : Expires w J Q) (h : J past r s) :
    Over Q J g past (ringAt w t r ⟨now, horizon, g, s⟩) := by
  unfold ringAt
  split
  · exact over_ok rfl (hexpire past r s h)
  · exact over_error rfl h

variable [Reactive α σ]

/-- What a look that goes on leaves becomes, by further actions, what the next look needs. -/
def Fires (I J : List α → ρ → σ → Prop) : Prop :=
  ∀ past r s t as, J past r s → I (past ++ as) r (fire t as s)

/-- Induction on the agenda: each batch that happens is one more look. -/
theorem follow_over {ring horizon : Option Nat} (hlook : Looks w I J Q) (hfire : Fires I J)
    (hexpire : Expires w J Q) (g : Agenda α) {now : Nat} {r : ρ} {s : σ} {past : List α}
    (h : J past r s) : Over Q J g past (follow w ring horizon g now r s) := by
  induction g generalizing now r s past with
  | nil =>
    cases ring with
    | none => exact over_error rfl h
    | some t => exact ringAt_over hexpire h
  | cons b rest ih =>
    rw [follow]
    cases ring.filter (· < b.time) with
    | some t => exact ringAt_over hexpire h
    | none =>
      dsimp only
      have hl := hlook (past ++ b.actions) b.time r _ (hfire past r s b.time b.actions h)
      split
      · rcases hw : w.look b.time r (fire b.time b.actions s) with ⟨v | r', s'⟩
        · rw [hw] at hl
          refine Over.cons ?_
          exact over_ok rfl hl
        · rw [hw] at hl
          dsimp only
          split
          · exact (ringAt_over hexpire hl).cons
          · exact (ih hl).cons
      · exact over_error rfl h

/-- **The end of a wait.**  What has happened is the first part of the agenda. -/
theorem await_over {deadline : Option Nat} {r : ρ} {tl : Timeline α σ} (hlook : Looks w I J Q)
    (hfire : Fires I J) (hexpire : Expires w J Q) (h : I [] r tl.world) :
    Over Q J tl.agenda [] (await w deadline r tl) := by
  unfold await
  have hfirst := hlook [] tl.now r tl.world h
  rcases hw : w.look tl.now r tl.world with ⟨v | r₁, s⟩
  · rw [hw] at hfirst
    exact over_ok rfl hfirst
  rw [hw] at hfirst
  have hsecond := hlook _ tl.now r₁ _ (hfire [] r₁ s tl.now (tl.agenda.due tl.now) hfirst)
  obtain ⟨due, hg, hdue⟩ := due_later tl.now tl.agenda
  -- the overdue batches happen first, then the others
  have hback : ∀ {result : EStateM.Result Halt (Timeline α σ) β},
      Over Q J (tl.agenda.later tl.now) ([] ++ tl.agenda.due tl.now) result →
        Over Q J tl.agenda [] result := by
    intro result hrest
    rw [hdue] at hrest
    rw [hg]
    exact hrest.prepend
  dsimp only [Timeline.settle]
  rcases hw' : w.look tl.now r₁ (fire tl.now (tl.agenda.due tl.now) s) with ⟨v | r₂, s'⟩
  · rw [hw'] at hsecond
    exact hback (over_ok (Q := Q) rfl hsecond)
  · rw [hw'] at hsecond
    dsimp only
    split
    · exact hback (ringAt_over hexpire hsecond)
    · exact hback (follow_over hlook hfire hexpire _ hsecond)

theorem await_agenda (w : Wait σ ρ β) (deadline : Option Nat) (r : ρ) (tl : Timeline α σ) :
    (await w deadline r).Ends tl (fun _ tl' => ∃ passed, tl.agenda = passed ++ tl'.agenda)
      fun tl' => ∃ passed, tl.agenda = passed ++ tl'.agenda := by
  have hover : Over (fun _ (_ : β) _ => True) (fun _ (_ : ρ) _ => True) tl.agenda []
      (await w deadline r tl) := by
    refine await_over (I := fun _ _ _ => True) ?_ (fun _ _ _ _ _ _ => trivial)
      (fun _ _ _ _ => trivial) trivial
    intro _ t r s _
    rcases w.look t r s with ⟨v | r', s'⟩ <;> trivial
  refine hover.imp ?_ ?_
  · intro _ tl' h
    obtain ⟨passed, hg, _⟩ := h
    exact ⟨passed, hg⟩
  · intro tl' h
    obtain ⟨passed, hg, _⟩ := h
    exact ⟨passed, hg⟩

theorem await_ordered (w : Wait σ ρ β) (deadline : Option Nat) (r : ρ) {tl : Timeline α σ}
    (h : tl.agenda.Ordered) :
    (await w deadline r).Ends tl (fun _ tl' => tl'.agenda.Ordered) fun tl' => tl'.agenda.Ordered := by
  have hrest : ∀ tl' : Timeline α σ, (∃ passed, tl.agenda = passed ++ tl'.agenda) →
      tl'.agenda.Ordered := by
    intro tl' hsplit
    obtain ⟨passed, hg⟩ := hsplit
    rw [Agenda.Ordered, hg] at h
    exact (List.pairwise_append.mp h).2.1
  exact (await_agenda w deadline r tl).imp (fun _ => hrest) hrest

end

end Uplink.Routine
