import Mathlib.Data.List.Forall2
import Uplink.Bench.Session

/-!
# Veils

A veil covers part of a world and of the actions that change it, such that what is covered has no
part in what the actions do to the rest.  A routine goes through the veil if it does the same under
it, up to the veil.  A routine that looks under the veil from time to time keeps step with another
as long as what the two see there agrees.

* `Agenda.mapActions`     an agenda with other actions;
* `Veil`                 a veil, over agendas, timelines and results;
* `Veil.Through`         a routine goes through the veil; `Clear.through` for a wait;
* `Reading`              what a routine reads on the way;
* `Veil.Lockstep`        two routines keep step if what they read agrees;
* `Veil.Lockstep.drive`  so do whole sessions.
-/

namespace Uplink

/-! ## agendas with other actions -/

section
variable {α β : Type}

def Batch.map (f : α → β) (b : Batch α) : Batch β := ⟨b.time, b.actions.map f⟩

namespace Agenda

/-- The same instants with the actions replaced one by one. -/
def mapActions (f : α → β) (g : Agenda α) : Agenda β := List.map (Batch.map f) g

variable (f : α → β)

theorem due_mapActions (now : Nat) (g : Agenda α) :
    (g.mapActions f).due now = (g.due now).map f := by
  induction g with
  | nil => rfl
  | cons b g ih =>
    show Agenda.due now (b.map f :: Agenda.mapActions f g) = _
    by_cases hb : b.time ≤ now
    · rw [due_cons_of_le _ hb, due_cons_of_le (b := b.map f) _ hb, ih, List.map_append]
      rfl
    · have hlt := Nat.lt_of_not_le hb
      rw [due_cons_of_lt _ hlt, due_cons_of_lt (b := b.map f) _ hlt]
      rfl

theorem later_mapActions (now : Nat) (g : Agenda α) :
    (g.mapActions f).later now = (g.later now).mapActions f := by
  induction g with
  | nil => rfl
  | cons b g ih =>
    show Agenda.later now (b.map f :: Agenda.mapActions f g) = _
    by_cases hb : b.time ≤ now
    · rw [later_cons_of_le _ hb, later_cons_of_le (b := b.map f) _ hb, ih]
    · have hlt := Nat.lt_of_not_le hb
      rw [later_cons_of_lt _ hlt, later_cons_of_lt (b := b.map f) _ hlt]
      rfl

theorem insert_mapActions (t : Nat) (a : α) (g : Agenda α) :
    (g.mapActions f).insert t (f a) = (g.insert t a).mapActions f := by
  induction g with
  | nil => rfl
  | cons b g ih =>
    show Agenda.insert t (f a) (b.map f :: Agenda.mapActions f g) = _
    unfold Agenda.insert
    show (if t < b.time then _ else if t = b.time then _ else _) = _
    split
    · rfl
    · split
      · show (⟨t, b.actions.map f ++ [f a]⟩ : Batch β) :: Agenda.mapActions f g
          = ⟨t, (b.actions ++ [a]).map f⟩ :: Agenda.mapActions f g
        rw [List.map_append]
        rfl
      · exact congrArg (b.map f :: ·) ih

end Agenda

end

/-! ## veils -/

/-- A map of worlds and actions that goes along with what the actions do. -/
structure Veil (α σ : Type) [Reactive α σ] where
  action : α → α
  world : σ → σ
  react : ∀ t a s, world (Reactive.react t a s) = Reactive.react t (action a) (world s)

namespace Veil

variable {α σ ρ β γ : Type} [Reactive α σ] (v : Veil α σ)

/-! ## agendas and timelines -/

def batch (b : Batch α) : Batch α := ⟨b.time, b.actions.map v.action⟩

def agenda (g : Agenda α) : Agenda α := g.map v.batch

def timeline (tl : Timeline α σ) : Timeline α σ :=
  { tl with agenda := v.agenda tl.agenda, world := v.world tl.world }

def result : EStateM.Result Halt (Timeline α σ) β → EStateM.Result Halt (Timeline α σ) β
  | .ok b tl => .ok b (v.timeline tl)
  | .error e tl => .error e (v.timeline tl)

theorem due_agenda (now : Nat) (g : Agenda α) :
    (v.agenda g).due now = (g.due now).map v.action := g.due_mapActions v.action now

theorem later_agenda (now : Nat) (g : Agenda α) :
    (v.agenda g).later now = v.agenda (g.later now) := g.later_mapActions v.action now

theorem insert_agenda (t : Nat) (a : α) (g : Agenda α) :
    (v.agenda g).insert t (v.action a) = v.agenda (g.insert t a) := g.insert_mapActions v.action t a

theorem world_fire (t : Nat) (as : List α) (s : σ) :
    v.world (fire t as s) = fire t (as.map v.action) (v.world s) := by
  induction as generalizing s with
  | nil => rfl
  | cons a as ih =>
    rw [fire_cons, ih, v.react]
    rfl

theorem timeline_settle (tl : Timeline α σ) : v.timeline tl.settle = (v.timeline tl).settle := by
  unfold Timeline.settle timeline
  dsimp only
  rw [due_agenda, later_agenda, world_fire]

theorem passTo_agenda (goal : Nat) (g : Agenda α) (s : σ) :
    Timeline.passTo goal (v.agenda g) (v.world s)
      = (v.agenda (Timeline.passTo goal g s).1, v.world (Timeline.passTo goal g s).2) := by
  induction g generalizing s with
  | nil => rfl
  | cons b g ih =>
    show Timeline.passTo goal (v.batch b :: v.agenda g) (v.world s) = _
    unfold Timeline.passTo
    show (if b.time ≤ goal then _ else _) = _
    split
    · rw [show (v.batch b).actions = b.actions.map v.action from rfl,
        show (v.batch b).time = b.time from rfl, ← world_fire, ih]
    · rfl

theorem timeline_advance (tl : Timeline α σ) (ticks : Nat) :
    v.timeline (tl.advance ticks) = (v.timeline tl).advance ticks := by
  unfold Timeline.advance
  rw [← timeline_settle]
  dsimp only
  rw [show (v.timeline tl.settle).agenda = v.agenda tl.settle.agenda from rfl,
    show (v.timeline tl.settle).world = v.world tl.settle.world from rfl, passTo_agenda]
  rfl

theorem timeline_schedule (tl : Timeline α σ) (ticks : Nat) (a : α) :
    v.timeline (tl.schedule ticks a) = (v.timeline tl).schedule ticks (v.action a) := by
  show (⟨tl.now, tl.horizon, v.agenda (tl.agenda.insert (Clock.afterSat tl.now ticks) a),
      v.world tl.world⟩ : Timeline α σ)
    = ⟨tl.now, tl.horizon, (v.agenda tl.agenda).insert (Clock.afterSat tl.now ticks) (v.action a),
      v.world tl.world⟩
  rw [insert_agenda]

/-! ## through the veil -/

/-- Under the veil `x'` does what `x` does, up to the veil. -/
def Through (x x' : Routine α σ β) : Prop := ∀ tl, x' (v.timeline tl) = v.result (x tl)

section
variable {v} {x x' : Routine α σ β} {f f' : β → Routine α σ γ}

theorem Through.bind (hx : v.Through x x') (hf : ∀ b, v.Through (f b) (f' b)) :
    v.Through (x >>= f) (x' >>= f') := by
  intro tl
  rw [Routine.bind_apply, Routine.bind_apply, hx tl]
  cases x tl with
  | ok b tl₁ => exact hf b tl₁
  | error e tl₁ => rfl

end

variable {w : Wait σ ρ β}

theorem through_pure (b : β) : v.Through (pure b) (pure b) := fun _ => rfl

theorem through_now : v.Through Routine.now Routine.now := fun _ => rfl

theorem through_halt (e : Halt) : v.Through (Routine.halt e : Routine α σ β) (Routine.halt e) :=
  fun _ => rfl

theorem through_limit (ticks : Nat) : v.Through (Routine.limit ticks) (Routine.limit ticks) :=
  fun _ => rfl

theorem through_act {f f' : Nat → σ → β × σ}
    (hf : ∀ now s, f' now (v.world s) = ((f now s).1, v.world (f now s).2)) :
    v.Through (Routine.act f) (Routine.act f') := by
  intro tl
  rw [Routine.act_apply, Routine.act_apply]
  show EStateM.Result.ok (f' tl.now (v.world tl.world)).1 (⟨tl.now, tl.horizon, v.agenda tl.agenda,
    (f' tl.now (v.world tl.world)).2⟩ : Timeline α σ) = _
  rw [hf]
  rfl

theorem through_change {f : σ → σ} (hf : ∀ s, f (v.world s) = v.world (f s)) :
    v.Through (Routine.change f) (Routine.change f) := by
  intro tl
  rw [Routine.change_apply, Routine.change_apply]
  show EStateM.Result.ok () (⟨_, _, _, f (v.world tl.world)⟩ : Timeline α σ) = _
  rw [hf]
  rfl

/-- What is read of the world goes on under the veil. -/
theorem through_world {f f' : σ → Routine α σ γ}
    (hf : ∀ s, v.Through (f s) (f' (v.world s))) :
    v.Through (Routine.world >>= f) (Routine.world >>= f') := fun tl => hf tl.world tl

theorem through_schedule (ticks : Nat) (a : α) :
    v.Through (Routine.schedule ticks a) (Routine.schedule ticks (v.action a)) := fun tl =>
  congrArg (EStateM.Result.ok ()) (v.timeline_schedule tl ticks a).symm

theorem through_advance (ticks : Nat) :
    v.Through (Routine.advance ticks) (Routine.advance ticks) := fun tl =>
  congrArg (EStateM.Result.ok ()) (v.timeline_advance tl ticks).symm

/-! ### waits -/

/-- What is looked for does not depend on what the veil covers. -/
structure Clear (w : Wait σ ρ β) : Prop where
  look : ∀ t r s, w.look t r (v.world s) = ((w.look t r s).1, v.world (w.look t r s).2)
  expire : ∀ r s, w.expire r (v.world s) = ((w.expire r s).1, v.world (w.expire r s).2)

variable {v}

theorem Clear.ringAt (hw : v.Clear w) (t : Nat) (r : ρ) :
    v.Through (Routine.ringAt w t r) (Routine.ringAt w t r) := by
  intro tl
  unfold Routine.ringAt
  show (if Routine.mayReach tl.horizon t then _ else _) = _
  split
  · rw [show (v.timeline tl).world = v.world tl.world from rfl, hw.expire]
    rfl
  · rfl

/-- Induction on the agenda. -/
theorem Clear.follow (hw : v.Clear w) (ring horizon : Option Nat) (g : Agenda α) (now : Nat) (r : ρ)
    (s : σ) : Routine.follow w ring horizon (v.agenda g) now r (v.world s)
      = v.result (Routine.follow w ring horizon g now r s) := by
  induction g generalizing now r s with
  | nil =>
    show Routine.follow w ring horizon [] now r (v.world s) = _
    unfold Routine.follow
    split
    · rfl
    · exact hw.ringAt _ r ⟨now, horizon, [], s⟩
  | cons b g ih =>
    show Routine.follow w ring horizon (v.batch b :: v.agenda g) now r (v.world s) = _
    rw [Routine.follow, Routine.follow, show (v.batch b).time = b.time from rfl]
    split
    · exact hw.ringAt _ r ⟨now, horizon, b :: g, s⟩
    · split
      · rw [show (v.batch b).actions = b.actions.map v.action from rfl, ← v.world_fire, hw.look]
        rcases w.look b.time r (fire b.time b.actions s) with ⟨found | r', s'⟩
        · rfl
        · dsimp only
          split
          · exact hw.ringAt _ r' ⟨b.time, horizon, g, s'⟩
          · exact ih b.time r' s'
      · rfl

/-- **A wait** goes through the veil. -/
theorem Clear.through (hw : v.Clear w) (deadline : Option Nat) (r : ρ) :
    v.Through (Routine.await w deadline r) (Routine.await w deadline r) := by
  rintro ⟨now, horizon, agenda, s⟩
  unfold Routine.await
  dsimp only [timeline]
  rw [hw.look]
  rcases w.look now r s with ⟨found | r₁, s₁⟩
  · rfl
  · have hsettled : (⟨now, horizon, v.agenda agenda, v.world s₁⟩ : Timeline α σ).settle
        = v.timeline (⟨now, horizon, agenda, s₁⟩ : Timeline α σ).settle :=
      (v.timeline_settle ⟨now, horizon, agenda, s₁⟩).symm
    dsimp only
    rw [hsettled]
    generalize (⟨now, horizon, agenda, s₁⟩ : Timeline α σ).settle = settled
    rw [show (v.timeline settled).world = v.world settled.world from rfl,
      show (v.timeline settled).now = settled.now from rfl, hw.look]
    rcases w.look settled.now r₁ settled.world with ⟨found | r₂, s₂⟩
    · rfl
    · dsimp only
      split
      · exact hw.ringAt _ r₂ { settled with world := s₂ }
      · exact hw.follow _ settled.horizon settled.agenda settled.now r₂ s₂

theorem clear_timer : v.Clear Routine.timer := ⟨fun _ _ _ => rfl, fun _ _ => rfl⟩

theorem through_sleep (ticks : Nat) : v.Through (Routine.sleep ticks) (Routine.sleep ticks) := by
  intro tl
  unfold Routine.sleep
  rw [show (v.timeline tl).now = tl.now from rfl]
  split
  · exact clear_timer.through _ () tl
  · rfl

end Veil

/-! ## what is read on the way -/

/-- What is read, in its order, by somebody who begins at a timeline. -/
abbrev Reading (α σ ω : Type) := Timeline α σ → List ω

namespace Reading

variable {α σ ω β : Type}

def nothing : Reading α σ ω := fun _ => []

/-- What is read once `x` has returned. -/
def after (x : Routine α σ β) (read : β → Reading α σ ω) : Reading α σ ω := fun tl =>
  match x tl with
  | .ok b tl₁ => read b tl₁
  | .error _ _ => []

theorem after_nothing (x : Routine α σ β) :
    after x (fun _ => nothing) = (nothing : Reading α σ ω) := by
  funext tl
  unfold after
  cases x tl <;> rfl

end Reading

/-- What a session reads, given what is read in each of its steps. -/
def Session.reads {α σ τ ρ ι ω : Type} (perform : τ → ι → Routine α σ (τ × ρ)) (clear : σ → σ)
    (read : τ → ι → Reading α σ ω) : τ → List ι → Reading α σ ω
  | _, [] => Reading.nothing
  | t, s :: rest => fun tl => read t s tl ++ Reading.after (perform t s)
      (fun r tl₁ => reads perform clear read r.1 rest { tl₁ with world := clear tl₁.world }) tl

/-- One by one, as far as both lists go, what was read is in the relation. -/
def Agree {ω : Type} (R : ω → ω → Prop) (ws ws' : List ω) : Prop :=
  ∀ p ∈ ws.zip ws', R p.1 p.2

namespace Agree

variable {ω : Type} {R : ω → ω → Prop} {ws ws' us us' : List ω}

theorem left (h : Agree R (ws ++ us) (ws' ++ us')) : Agree R ws ws' := by
  induction ws generalizing ws' with
  | nil => exact fun p hp => nomatch hp
  | cons w ws ih =>
    cases ws' with
    | nil => exact fun p hp => nomatch hp
    | cons w' ws' =>
      have htail : Agree R (ws ++ us) (ws' ++ us') := fun p hp => h p (List.mem_cons_of_mem _ hp)
      exact List.forall_mem_cons.mpr ⟨h (w, w') List.mem_cons_self, ih htail⟩

theorem right (hlen : ws.length = ws'.length) (h : Agree R (ws ++ us) (ws' ++ us')) :
    Agree R us us' := by
  intro p hp
  refine h p ?_
  rw [List.zip_append hlen]
  exact List.mem_append_right _ hp

end Agree

/-! ## keeping step -/

namespace Veil

variable {α σ β γ ω : Type} [Reactive α σ] {v : Veil α σ} {R : ω → ω → Prop}

/-- Begun at timelines that are the same under the veil, and with `R` for what they read, both
routines return the same, or come to the same halt, leave timelines that are the same under the
veil, and have read equally often. -/
def Lockstep (v : Veil α σ) (R : ω → ω → Prop) (x y : Routine α σ β) (a b : Reading α σ ω) : Prop :=
  ∀ tl tl', v.timeline tl = v.timeline tl' → Agree R (a tl) (b tl') →
    v.result (x tl) = v.result (y tl') ∧ (a tl).length = (b tl').length

variable {x y z : Routine α σ β} {f g : β → Routine α σ γ} {a b : Reading α σ ω}
  {c d : β → Reading α σ ω}

/-- What two routines with the same result under the veil come to. -/
theorem cases_of_result_eq {tl tl' : Timeline α σ} (heq : v.result (x tl) = v.result (y tl')) :
    (∃ r tl₁ tl₁', x tl = .ok r tl₁ ∧ y tl' = .ok r tl₁' ∧ v.timeline tl₁ = v.timeline tl₁') ∨
      ∃ e tl₁ tl₁', x tl = .error e tl₁ ∧ y tl' = .error e tl₁' ∧
        v.timeline tl₁ = v.timeline tl₁' := by
  cases hx : x tl with
  | ok r tl₁ =>
    cases hy : y tl' with
    | ok r' tl₁' =>
      rw [hx, hy] at heq
      obtain ⟨rfl, htl⟩ := EStateM.Result.ok.inj heq
      exact Or.inl ⟨r, tl₁, tl₁', rfl, rfl, htl⟩
    | error e tl₁' =>
      rw [hx, hy] at heq
      cases heq
  | error e tl₁ =>
    cases hy : y tl' with
    | ok r tl₁' =>
      rw [hx, hy] at heq
      cases heq
    | error e' tl₁' =>
      rw [hx, hy] at heq
      obtain ⟨rfl, htl⟩ := EStateM.Result.error.inj heq
      exact Or.inr ⟨e, tl₁, tl₁', rfl, rfl, htl⟩

/-- Routines that do the same under the veil have the same result under it. -/
theorem Through.result_eq (hx : v.Through x z) (hy : v.Through y z) {tl tl' : Timeline α σ}
    (heq : v.timeline tl = v.timeline tl') : v.result (x tl) = v.result (y tl') := by
  rw [← hx tl, ← hy tl', heq]

/-- So they keep step, and nothing is read. -/
theorem Through.lockstep (hx : v.Through x z) (hy : v.Through y z) :
    v.Lockstep R x y Reading.nothing Reading.nothing := fun _ _ heq _ =>
  ⟨hx.result_eq hy heq, rfl⟩

theorem Lockstep.bind (hx : v.Lockstep R x y a b)
    (hf : ∀ r, v.Lockstep R (f r) (g r) (c r) (d r)) :
    v.Lockstep R (x >>= f) (y >>= g) (fun tl => a tl ++ Reading.after x c tl)
      (fun tl => b tl ++ Reading.after y d tl) := by
  intro tl tl' heq hagree
  obtain ⟨hresult, hlen⟩ := hx tl tl' heq hagree.left
  have hlater := hagree.right hlen
  rw [Routine.bind_apply, Routine.bind_apply, List.length_append, List.length_append, hlen]
  unfold Reading.after at hlater ⊢
  obtain ⟨r, tl₁, tl₁', hx', hy', heq₁⟩ | ⟨e, tl₁, tl₁', hx', hy', heq₁⟩ :=
    cases_of_result_eq hresult
  · rw [hx', hy'] at hlater ⊢
    obtain ⟨hresult₁, hlen₁⟩ := hf r tl₁ tl₁' heq₁ hlater
    exact ⟨hresult₁, congrArg _ hlen₁⟩
  · rw [hx', hy']
    exact ⟨congrArg (EStateM.Result.error e) heq₁, rfl⟩

/-- What comes first may read nothing. -/
theorem Lockstep.first (hx : v.Lockstep R x y Reading.nothing Reading.nothing)
    (hf : ∀ r, v.Lockstep R (f r) (g r) (c r) (d r)) :
    v.Lockstep R (x >>= f) (y >>= g) (Reading.after x c) (Reading.after y d) := hx.bind hf

/-- What comes last may read nothing. -/
theorem Lockstep.last (hx : v.Lockstep R x y a b)
    (hf : ∀ r, v.Lockstep R (f r) (g r) Reading.nothing Reading.nothing) :
    v.Lockstep R (x >>= f) (y >>= g) a b := by
  have hboth := hx.bind hf
  simp only [Reading.after_nothing] at hboth
  simpa [Reading.nothing] using hboth

/-! ### sessions -/

section
variable {ι τ ρ : Type} {perform : τ → ι → Routine α σ (τ × ρ)} {clear : σ → σ}
  {read : τ → ι → Reading α σ ω}

/-- **Sessions keep step** if every step does. -/
theorem Lockstep.drive {Same : ι → ι → Prop}
    (hperform : ∀ t s s', Same s s' →
      v.Lockstep R (perform t s) (perform t s') (read t s) (read t s'))
    (hclear : ∀ s, clear (v.world s) = v.world (clear s)) {ss ss' : List ι}
    (hss : List.Forall₂ Same ss ss') (t : τ) {tl tl' : Timeline α σ}
    (heq : v.timeline tl = v.timeline tl')
    (hagree : Agree R (Session.reads perform clear read t ss tl)
      (Session.reads perform clear read t ss' tl')) :
    List.Forall₂ (fun e e' => e.outcome = e'.outcome ∧ v.timeline e.after = v.timeline e'.after)
      (Session.drive perform clear t tl ss).1 (Session.drive perform clear t tl' ss').1 := by
  induction hss generalizing t tl tl' with
  | nil => exact .nil
  | @cons s s' ss ss' hs _ ih =>
    obtain ⟨hresult, hlen⟩ := hperform t s s' hs tl tl' heq hagree.left
    have hlater := hagree.right hlen
    unfold Reading.after at hlater
    unfold Session.drive
    obtain ⟨r, tl₁, tl₁', hx, hy, heq₁⟩ | ⟨e, tl₁, tl₁', hx, hy, heq₁⟩ :=
      cases_of_result_eq hresult
    · rw [hx, hy] at hlater ⊢
      refine .cons ⟨rfl, heq₁⟩ (ih r.1 ?_ hlater)
      have hcleared := congrArg (fun tl : Timeline α σ => { tl with world := clear tl.world }) heq₁
      simp only [timeline, hclear] at hcleared ⊢
      exact hcleared
    · rw [hx, hy]
      exact .cons ⟨rfl, heq₁⟩ .nil

end

end Veil

end Uplink
