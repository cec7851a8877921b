import Uplink.Proofs.CycleWork
import Uplink.Proofs.Reconnects

/-!
# Chronicles of a manager

A manager waits at its gate, establishes itself, again after a failure, and from then on makes
cycles.  In between others act and time passes.  A chronicle tells everything that happens
meanwhile, from the trace, turn by turn.

* `Stage`, `Turn`           how far a manager has come, and what it may do next;
* `Chronicle`               the chronicles of a manager, with all that has happened;
* `Told`                    a chronicle that goes on, or one whose last turn came to a halt;
* `Chronicle.preserves`,
  `Told.preserves`          what every turn keeps, a chronicle keeps;
* `Turn.narrated`,
  `Turn.idles`              of the turns of the manager the trace tells all, in the others it idles;
* `Chronicle.trace_eq`,
  `Told.trace_eq`           all that was written to the trace is told;
* `Manager.tells_start`,
  `Manager.tells_run`       a start and a whole run are told.
-/

namespace Uplink

open Host HostRoutine

/-! ## what happened -/

/-- What happened between two moments, as the trace tells. -/
def happened (tl tl' : Timeline Action Host) : List Happening :=
  happenings tl.world.surroundings (written tl tl')

/-- From `tl` to `tl'` the trace tells what became of the surroundings. -/
def Timeline.Leads (tl tl' : Timeline Action Host) : Prop := ∃ ds, Does ds tl.world tl'.world

section
variable {tl tl₁ tl' : Timeline Action Host} {ds : List Deed}

theorem Host.Replays.happened {entries : List TraceEntry}
    (h : Replays entries tl.world tl'.world) :
    happened tl tl' = happenings tl.world.surroundings entries := by
  unfold Uplink.happened
  rw [written_eq h.trace_eq]

theorem Host.Does.deeds (h : Does ds tl.world tl'.world) : deedsOf (happened tl tl') = ds := by
  obtain ⟨entries, hr, hds⟩ := h
  rw [hr.happened, hds]

theorem happened_trans (ha : tl.Leads tl₁) (hb : tl₁.Leads tl') :
    happened tl tl' = happened tl tl₁ ++ happened tl₁ tl' := by
  obtain ⟨_, as, has, _⟩ := ha
  obtain ⟨_, bs, hbs, _⟩ := hb
  rw [has.happened, hbs.happened, (has.trans hbs).happened, happenings_append, has.surroundings_eq]

theorem Timeline.Leads.trans (ha : tl.Leads tl₁) (hb : tl₁.Leads tl') : tl.Leads tl' := by
  obtain ⟨_, ha⟩ := ha
  obtain ⟨_, hb⟩ := hb
  exact ⟨_, ha.trans hb⟩

theorem entries_happened (tl tl' : Timeline Action Host) :
    (happened tl tl').map Happening.entry = written tl tl' := entries_happenings _ _

theorem Timeline.Leads.trace_eq (h : tl.Leads tl') :
    tl'.world.trace.toList = tl.world.trace.toList ++ written tl tl' := by
  obtain ⟨_, entries, hr, _⟩ := h
  rw [written_eq hr.trace_eq]
  exact hr.trace_eq

theorem works_happened (tl tl' : Timeline Action Host) :
    (deedsOf (happened tl tl')).map Deed.work = worksIn (written tl tl') := works_deedsOf _ _

theorem happened_self (tl : Timeline Action Host) : happened tl tl = [] := by
  rw [Host.Replays.happened ⟨(List.append_nil _).symm, rfl⟩]
  rfl

end

/-! ## turns -/

/-- How far a manager has come. -/
inductive Stage where
  /-- It has not passed its gate yet. -/
  | outside
  /-- It tries to establish itself. -/
  | starting
  /-- It is established, and has not made a cycle yet. -/
  | established
  | serving
  deriving DecidableEq

/-- The manager has succeeded to establish itself. -/
def Stage.IsUp (s : Stage) : Prop := s = established ∨ s = serving

/-- The stage of a manager that has tried to establish itself. -/
def Stage.after (outcome : Except StartFault Unit) : Stage :=
  if outcome = .ok () then .established else .starting

/-- One turn: others act, time passes, or the manager does something. -/
inductive Turn where
  | others (step : HostStep)
  | note (e : LogEntry)
  | sleep (ticks : Nat)
  | awaitStack
  | establish (rounds : Nat)
  | cycle
  | mirror
  | reconcile
  | renew

namespace Turn

/-- When it may be the turn. -/
def MayTake (s : Stage) : Turn → Prop
  | awaitStack => s = .outside ∨ s = .starting
  | establish _ => s = .starting
  | cycle | mirror | reconcile | renew => s.IsUp
  | _ => True

def perform (s : Stage) (m : Manager) : Turn → HostRoutine (Stage × Manager)
  | others step => do
    let _ ← step.perform
    return (s, m)
  | note e => do
    HostRoutine.note e
    return (s, m)
  | sleep ticks => do
    Routine.sleep ticks
    return (s, m)
  | awaitStack => do
    Manager.awaitStack
    return (.starting, m)
  | establish rounds => do
    let r ← m.establish rounds
    return (Stage.after r.2, r.1)
  | cycle => do
    let r ← m.cycle
    return (.serving, r.1)
  | mirror => do
    let r ← Routine.act m.mirrorStatus
    return (s, r.1)
  | reconcile => do
    let r ← Routine.act m.reconcileAddress
    return (s, r.1)
  | renew => do
    let r ← m.renew
    return (s, r.1)

end Turn

/-! ## chronicles -/

/-- The chronicles of the manager `m₀`, begun at the stage `s₀` on the timeline `tl₀`. -/
inductive Chronicle (s₀ : Stage) (m₀ : Manager) (tl₀ : Timeline Action Host) :
    Stage → List Happening → Manager → Timeline Action Host → Prop
  | begin : Chronicle s₀ m₀ tl₀ s₀ [] m₀ tl₀
  | turn {s s' : Stage} {xs : List Happening} {m m' : Manager} {tl tl' : Timeline Action Host}
    (t : Turn) : Chronicle s₀ m₀ tl₀ s xs m tl → t.MayTake s →
    t.perform s m tl = .ok (s', m') tl' → Chronicle s₀ m₀ tl₀ s' (xs ++ happened tl tl') m' tl'

/-- What a chronicle has told by the moment `tl`.  A turn that came to a halt is the last one. -/
inductive Told (s₀ : Stage) (m₀ : Manager) (tl₀ : Timeline Action Host) :
    List Happening → Timeline Action Host → Prop
  | goesOn {s : Stage} {xs : List Happening} {m : Manager} {tl : Timeline Action Host} :
    Chronicle s₀ m₀ tl₀ s xs m tl → Told s₀ m₀ tl₀ xs tl
  | halted {s : Stage} {xs : List Happening} {m : Manager} {tl tl' : Timeline Action Host}
    {e : Halt} (t : Turn) : Chronicle s₀ m₀ tl₀ s xs m tl → t.MayTake s →
    t.perform s m tl = .error e tl' → Told s₀ m₀ tl₀ (xs ++ happened tl tl') tl'

section
variable {s₀ s : Stage} {m₀ m : Manager} {tl₀ tl tl' : Timeline Action Host}
  {xs : List Happening}

theorem Chronicle.performs (ch : Chronicle s₀ m₀ tl₀ s xs m tl) (t : Turn) (ht : t.MayTake s) :
    (t.perform s m).Ends tl
      (fun r tl' => Chronicle s₀ m₀ tl₀ r.1 (xs ++ happened tl tl') r.2 tl')
      fun tl' => Told s₀ m₀ tl₀ (xs ++ happened tl tl') tl' := by
  unfold Routine.Ends
  cases hp : t.perform s m tl with
  | ok r tl' => exact ch.turn t ht hp
  | error e tl' => exact .halted t ch ht hp

/-- What a turn keeps: `I` if it returns, and `E` if it comes to a halt. -/
def Keeps (I : Stage → List Happening → Manager → Timeline Action Host → Prop)
    (E : List Happening → Timeline Action Host → Prop) : Prop :=
  ∀ s xs m tl (t : Turn), I s xs m tl → t.MayTake s →
    (t.perform s m).Ends tl (fun r tl' => I r.1 (xs ++ happened tl tl') r.2 tl')
      fun tl' => E (xs ++ happened tl tl') tl'

variable {I : Stage → List Happening → Manager → Timeline Action Host → Prop}
  {E : List Happening → Timeline Action Host → Prop}

/-- **What every turn keeps holds at every moment**: induction on the chronicle. -/
theorem Chronicle.preserves (ch : Chronicle s₀ m₀ tl₀ s xs m tl) (hI : I s₀ [] m₀ tl₀)
    (hkeeps : Keeps I E) : I s xs m tl := by
  induction ch with
  | begin => exact hI
  | turn t _ ht hp ih => exact (hkeeps _ _ _ _ t ih ht).of_ok hp

theorem Told.preserves (told : Told s₀ m₀ tl₀ xs tl) (hI : I s₀ [] m₀ tl₀) (hkeeps : Keeps I E)
    (hE : ∀ s xs m tl, I s xs m tl → E xs tl) : E xs tl := by
  cases told with
  | goesOn ch => exact hE _ _ _ _ (ch.preserves hI hkeeps)
  | halted t ch ht hp => exact (hkeeps _ _ _ _ t (ch.preserves hI hkeeps) ht).of_error hp

end

/-! ## turns in the trace -/

namespace HostRoutine

variable {β γ : Type} {x : HostRoutine β} {f : β → HostRoutine γ}

/-- Whether the routine returns or comes to a halt, the trace tells what it did. -/
def Narrated (x : HostRoutine β) : Prop :=
  ∀ tl, x.Ends tl (fun _ tl' => tl.Leads tl') fun tl' => tl.Leads tl'

theorem Works.narrated {R : β → List Deed → Prop} {E : List Deed → Prop} (hx : Works x R E) :
    Narrated x := by
  intro tl
  refine (hx tl).imp ?_ ?_
  · rintro _ tl' ⟨ds, hd, _⟩
    exact ⟨ds, hd⟩
  · rintro tl' ⟨ds, hd, _⟩
    exact ⟨ds, hd⟩

theorem Narrated.bind (hx : Narrated x) (hf : ∀ b, Narrated (f b)) : Narrated (x >>= f) := by
  intro tl
  refine Routine.ends_bind.mpr ((hx tl).imp ?_ fun _ h => h)
  intro b tl₁ h
  exact (hf b tl₁).imp (fun _ _ => h.trans) fun _ => h.trans

theorem narrated_act {g : Nat → Host → β × Host} (hg : ∀ now h, ∃ ds, Does ds h (g now h).2) :
    Narrated (Routine.act g) := fun tl => Routine.ends_act (hg tl.now tl.world)

theorem narrated_pure (b : β) : Narrated (pure b : HostRoutine β) := (passes_pure b).narrated

end HostRoutine

namespace Manager

variable (m : Manager)

theorem narrated_associateIfNeeded : Narrated m.associateIfNeeded := by
  intro tl
  refine (m.associateIfNeeded_does tl).imp ?_ ?_
  · rintro _ tl' (⟨_, _, ds, hd, _⟩ | ⟨_, _, hd⟩)
    · exact ⟨ds, hd⟩
    · exact ⟨[], hd⟩
  · rintro tl' ⟨_, ds, hd, _⟩
    exact ⟨ds, hd⟩

theorem narrated_renew : Narrated m.renew := by
  intro tl
  refine (m.renew_does tl).imp ?_ ?_
  · rintro _ tl' ⟨_, _, ds, hd, _⟩
    exact ⟨ds, hd⟩
  · rintro tl' ⟨ds, hd, _⟩
    exact ⟨ds, hd⟩

theorem narrated_mirror : Narrated (Routine.act m.mirrorStatus) :=
  narrated_act fun now h => ⟨_, m.does_mirrorStatus now h⟩

theorem narrated_reconcile : Narrated (Routine.act m.reconcileAddress) :=
  narrated_act fun now h => ⟨_, m.does_reconcile now h⟩

theorem narrated_renewIfAsked (events : EventSet) : Narrated (m.renewIfAsked events) := by
  unfold renewIfAsked
  split
  · refine m.narrated_renew.bind fun r => ?_
    exact (passes_recordAttempt _ _).narrated.bind fun _ => narrated_pure _
  · exact narrated_pure _

theorem narrated_tend (events : EventSet) : Narrated (m.tend events) := by
  have hadjust : Narrated (Routine.act m.adjust) :=
    narrated_act fun now h => ⟨_, m.does_adjust now h⟩
  unfold tend
  split
  · exact (passes_note _).narrated.bind fun _ => hadjust
  · exact hadjust

theorem narrated_cycle : Narrated m.cycle := by
  rw [cycle_eq_parts]
  refine m.narrated_associateIfNeeded.bind fun r => ?_
  refine (idles_awaitAny _ _).narrated.bind fun events => ?_
  refine (r.1.narrated_tend events).bind fun adjusted => ?_
  exact (adjusted.1.narrated_renewIfAsked events).bind fun _ => narrated_pure _

end Manager

/-- Of every turn of the manager the trace tells what it did. -/
theorem Turn.narrated {t : Turn} (ht : ∀ step, t ≠ .others step) (s : Stage) (m : Manager) :
    Narrated (t.perform s m) := by
  cases t with
  | others step => exact absurd rfl (ht step)
  | note e => exact (passes_note e).narrated.bind fun _ => narrated_pure _
  | sleep ticks => exact (idles_sleep ticks).narrated.bind fun _ => narrated_pure _
  | awaitStack => exact Manager.idles_awaitStack.narrated.bind fun _ => narrated_pure _
  | establish rounds => exact (m.works_establish rounds).narrated.bind fun _ => narrated_pure _
  | cycle => exact m.narrated_cycle.bind fun _ => narrated_pure _
  | mirror => exact m.narrated_mirror.bind fun _ => narrated_pure _
  | reconcile => exact m.narrated_reconcile.bind fun _ => narrated_pure _
  | renew => exact m.narrated_renew.bind fun _ => narrated_pure _

theorem acquiring_fire (t : Nat) (as : List Action) (h : Host) :
    (fire t as h).interface.acquiring = h.interface.acquiring :=
  fire_induction (P := fun h' => h'.interface.acquiring = h.interface.acquiring) t as rfl
    fun a _ h' hs => (acquiring_perform a h').trans hs

theorem acquiring_passTo (goal : Nat) (g : Agenda Action) (h : Host) :
    (Timeline.passTo goal g h).2.interface.acquiring = h.interface.acquiring := by
  induction g generalizing h with
  | nil => rfl
  | cons b rest ih =>
    unfold Timeline.passTo
    split
    · exact (ih _).trans (acquiring_fire b.time b.actions h)
    · rfl

theorem Host.Does.passTo {h₀ h : Host} (hd : Does [] h₀ h) (goal : Nat) (g : Agenda Action) :
    Does [] h₀ (Timeline.passTo goal g h).2 := by
  induction g generalizing h with
  | nil => exact hd
  | cons b rest ih =>
    unfold Timeline.passTo
    split
    · exact ih (hd.fire b.time b.actions)
    · exact hd

theorem Host.Does.idle {h h' : Host} (hd : Does [] h h') :
    ∃ entries, h'.trace.toList = h.trace.toList ++ entries ∧ worksIn entries = [] := by
  obtain ⟨entries, hr, hds⟩ := hd
  refine ⟨entries, hr.trace_eq, ?_⟩
  rw [← works_deedsOf h.surroundings, hds]
  rfl

/-- **What others do** goes to the trace without any deed of the manager, and neither starts nor
stops acquisition. -/
theorem HostStep.perform_idles (step : HostStep) (tl : Timeline Action Host) :
    step.perform.Ends tl
      (fun _ tl' => (∃ entries, tl'.world.trace.toList = tl.world.trace.toList ++ entries ∧
          worksIn entries = []) ∧
        tl'.world.interface.acquiring = tl.world.interface.acquiring) fun _ => False := by
  cases step with
  | act a =>
    obtain ⟨sets, ht⟩ := trace_perform a tl.world
    refine ⟨⟨_, ht, ?_⟩, acquiring_perform a tl.world⟩
    rw [← works_deedsOf tl.world.surroundings, deedsOf_accepted]
    rfl
  | schedule ticks a => exact ⟨(does_refl tl.world).idle, rfl⟩
  | advance ticks =>
    have hsettled := (does_refl tl.world).fire tl.now (tl.agenda.due tl.now)
    exact ⟨(hsettled.passTo _ _).idle, (acquiring_passTo _ _ _).trans (acquiring_fire _ _ _)⟩
  | claim =>
    have hclaim : Does [] tl.world (HostStep.claimMailbox tl.world).2 ∧
        (HostStep.claimMailbox tl.world).2.interface.acquiring
          = tl.world.interface.acquiring := by
      unfold HostStep.claimMailbox
      split
      · exact ⟨does_nothing rfl rfl, rfl⟩
      · exact ⟨does_refl _, rfl⟩
    exact ⟨hclaim.1.idle, hclaim.2⟩

theorem deedsOf_idle {tl tl' : Timeline Action Host} {entries : List TraceEntry}
    (heq : tl'.world.trace.toList = tl.world.trace.toList ++ entries)
    (hnone : worksIn entries = []) :
    deedsOf (happened tl tl') = [] := by
  have hworks := works_deedsOf tl.world.surroundings entries
  rw [hnone] at hworks
  unfold happened
  rw [written_eq heq]
  exact List.map_eq_nil_iff.mp hworks

/-- The manager does nothing in such a turn. -/
def Turn.IsIdle : Turn → Prop
  | others _ | note _ | sleep _ | awaitStack => True
  | _ => False

theorem Turn.idles (t : Turn) (ht : t.IsIdle) (s : Stage) (m : Manager)
    (tl : Timeline Action Host) : (t.perform s m).Ends tl
      (fun r tl' => (r.1 = s ∨ (t = .awaitStack ∧ r.1 = .starting)) ∧ r.2 = m ∧
        deedsOf (happened tl tl') = [])
      fun tl' => deedsOf (happened tl tl') = [] := by
  have hidle : ∀ {β : Type} {x : HostRoutine β} {s' : Stage}, Idles x →
      (s' = s ∨ (t = .awaitStack ∧ s' = .starting)) → (x >>= fun _ => pure (s', m)).Ends tl
        (fun r tl' => (r.1 = s ∨ (t = .awaitStack ∧ r.1 = .starting)) ∧ r.2 = m ∧
          deedsOf (happened tl tl') = [])
        fun tl' => deedsOf (happened tl tl') = [] := by
    intro β x s' hx hs
    exact Routine.ends_bind.mpr ((hx.does tl).imp (fun _ _ hd => ⟨hs, rfl, hd.deeds⟩)
      fun _ hd => hd.deeds)
  cases t with
  | others step =>
    refine Routine.ends_bind.mpr ((step.perform_idles tl).imp ?_ fun _ h => h.elim)
    rintro _ tl' ⟨⟨entries, heq, hnone⟩, _⟩
    exact ⟨Or.inl rfl, rfl, deedsOf_idle heq hnone⟩
  | note e => exact hidle (passes_note e).idles (Or.inl rfl)
  | sleep ticks => exact hidle (idles_sleep ticks) (Or.inl rfl)
  | awaitStack => exact hidle Manager.idles_awaitStack (Or.inr ⟨rfl, rfl⟩)
  | establish _ | cycle | mirror | reconcile | renew => exact ht.elim

/-! ### all that was written -/

/-- The trace only grows, whoever's turn it is. -/
theorem Turn.trace_grows (t : Turn) (s : Stage) (m : Manager) (tl : Timeline Action Host) :
    (t.perform s m).Ends tl
      (fun _ tl' => tl'.world.trace.toList = tl.world.trace.toList ++ written tl tl')
      fun tl' => tl'.world.trace.toList = tl.world.trace.toList ++ written tl tl' := by
  by_cases ht : ∃ step, t = .others step
  · obtain ⟨step, rfl⟩ := ht
    refine Routine.ends_bind.mpr ((step.perform_idles tl).imp ?_ fun _ h => h.elim)
    rintro _ tl' ⟨⟨entries, heq, _⟩, _⟩
    show tl'.world.trace.toList = _
    rw [written_eq heq]
    exact heq
  · exact (t.narrated (fun step h => ht ⟨step, h⟩) s m tl).imp (fun _ _ h => h.trace_eq)
      fun _ h => h.trace_eq

/-- The trace since `tl₀` is what was told. -/
def ToldAll (tl₀ : Timeline Action Host) (xs : List Happening) (tl : Timeline Action Host) : Prop :=
  tl.world.trace.toList = tl₀.world.trace.toList ++ xs.map Happening.entry

theorem keeps_toldAll (tl₀ : Timeline Action Host) :
    Keeps (fun _ xs _ tl => ToldAll tl₀ xs tl) (ToldAll tl₀) := by
  intro s xs m tl t htold _
  have hgrown : ∀ {tl' : Timeline Action Host},
      tl'.world.trace.toList = tl.world.trace.toList ++ written tl tl' →
      ToldAll tl₀ (xs ++ happened tl tl') tl' := by
    intro tl' heq
    unfold ToldAll
    rw [heq, htold, List.map_append, entries_happened, List.append_assoc]
  exact (t.trace_grows s m tl).imp (fun _ _ => hgrown) fun _ => hgrown

section
variable {s₀ s : Stage} {m₀ m : Manager} {tl₀ tl : Timeline Action Host} {xs : List Happening}

theorem Chronicle.trace_eq (ch : Chronicle s₀ m₀ tl₀ s xs m tl) :
    tl.world.trace.toList = tl₀.world.trace.toList ++ xs.map Happening.entry :=
  ch.preserves (List.append_nil _).symm (keeps_toldAll tl₀)

theorem Told.trace_eq (told : Told s₀ m₀ tl₀ xs tl) :
    tl.world.trace.toList = tl₀.world.trace.toList ++ xs.map Happening.entry :=
  told.preserves (List.append_nil _).symm (keeps_toldAll tl₀) fun _ _ _ _ h => h

end

/-! ## whole operations -/

namespace HostRoutine

variable {β γ : Type} {x : HostRoutine β} {f : β → HostRoutine γ} {s : Stage} {m : Manager}

/-- Begun by the manager `m` at the stage `s`, the routine goes on with every chronicle, and leaves
the manager `m' b` at the stage `s' b` if it returns `b`. -/
def Tells (x : HostRoutine β) (s : Stage) (m : Manager) (s' : β → Stage) (m' : β → Manager) :
    Prop :=
  ∀ ⦃s₀ m₀ tl₀ xs tl⦄, Chronicle s₀ m₀ tl₀ s xs m tl → x.Ends tl
    (fun b tl' => Chronicle s₀ m₀ tl₀ (s' b) (xs ++ happened tl tl') (m' b) tl' ∧ tl.Leads tl')
    fun tl' => Told s₀ m₀ tl₀ (xs ++ happened tl tl') tl' ∧ tl.Leads tl'

theorem Tells.bind {s₁ : β → Stage} {m₁ : β → Manager} {s₂ : γ → Stage} {m₂ : γ → Manager}
    (hx : Tells x s m s₁ m₁) (hf : ∀ b, Tells (f b) (s₁ b) (m₁ b) s₂ m₂) :
    Tells (x >>= f) s m s₂ m₂ := by
  intro s₀ m₀ tl₀ xs tl ch
  refine Routine.ends_bind.mpr ((hx ch).imp ?_ fun _ h => h)
  rintro b tl₁ ⟨ch₁, hl⟩
  refine (hf b ch₁).imp ?_ ?_
  · rintro c tl₂ ⟨ch₂, hl'⟩
    rw [List.append_assoc, ← happened_trans hl hl'] at ch₂
    exact ⟨ch₂, hl.trans hl'⟩
  · rintro tl₂ ⟨told, hl'⟩
    rw [List.append_assoc, ← happened_trans hl hl'] at told
    exact ⟨told, hl.trans hl'⟩

theorem tells_turn (t : Turn) (ht : t.MayTake s) (hmine : ∀ step, t ≠ .others step) :
    Tells (t.perform s m) s m Prod.fst Prod.snd := by
  intro s₀ m₀ tl₀ xs tl ch
  exact (ch.performs t ht).and (t.narrated hmine s m tl)

theorem tells_pure {s' : β → Stage} {m' : β → Manager} {b : β} (hs : s' b = s) (hm : m' b = m) :
    Tells (pure b : HostRoutine β) s m s' m' := by
  intro s₀ m₀ tl₀ xs tl ch
  refine Routine.ends_pure ⟨?_, [], does_refl _⟩
  rw [happened_self, List.append_nil, hs, hm]
  exact ch

theorem tells_halt (e : Halt) (s' : β → Stage) (m' : β → Manager) :
    Tells (Routine.halt e : HostRoutine β) s m s' m' := by
  intro s₀ m₀ tl₀ xs tl ch
  refine Routine.ends_halt ⟨?_, [], does_refl _⟩
  rw [happened_self, List.append_nil]
  exact .goesOn ch

theorem tells_world : Tells Routine.world s m (fun _ => s) fun _ => m :=
  fun _ _ _ _ tl ch => tells_pure (b := tl.world) rfl rfl ch

theorem tells_note (e : LogEntry) : Tells (note e) s m (fun _ => s) fun _ => m :=
  fun _ _ _ _ _ ch => tells_turn (.note e) trivial (fun _ h => nomatch h) ch

theorem tells_sleep (ticks : Nat) : Tells (Routine.sleep ticks) s m (fun _ => s) fun _ => m :=
  fun _ _ _ _ _ ch =>
    Routine.ends_bind.mp (tells_turn (.sleep ticks) trivial (fun _ h => nomatch h) ch)

end HostRoutine

namespace Manager

variable {m : Manager} {s : Stage} (rounds : Nat)

theorem tells_awaitStack (hs : s = .outside ∨ s = .starting) :
    Tells awaitStack s m (fun _ => .starting) fun _ => m :=
  fun _ _ _ _ _ ch =>
    Routine.ends_bind.mp (tells_turn .awaitStack hs (fun _ h => nomatch h) ch)

theorem tells_establish :
    Tells (m.establish rounds) .starting m (fun r => Stage.after r.2) Prod.fst :=
  fun _ _ _ _ _ ch =>
    Routine.ends_bind.mp (tells_turn (.establish rounds) rfl (fun _ h => nomatch h) ch)

theorem tells_cycle (hs : s.IsUp) : Tells m.cycle s m (fun _ => .serving) Prod.fst :=
  fun _ _ _ _ _ ch => Routine.ends_bind.mp (tells_turn .cycle hs (fun _ h => nomatch h) ch)

/-- **A start** is told. -/
theorem tells_start (hs : s = .outside ∨ s = .starting) :
    Tells (m.start rounds) s m (fun r => Stage.after r.2) Prod.fst :=
  (tells_awaitStack hs).bind fun _ => tells_establish rounds

theorem tells_establishAtLast (m : Manager) :
    Tells (establishAtLast rounds m) .starting m (fun _ => .established) id := by
  induction rounds generalizing m with
  | zero => exact tells_halt _ _ _
  | succ rounds ih =>
    unfold establishAtLast
    refine (tells_establish rounds).bind ?_
    rintro ⟨m', outcome⟩
    cases outcome with
    | ok _ => exact tells_pure rfl rfl
    | error e =>
      have hagain : Stage.after (.error e) = .starting := rfl
      dsimp only
      rw [hagain]
      exact (tells_note _).bind fun _ => (tells_sleep _).bind fun _ => ih m'

theorem tells_loop (hs : s.IsUp) (s' : Empty → Stage) (m' : Empty → Manager) :
    Tells (loop rounds m) s m s' m' := by
  induction rounds generalizing s m with
  | zero => exact tells_halt _ _ _
  | succ rounds ih =>
    unfold loop
    refine (tells_cycle hs).bind ?_
    rintro ⟨m₁, report⟩
    refine tells_world.bind fun h => (tells_note _).bind fun _ => ?_
    dsimp only
    split
    · exact (tells_note _).bind fun _ => ih (Or.inr rfl)
    · exact ih (Or.inr rfl)

/-- **A whole run**, wherever it comes to a halt, is told. -/
theorem tells_run (hs : s = .outside ∨ s = .starting) (s' : Empty → Stage)
    (m' : Empty → Manager) : Tells (run rounds m) s m s' m' :=
  (tells_awaitStack hs).bind fun _ => (tells_establishAtLast rounds m).bind fun _ =>
    tells_loop rounds (Or.inl rfl) s' m'

end Manager

/-- A run that came to a halt has been told from its beginning. -/
theorem told_run {m : Manager} {rounds : Nat} {tl tl' : Timeline Action Host} {e : Halt}
    (h : m.run rounds tl = .error e tl') : Told .outside m tl (happened tl tl') tl' :=
  ((m.tells_run rounds (Or.inl rfl) (fun _ => .serving) (fun _ => m)) .begin |>.of_error h).1

end Uplink
