import Uplink.Proofs.Drift
import Uplink.Proofs.MainLoop

/-!
# Lives of a manager

A manager works in parts: it waits for the stack, establishes itself, and then attempts, listens,
mirrors, reconciles and renews, over and over.  Others act all the while.  A life is any course of
this, also one that was cut short in the middle of a part.

* `Moment`          what of a life its later states depend on;
* `Manager.Part`    the parts, each a routine of the manager that tells the moments in it;
* `Life`            the lives of a manager, with its moments;
* `Life.cycle`      a cycle of the main loop is three or four parts of a life;
* `Life.run_ends`   a run of the manager, from its start to wherever it halts, is a life;
* `History`         what a life comes to: what is mirrored, attempted and reconciled, and drift.

A life may take the parts in any order, so what holds of all lives does not hang on the order in
which the main loop takes them.
-/

namespace Uplink

open Host HostRoutine

/-! ## moments -/

inductive Moment where
  /-- At its start the manager put the link up for a status that the station had already. -/
  | adopted (status : RadioStatus)
  /-- An association attempt returned; `status` is the one cached then. -/
  | attempted (outcome : Except AttemptFault AttemptOutcome) (status : RadioStatus)
  /-- The manager looked at the status to mirror it, and changed the link or not. -/
  | mirrored (status : RadioStatus) (change : Option LinkChange)

/-- The moment of an attempt, if there was one. -/
def tried (outcome : Option (Except AttemptFault AttemptOutcome)) (status : RadioStatus) :
    List Moment :=
  outcome.toList.map (Moment.attempted · status)

/-- The moment of a start that found the station associated. -/
def adoption (outcome : Except StartFault Unit) (status : RadioStatus) : List Moment :=
  if outcome = .ok () ∧ status.isAssociated = true then [.adopted status] else []

/-! ## parts -/

namespace Manager

/-- A manager that has done nothing yet. -/
structure Fresh (m : Manager) : Prop where
  mirrored : m.mirrored = none
  acquiring : m.acquiring = false
  underWay : m.underWay = false
  failSafeLinks : m.failSafeLinks = 0

/-- One part of the work of a manager. -/
inductive Part where
  | establish (rounds : Nat)
  | associate
  | mirror
  | reconcile
  | renew (events : EventSet)

def Part.perform (m : Manager) : Part → HostRoutine (Manager × List Moment)
  | establish rounds => do
    let r ← m.establish rounds
    return (r.1, adoption r.2 (← status))
  | associate => do
    let r ← m.associateIfNeeded
    return (r.1, tried r.2 (← status))
  | mirror => do
    let current ← status
    let r ← Routine.act m.mirrorStatus
    return (r.1, [.mirrored current r.2])
  | reconcile => do
    let r ← Routine.act m.reconcileAddress
    return (r.1, [])
  | renew events => do
    let r ← m.renewIfAsked events
    return (r.1, tried r.2 (← status))

end Manager

/-! ## lives -/

/-- The lives of the manager `m₀` on the timeline `tl₀`, with their moments so far. -/
inductive Life (m₀ : Manager) (tl₀ : Timeline Action Host) :
    List Moment → Manager → Timeline Action Host → Prop
  | begin : Life m₀ tl₀ [] m₀ tl₀
  /-- Others act or time passes: the host drifts, and clock and agenda are set anew. -/
  | others {ms : List Moment} {m : Manager} {tl tl' : Timeline Action Host} :
    Life m₀ tl₀ ms m tl → Drifts (fun _ => True) tl.world tl'.world → Life m₀ tl₀ ms m tl'
  | part {ms new : List Moment} {m m' : Manager} {tl tl' : Timeline Action Host}
    (p : Manager.Part) : Life m₀ tl₀ ms m tl → p.perform m tl = .ok (m', new) tl' →
    Life m₀ tl₀ (ms ++ new) m' tl'
  /-- A part that does not return leaves the manager as it is. -/
  | halted {ms : List Moment} {m : Manager} {tl tl' : Timeline Action Host} {e : Halt}
    (p : Manager.Part) : Life m₀ tl₀ ms m tl → p.perform m tl = .error e tl' →
    Life m₀ tl₀ ms m tl'

/-- The life with the moments `ms` went on to the timeline `tl`. -/
def Life.GoesOn (m₀ : Manager) (tl₀ : Timeline Action Host) (ms : List Moment)
    (tl : Timeline Action Host) : Prop :=
  ∃ new m, Life m₀ tl₀ (ms ++ new) m tl

namespace Life

variable {m₀ m : Manager} {tl₀ tl : Timeline Action Host} {ms : List Moment}

theorem goesOn (life : Life m₀ tl₀ ms m tl) : GoesOn m₀ tl₀ ms tl :=
  ⟨[], m, by rwa [List.append_nil]⟩

theorem GoesOn.before {new : List Moment} (h : GoesOn m₀ tl₀ (ms ++ new) tl) :
    GoesOn m₀ tl₀ ms tl := by
  obtain ⟨further, m, life⟩ := h
  rw [List.append_assoc] at life
  exact ⟨new ++ further, m, life⟩

theorem performs (life : Life m₀ tl₀ ms m tl) (p : Manager.Part) :
    (p.perform m).Ends tl (fun r tl' => Life m₀ tl₀ (ms ++ r.2) r.1 tl')
      (fun tl' => Life m₀ tl₀ ms m tl') := by
  unfold Routine.Ends
  cases hp : p.perform m tl with
  | ok r tl' => exact life.part p hp
  | error e tl' => exact life.halted p hp

/-- The manager may wait at any time. -/
theorem drifts (life : Life m₀ tl₀ ms m tl) {β : Type} {x : HostRoutine β} (hx : Drifting x) :
    x.Ends tl (fun _ tl' => Life m₀ tl₀ ms m tl') (fun tl' => Life m₀ tl₀ ms m tl') := by
  refine (hx tl fun _ _ _ _ => trivial).imp ?_ ?_
  · intro _ tl' hd
    exact life.others hd.world
  · intro tl' hd
    exact life.others hd.world

theorem associate_ends (life : Life m₀ tl₀ ms m tl) :
    m.associateIfNeeded.Ends tl
      (fun r tl' => Life m₀ tl₀ (ms ++ tried r.2 tl'.world.status) r.1 tl')
      (fun tl' => Life m₀ tl₀ ms m tl') :=
  Routine.ends_bind.mp (life.performs .associate)

theorem mirror (life : Life m₀ tl₀ ms m tl) :
    Life m₀ tl₀ (ms ++ [.mirrored tl.world.status (m.mirrorStatus tl.now tl.world).1.2])
      (m.mirrorStatus tl.now tl.world).1.1
      { tl with world := (m.mirrorStatus tl.now tl.world).2 } :=
  life.part .mirror rfl

theorem reconcile (life : Life m₀ tl₀ ms m tl) :
    Life m₀ tl₀ ms (m.reconcileAddress tl.now tl.world).1.1
      { tl with world := (m.reconcileAddress tl.now tl.world).2 } := by
  have h : Life m₀ tl₀ (ms ++ []) (m.reconcileAddress tl.now tl.world).1.1
      { tl with world := (m.reconcileAddress tl.now tl.world).2 } := life.part .reconcile rfl
  rwa [List.append_nil] at h

theorem renew_ends (life : Life m₀ tl₀ ms m tl) (events : EventSet) :
    (m.renewIfAsked events).Ends tl
      (fun r tl' => Life m₀ tl₀ (ms ++ tried r.2 tl'.world.status) r.1 tl')
      (fun tl' => Life m₀ tl₀ ms m tl') :=
  Routine.ends_bind.mp (life.performs (.renew events))

theorem establish_ends (life : Life m₀ tl₀ ms m tl) (rounds : Nat) :
    (m.establish rounds).Ends tl
      (fun r tl' => Life m₀ tl₀ (ms ++ adoption r.2 tl'.world.status) r.1 tl')
      (fun tl' => Life m₀ tl₀ ms m tl') :=
  Routine.ends_bind.mp (life.performs (.establish rounds))

/-! ### cycles -/

/-- The first part of a cycle ends on `tl₁`, where `associateIfNeeded` has ended on `tlₐ`. -/
def Heard (m₀ : Manager) (tl₀ : Timeline Action Host) (ms : List Moment) (m : Manager)
    (tl : Timeline Action Host)
    (heard : Manager × Option (Except AttemptFault AttemptOutcome) × EventSet)
    (tl₁ : Timeline Action Host) : Prop :=
  ∃ r tlₐ, m.associateIfNeeded tl = .ok r tlₐ ∧
    Life m₀ tl₀ (ms ++ tried heard.2.1 tlₐ.world.status) heard.1 tl₁

theorem hear_ends (life : Life m₀ tl₀ ms m tl) :
    m.hear.Ends tl (Heard m₀ tl₀ ms m tl) (GoesOn m₀ tl₀ ms) := by
  unfold Manager.hear
  have hassociate := life.associate_ends.and (Routine.ends_self m.associateIfNeeded tl)
  refine Routine.ends_bind.mpr (hassociate.imp ?_ fun _ h => h.1.goesOn)
  intro r tlₐ hend
  obtain ⟨htried, heq⟩ := hend
  refine Routine.ends_bind.mpr ((htried.drifts (modest_awaitAny _ _).drifting).imp ?_ ?_)
  · intro events tl₁ hheard
    exact ⟨r, tlₐ, heq, hheard⟩
  · intro tl₁ hblocked
    exact hblocked.goesOn.before

theorem answer_ends (life : Life m₀ tl₀ ms m tl)
    (attempt : Option (Except AttemptFault AttemptOutcome)) (events : EventSet) :
    (m.answer attempt events).Ends tl
      (fun r tl' => r.2.attempt = attempt ∧ Life m₀ tl₀
        (ms ++ .mirrored tl.world.status r.2.link :: tried r.2.renewal tl'.world.status) r.1 tl')
      (GoesOn m₀ tl₀ ms) := by
  have hrest : ∀ {tl₁ : Timeline Action Host}, tl₁.world.status = tl.world.status →
      Life m₀ tl₀ ms m tl₁ → Routine.Ends (do
        let mirrored ← Routine.act m.mirrorStatus
        let reconciled ← Routine.act mirrored.1.reconcileAddress
        let renewed ← reconciled.1.renewIfAsked events
        return (renewed.1, CycleReport.mk events attempt renewed.2 mirrored.2 reconciled.2)) tl₁
      (fun r tl' => r.2.attempt = attempt ∧ Life m₀ tl₀
        (ms ++ .mirrored tl.world.status r.2.link :: tried r.2.renewal tl'.world.status) r.1 tl')
      (GoesOn m₀ tl₀ ms) := by
    intro tl₁ hstatus hlife
    have hreconciled := hlife.mirror.reconcile
    rw [hstatus] at hreconciled
    refine Routine.ends_bind.mpr (Routine.ends_act ?_)
    refine Routine.ends_bind.mpr (Routine.ends_act ?_)
    refine Routine.ends_bind.mpr ((hreconciled.renew_ends events).imp ?_ ?_)
    · intro r tl' hrenewed
      rw [List.append_assoc] at hrenewed
      exact ⟨rfl, hrenewed⟩
    · intro tl' hblocked
      exact hblocked.goesOn.before
  unfold Manager.answer
  split
  · have hnoted : Life m₀ tl₀ ms m { tl with world := tl.world.note .loopTimedOut } :=
      life.others (Drifts.note .refl rfl)
    have hstatus : (tl.world.note .loopTimedOut).status = tl.world.status := rfl
    exact Routine.ends_bind.mpr (hrest hstatus hnoted)
  · exact hrest rfl life

/-- **A cycle** is an attempt, if it made one, a look at the status that its main wait left, and a
renewal, if it made one. -/
theorem cycle (life : Life m₀ tl₀ ms m tl) {tl₁ tl' : Timeline Action Host}
    {heard : Manager × Option (Except AttemptFault AttemptOutcome) × EventSet}
    {r : Manager × CycleReport} (hhear : m.hear tl = .ok heard tl₁)
    (hcycle : m.cycle tl = .ok r tl') :
    ∃ a tlₐ, m.associateIfNeeded tl = .ok a tlₐ ∧ Life m₀ tl₀
      (ms ++ (tried r.2.attempt tlₐ.world.status ++
        .mirrored tl₁.world.status r.2.link :: tried r.2.renewal tl'.world.status)) r.1 tl' := by
  rw [Manager.cycle_eq] at hcycle
  obtain ⟨heard', tl₁', hhear', hanswer⟩ := Routine.bind_eq_ok.mp hcycle
  rw [hhear] at hhear'
  cases hhear'
  obtain ⟨a, tlₐ, hassociate, hheard⟩ := life.hear_ends.of_ok hhear
  obtain ⟨hattempt, hanswered⟩ := (hheard.answer_ends _ _).of_ok hanswer
  rw [List.append_assoc, ← hattempt] at hanswered
  exact ⟨a, tlₐ, hassociate, hanswered⟩

theorem cycle_ends (life : Life m₀ tl₀ ms m tl) :
    m.cycle.Ends tl (fun r tl' => ∃ new, Life m₀ tl₀ (ms ++ new) r.1 tl')
      (GoesOn m₀ tl₀ ms) := by
  rw [Manager.cycle_eq]
  refine Routine.ends_bind.mpr (life.hear_ends.imp ?_ fun _ h => h)
  intro heard tl₁ hend
  obtain ⟨_, _, _, hheard⟩ := hend
  refine (hheard.answer_ends _ _).imp ?_ fun _ h => h.before
  intro r tl' hend
  obtain ⟨_, hanswered⟩ := hend
  rw [List.append_assoc] at hanswered
  exact ⟨_, hanswered⟩

/-! ### whole runs -/

theorem start_ends (life : Life m₀ tl₀ ms m tl) (rounds : Nat) :
    (m.start rounds).Ends tl
      (fun r tl' => Life m₀ tl₀ (ms ++ adoption r.2 tl'.world.status) r.1 tl')
      (fun tl' => Life m₀ tl₀ ms m tl') := by
  refine Routine.ends_bind.mpr
    ((life.drifts Manager.modest_awaitStack.drifting).imp ?_ fun _ h => h)
  intro _ tl₁ hready
  exact hready.establish_ends rounds

theorem establishAtLast_ends (rounds : Nat) (life : Life m₀ tl₀ ms m tl) :
    (Manager.establishAtLast rounds m).Ends tl
      (fun m' tl' => ∃ new, Life m₀ tl₀ (ms ++ new) m' tl') (GoesOn m₀ tl₀ ms) := by
  induction rounds generalizing ms m tl with
  | zero => exact Routine.ends_halt life.goesOn
  | succ rounds ih =>
    unfold Manager.establishAtLast
    refine Routine.ends_bind.mpr ((life.establish_ends rounds).imp ?_ fun _ h => h.goesOn)
    rintro ⟨m', outcome⟩ tl₁ hestablished
    cases outcome with
    | ok _ => exact Routine.ends_pure ⟨_, hestablished⟩
    | error e =>
      refine Routine.ends_bind.mpr ((hestablished.drifts (modest_note rfl).drifting).imp ?_
        fun _ h => h.goesOn.before)
      intro _ tl₂ hnoted
      refine Routine.ends_bind.mpr ((hnoted.drifts (drifting_sleep _)).imp ?_
        fun _ h => h.goesOn.before)
      intro _ tl₃ hslept
      refine (ih hslept).imp ?_ fun _ h => h.before
      intro m'' tl' hend
      obtain ⟨new, hlife⟩ := hend
      rw [List.append_assoc] at hlife
      exact ⟨_, hlife⟩

theorem loop_ends (rounds : Nat) (life : Life m₀ tl₀ ms m tl) :
    (Manager.loop rounds m).Ends tl (fun _ _ => True) (GoesOn m₀ tl₀ ms) := by
  induction rounds generalizing ms m tl with
  | zero => exact Routine.ends_halt life.goesOn
  | succ rounds ih =>
    unfold Manager.loop
    refine Routine.ends_bind.mpr (life.cycle_ends.imp ?_ fun _ h => h)
    rintro ⟨m', report⟩ tl₁ hend
    obtain ⟨new, hcycled⟩ := hend
    have hrest : ∀ {tl' : Timeline Action Host}, Life m₀ tl₀ (ms ++ new) m' tl' →
        (Manager.loop rounds m').Ends tl' (fun _ _ => True) (GoesOn m₀ tl₀ ms) :=
      fun h => (ih h).imp (fun _ _ h => h) fun _ h => h.before
    refine Routine.ends_bind.mpr ((hcycled.drifts modest_world.drifting).imp ?_
      fun _ h => h.goesOn.before)
    intro h tl₂ hlooked
    refine Routine.ends_bind.mpr ((hlooked.drifts (modest_note rfl).drifting).imp ?_
      fun _ h => h.goesOn.before)
    intro _ tl₃ hnoted
    dsimp only
    split
    · refine Routine.ends_bind.mpr ((hnoted.drifts (modest_note rfl).drifting).imp ?_
        fun _ h => h.goesOn.before)
      intro _ tl₄ hfailed
      exact hrest hfailed
    · exact hrest hnoted

/-- **A run** of the manager, wherever it comes to a halt, is a life. -/
theorem run_ends (rounds : Nat) (life : Life m₀ tl₀ ms m tl) :
    (Manager.run rounds m).Ends tl (fun _ _ => True) (GoesOn m₀ tl₀ ms) := by
  unfold Manager.run
  refine Routine.ends_bind.mpr ((life.drifts Manager.modest_awaitStack.drifting).imp ?_
    fun _ h => h.goesOn)
  intro _ tl₁ hready
  refine Routine.ends_bind.mpr ((hready.establishAtLast_ends rounds).imp ?_ fun _ h => h)
  intro m' tl₂ hend
  obtain ⟨new, hestablished⟩ := hend
  exact (hestablished.loop_ends rounds).imp (fun _ _ h => h) fun _ h => h.before

end Life

/-! ## histories -/

/-- What the lives of the manager `m₀` at the host `h₀` come to. -/
inductive History (m₀ : Manager) (h₀ : Host) : List Moment → Manager → Host → Prop
  | begin : History m₀ h₀ [] m₀ h₀
  | stirred {ms : List Moment} {m : Manager} {h h' : Host} :
    History m₀ h₀ ms m h → Stirs (fun _ => True) h h' → History m₀ h₀ ms m h'
  | attached {ms : List Moment} {m : Manager} {h : Host} (module : ModuleIdentity) (now : Nat) :
    History m₀ h₀ ms m h →
    History m₀ h₀ (ms ++ adoption (m.attach module now h).1.2 (m.attach module now h).2.status)
      (m.attach module now h).1.1 (m.attach module now h).2
  | attempted {ms : List Moment} {m : Manager} {h : Host} (association : Association)
    (outcome : Except AttemptFault AttemptOutcome) : History m₀ h₀ ms m h →
    History m₀ h₀ (ms ++ [.attempted outcome h.status])
      { m with association, underWay := decide (outcome = .ok .pending) } h
  | mirrored {ms : List Moment} {m : Manager} {h : Host} (now : Nat) : History m₀ h₀ ms m h →
    History m₀ h₀ (ms ++ [.mirrored h.status (m.mirrorStatus now h).1.2])
      (m.mirrorStatus now h).1.1 (m.mirrorStatus now h).2
  | reconciled {ms : List Moment} {m : Manager} {h : Host} (now : Nat) : History m₀ h₀ ms m h →
    History m₀ h₀ ms (m.reconcileAddress now h).1.1 (m.reconcileAddress now h).2

theorem History.drifted {m₀ m : Manager} {h₀ h h' : Host} {ms : List Moment}
    (hist : History m₀ h₀ ms m h) (hd : Drifts (fun _ => True) h h') : History m₀ h₀ ms m h' := by
  induction hd with
  | refl => exact hist
  | tail _ hs ih => exact ih.stirred hs

namespace Manager

/-- What an attempt makes of the manager, if there was one. -/
def Attempted (m : Manager) (r : Manager × Option (Except AttemptFault AttemptOutcome)) : Prop :=
  r = (m, none) ∨ ∃ association outcome,
    r = ({ m with association, underWay := decide (outcome = .ok .pending) }, some outcome)

theorem recordAttempt_ends (m : Manager) (outcome : Except AttemptFault AttemptOutcome)
    (tl : Timeline Action Host) : (m.recordAttempt outcome).Ends tl
      (fun m' _ => m' = { m with underWay := decide (outcome = .ok .pending) }) fun _ => False := by
  unfold recordAttempt
  cases outcome with
  | error e => exact rfl
  | ok o => exact rfl

theorem associateIfNeeded_attempted (m : Manager) (tl : Timeline Action Host) :
    m.associateIfNeeded.Ends tl (fun r _ => m.Attempted r) fun _ => True := by
  unfold associateIfNeeded
  refine Routine.ends_bind_last fun current tl₁ => ?_
  split
  · refine Routine.ends_bind_last fun tried tl₂ => ?_
    refine Routine.ends_bind.mpr ((recordAttempt_ends _ _ tl₂).imp ?_ fun _ h => h.elim)
    intro m' tl₃ hm
    exact Routine.ends_pure (Or.inr ⟨tried.1, tried.2, by rw [hm]⟩)
  · exact Routine.ends_pure (Or.inl rfl)

theorem renewIfAsked_attempted (m : Manager) (events : EventSet) (tl : Timeline Action Host) :
    (m.renewIfAsked events).Ends tl (fun r _ => m.Attempted r) fun _ => True := by
  have hrenewed : ∀ tl, m.renew.Ends tl
      (fun r _ => ∃ association, r.1 = { m with association }) fun _ => True := by
    intro tl
    unfold renew
    refine Routine.ends_bind_last fun _ _ => Routine.ends_bind_last fun dropped _ => ?_
    split
    · exact Routine.ends_bind_last fun _ _ => Routine.ends_bind_last fun r _ =>
        Routine.ends_pure ⟨r.1, rfl⟩
    · exact Routine.ends_bind_last fun r _ => Routine.ends_pure ⟨r.1, rfl⟩
  unfold renewIfAsked
  split
  · refine Routine.ends_bind.mpr ((hrenewed tl).imp ?_ fun _ h => h)
    rintro ⟨m₁, outcome⟩ tl₁ hend
    obtain ⟨association, rfl⟩ := hend
    refine Routine.ends_bind.mpr ((recordAttempt_ends _ _ tl₁).imp ?_ fun _ h => h.elim)
    intro m' tl₂ hm
    exact Routine.ends_pure (Or.inr ⟨association, outcome, by rw [hm]⟩)
  · exact Routine.ends_pure (Or.inl rfl)

end Manager

section
variable {m₀ m : Manager} {h₀ : Host} {ms : List Moment} {tl : Timeline Action Host}

theorem History.tried (hist : History m₀ h₀ ms m tl.world)
    {x : HostRoutine (Manager × Option (Except AttemptFault AttemptOutcome))} (hx : Drifting x)
    (hm : x.Ends tl (fun r _ => m.Attempted r) fun _ => True) :
    x.Ends tl (fun r tl' => History m₀ h₀ (ms ++ Uplink.tried r.2 tl'.world.status) r.1 tl'.world)
      (fun tl' => History m₀ h₀ ms m tl'.world) := by
  refine ((hx tl fun _ _ _ _ => trivial).and hm).imp ?_ ?_
  · intro r tl' hend
    obtain ⟨hd, rfl | ⟨association, outcome, rfl⟩⟩ := hend
    · have hnone : ms ++ Uplink.tried none tl'.world.status = ms := List.append_nil ms
      rw [hnone]
      exact hist.drifted hd.world
    · exact (hist.drifted hd.world).attempted association outcome
  · intro tl' hend
    exact hist.drifted hend.1.world

theorem History.established (hist : History m₀ h₀ ms m tl.world) (rounds : Nat) :
    (m.establish rounds).Ends tl
      (fun r tl' => History m₀ h₀ (ms ++ adoption r.2 tl'.world.status) r.1 tl'.world)
      (fun tl' => History m₀ h₀ ms m tl'.world) := by
  unfold Manager.establish
  have hidentified := Manager.drifting_identifyModule m.settings rounds 1 tl fun _ _ _ _ => trivial
  refine Routine.ends_bind.mpr (hidentified.imp ?_ fun tl' hd => hist.drifted hd.world)
  intro answer tl₁ hd
  have hist₁ := hist.drifted hd.world
  cases answer with
  | error e =>
    refine Routine.ends_pure ?_
    have hnone : adoption (.error (.moduleQuery e)) tl₁.world.status = [] := by simp [adoption]
    rw [hnone, List.append_nil]
    exact hist₁
  | ok module => exact Routine.ends_act (hist₁.attached module tl₁.now)

/-- **A part** is drift and one entry of the history. -/
theorem Manager.Part.perform_ends (p : Manager.Part) (hist : History m₀ h₀ ms m tl.world) :
    (p.perform m).Ends tl (fun r tl' => History m₀ h₀ (ms ++ r.2) r.1 tl'.world)
      (fun tl' => History m₀ h₀ ms m tl'.world) := by
  cases p with
  | establish rounds => exact Routine.ends_bind.mpr (hist.established rounds)
  | associate =>
    exact Routine.ends_bind.mpr
      (hist.tried m.modest_associateIfNeeded.drifting (m.associateIfNeeded_attempted tl))
  | mirror => exact hist.mirrored tl.now
  | reconcile =>
    have hreconciled := hist.reconciled tl.now
    rw [← List.append_nil ms] at hreconciled
    exact hreconciled
  | renew events =>
    exact Routine.ends_bind.mpr
      (hist.tried (m.modest_renewIfAsked events).drifting (m.renewIfAsked_attempted events tl))

/-- **A life comes to a history.** -/
theorem Life.history {tl₀ : Timeline Action Host} (life : Life m₀ tl₀ ms m tl) :
    History m₀ tl₀.world ms m tl.world := by
  induction life with
  | begin => exact .begin
  | others _ hd ih => exact ih.drifted hd
  | part p _ hp ih => exact (p.perform_ends ih).of_ok hp
  | halted p _ hp ih => exact (p.perform_ends ih).of_error hp

end

end Uplink
