import Uplink.Proofs.Memory
import Uplink.Proofs.Reconciliation

/-!
# When a manager is associating

The phase `associating` is kept up by a flag: a pending attempt sets it, another attempt sets it
anew, and a look at the status clears it when that status was not mirrored before.  Here the flag is
told by the moments of a life.  It does not compare with the status that was cached when the
attempt returned, and so a status reported during an attempt ends it, and the first status of all
never does.

* `Steady`                      no look found another status than was mirrored before it;
* `underWayAfter_of_attempt`    the flag is set exactly if the last attempt is pending and the looks
                                since are steady;
* `Host.Offline`                a host at which the phase hangs on the flag alone;
* `associating_iff`             the phase at every moment of a life;
* `associating_misreads`        two lives in which it is not as one would expect.
-/

namespace Uplink

open Host

/-! ## steady looks -/

namespace Moment

def isAttempt : Moment → Bool
  | attempted _ _ => true
  | _ => false

def isAdoption : Moment → Bool
  | adopted _ => true
  | _ => false

/-- The status that a look at the status found. -/
def found? : Moment → Option RadioStatus
  | mirrored s _ => some s
  | _ => none

end Moment

/-- The statuses that the looks of some moments found. -/
def looks (ms : List Moment) : List RadioStatus := ms.filterMap Moment.found?

/-- No look found another status than was mirrored before it. -/
def Steady (before : Option RadioStatus) : List Moment → Prop
  | [] => True
  | x :: xs =>
    (∀ s, x.found? = some s → before = none ∨ before = some s) ∧ Steady (x.shown?.or before) xs

theorem underWayAfter_iff {before : Option RadioStatus} {flag : Bool} {ms : List Moment}
    (hno : ∀ x ∈ ms, x.isAttempt = false) :
    underWayAfter before flag ms = true ↔ flag = true ∧ Steady before ms := by
  induction ms generalizing before flag with
  | nil => exact (iff_of_eq (and_true _)).symm
  | cons x ms ih =>
    obtain ⟨hx, hms⟩ := List.forall_mem_cons.mp hno
    show underWayAfter (x.shown?.or before) (x.underWay before flag) ms = true ↔ _
    rw [ih hms]
    have hstep : x.underWay before flag = true ↔
        flag = true ∧ ∀ s, x.found? = some s → before = none ∨ before = some s := by
      cases x with
      | adopted s => simp [Moment.underWay, Moment.found?]
      | attempted outcome s => cases hx
      | mirrored s change => simp [Moment.underWay, Moment.found?]
    rw [hstep, and_assoc]
    rfl

/-- **The flag, told by the last attempt** and the looks since. -/
theorem underWayAfter_of_attempt {before : Option RadioStatus} {flag : Bool}
    {past later : List Moment} {outcome : Except AttemptFault AttemptOutcome}
    {status : RadioStatus} (hno : ∀ x ∈ later, x.isAttempt = false) :
    underWayAfter before flag (past ++ .attempted outcome status :: later) = true ↔
      outcome = .ok .pending ∧ Steady (mirroredAfter before past) later := by
  rw [underWayAfter_append]
  show underWayAfter (mirroredAfter before past) (decide (outcome = .ok .pending)) later = true ↔ _
  rw [underWayAfter_iff hno, decide_eq_true_iff]

theorem exists_last_attempt (ms : List Moment) :
    (∀ x ∈ ms, x.isAttempt = false) ∨ ∃ past outcome status later,
      ms = past ++ .attempted outcome status :: later ∧ ∀ x ∈ later, x.isAttempt = false := by
  induction ms with
  | nil => exact Or.inl fun _ h => absurd h List.not_mem_nil
  | cons x ms ih =>
    obtain hno | ⟨past, outcome, status, later, rfl, hno⟩ := ih
    · cases x with
      | attempted outcome status => exact Or.inr ⟨[], outcome, status, ms, rfl, hno⟩
      | adopted s => exact Or.inl (List.forall_mem_cons.mpr ⟨rfl, hno⟩)
      | mirrored s change => exact Or.inl (List.forall_mem_cons.mpr ⟨rfl, hno⟩)
    · exact Or.inr ⟨x :: past, outcome, status, later, rfl, hno⟩

/-- If a status was mirrored before, steady looks all find that one. -/
theorem steady_some_iff {s : RadioStatus} {ms : List Moment}
    (hno : ∀ x ∈ ms, x.isAdoption = false) :
    Steady (some s) ms ↔ ∀ t ∈ looks ms, t = s := by
  induction ms with
  | nil => exact ⟨fun _ _ h => absurd h List.not_mem_nil, fun _ => trivial⟩
  | cons x ms ih =>
    obtain ⟨hx, hms⟩ := List.forall_mem_cons.mp hno
    cases x with
    | adopted t => cases hx
    | attempted outcome t =>
      show (_ ∧ Steady (some s) ms) ↔ _
      rw [ih hms]
      exact ⟨fun h => h.2, fun h => ⟨fun _ h => (nomatch h), h⟩⟩
    | mirrored t change =>
      show (_ ∧ Steady (some t) ms) ↔ ∀ u ∈ t :: looks ms, u = s
      rw [List.forall_mem_cons]
      constructor
      · intro hsteady
        obtain ⟨hfound, hrest⟩ := hsteady
        obtain hnone | hsame := hfound t rfl
        · cases hnone
        · cases hsame
          exact ⟨rfl, (ih hms).mp hrest⟩
      · intro hall
        obtain ⟨rfl, hrest⟩ := hall
        exact ⟨fun u hu => Or.inr hu, (ih hms).mpr hrest⟩

/-- If no status was mirrored before, steady looks all find the same one, whichever it is. -/
theorem steady_none_iff {ms : List Moment} (hno : ∀ x ∈ ms, x.isAdoption = false) :
    Steady none ms ↔ ∀ t ∈ looks ms, ∀ u ∈ looks ms, t = u := by
  induction ms with
  | nil => exact ⟨fun _ _ h => absurd h List.not_mem_nil, fun _ => trivial⟩
  | cons x ms ih =>
    obtain ⟨hx, hms⟩ := List.forall_mem_cons.mp hno
    cases x with
    | adopted t => cases hx
    | attempted outcome t =>
      show (_ ∧ Steady none ms) ↔ _
      rw [ih hms]
      exact ⟨fun h => h.2, fun h => ⟨fun _ h => (nomatch h), h⟩⟩
    | mirrored t change =>
      -- from the first look on, its status is the one mirrored before
      show (_ ∧ Steady (some t) ms) ↔ ∀ u ∈ t :: looks ms, ∀ v ∈ t :: looks ms, u = v
      rw [steady_some_iff hms]
      constructor
      · intro hsteady u hu v hv
        have hall : ∀ w ∈ t :: looks ms, w = t :=
          List.forall_mem_cons.mpr ⟨rfl, hsteady.2⟩
        rw [hall u hu, hall v hv]
      · intro hall
        refine ⟨fun _ _ => Or.inl rfl, fun u hu => ?_⟩
        exact hall u (List.mem_cons_of_mem _ hu) t List.mem_cons_self

/-! ## the phase -/

/-- The status is known and does not carry traffic, and the interface has no link, no address and
no running acquisition. -/
structure Host.Offline (h : Host) : Prop where
  silent : h.status.carriesTraffic = false
  known : h.status.isUnknown = false
  unlinked : h.interface.snapshot.hasLink = false
  unaddressed : h.interface.snapshot.hasAddress = false
  stopped : h.interface.acquiring = false

theorem Manager.phase_of_offline {m : Manager} {h : Host} (ho : h.Offline)
    (hm : m.acquiring = h.interface.acquiring) :
    m.phase h = if m.underWay then .associating else .idle := by
  unfold Manager.phase Phase.of
  rw [hm, ho.silent, ho.known, ho.unlinked, ho.unaddressed, ho.stopped]
  rfl

/-- The last attempt of the moments is pending, and the looks since are steady. -/
def Stands (ms : List Moment) : Prop :=
  ∃ past status later, ms = past ++ .attempted (.ok .pending) status :: later ∧
    (∀ x ∈ later, x.isAttempt = false) ∧ Steady (mirroredAfter none past) later

/-- What one would expect: the last attempt is pending, and every look since found the status that
was cached when it returned. -/
def Awaited (ms : List Moment) : Prop :=
  ∃ past status later, ms = past ++ .attempted (.ok .pending) status :: later ∧
    (∀ x ∈ later, x.isAttempt = false) ∧ ∀ s ∈ looks later, s = status

theorem underWay_iff_stands (ms : List Moment) :
    underWayAfter none false ms = true ↔ Stands ms := by
  constructor
  · intro hflag
    obtain hno | ⟨past, outcome, status, later, rfl, hno⟩ := exists_last_attempt ms
    · exact absurd ((underWayAfter_iff hno).mp hflag).1 Bool.false_ne_true
    · obtain ⟨rfl, hsteady⟩ := (underWayAfter_of_attempt hno).mp hflag
      exact ⟨past, status, later, rfl, hno, hsteady⟩
  · intro hstands
    obtain ⟨past, status, later, rfl, hno, hsteady⟩ := hstands
    exact (underWayAfter_of_attempt hno).mpr ⟨rfl, hsteady⟩

theorem Manager.associating_of_offline {m : Manager} {h : Host} (ho : h.Offline)
    (hm : m.acquiring = h.interface.acquiring) :
    m.phase h = .associating ↔ m.underWay = true := by
  rw [phase_of_offline ho hm]
  cases m.underWay <;> decide

section
variable {m₀ m : Manager} {tl₀ tl : Timeline Action Host} {ms : List Moment}

/-- **When a manager is associating.**  Take a moment of the life of a fresh manager at which the
host is offline.  The phase is `associating` exactly if the last attempt is pending and no look
since found another status than was mirrored before it; otherwise it is `idle`.  In particular, if
the status cached when the last attempt returned was mirrored already, the phase is `associating`
exactly if the attempt is pending and every look since found that status; and if no status was
mirrored then, exactly if the attempt is pending and the looks since all found the same. -/
theorem associating_iff (life : Life m₀ tl₀ ms m tl) (fresh : m₀.Fresh)
    (hoff : tl₀.world.interface.acquiring = false) (ho : tl.world.Offline) :
    (m.phase tl.world = .associating ↔ Stands ms) ∧
    (¬ Stands ms → m.phase tl.world = .idle) ∧
    ∀ past outcome status later, ms = past ++ .attempted outcome status :: later →
      (∀ x ∈ later, x.isAttempt = false ∧ x.isAdoption = false) →
      (mirroredAfter none past = some status → (m.phase tl.world = .associating ↔
        outcome = .ok .pending ∧ ∀ s ∈ looks later, s = status)) ∧
      (mirroredAfter none past = none → (m.phase tl.world = .associating ↔
        outcome = .ok .pending ∧ ∀ s ∈ looks later, ∀ t ∈ looks later, s = t)) := by
  have hagrees := life.history.agrees (fresh.acquiring.trans hoff.symm)
  have hflag := life.history.remembers.underWay_eq
  rw [fresh.mirrored, fresh.underWay] at hflag
  have hphase : m.phase tl.world = .associating ↔ underWayAfter none false ms = true := by
    rw [Manager.associating_of_offline ho hagrees, hflag]
  refine ⟨hphase.trans (underWay_iff_stands ms), ?_, ?_⟩
  · intro hnot
    rw [← underWay_iff_stands, ← hflag] at hnot
    rw [Manager.phase_of_offline ho hagrees, if_neg hnot]
  · intro past outcome status later hsplit hlater
    have hno : ∀ x ∈ later, x.isAttempt = false := fun x hx => (hlater x hx).1
    have hno' : ∀ x ∈ later, x.isAdoption = false := fun x hx => (hlater x hx).2
    rw [hphase, hsplit, underWayAfter_of_attempt hno]
    constructor
    · intro hmirrored
      rw [hmirrored, steady_some_iff hno']
    · intro hmirrored
      rw [hmirrored, steady_none_iff hno']

end

/-! ## four cycles -/

namespace Associating

/-- Where a routine of the manager `m` leaves manager and timeline. -/
def left {β : Type} (m : Manager) :
    EStateM.Result Halt (Timeline Action Host) (Manager × β) → Manager × Timeline Action Host
  | .ok r tl => (r.1, tl)
  | .error _ tl => (m, tl)

/-- The stack is ready, and the interface is up but for its link. -/
def ready : Timeline Action Host where
  now := 0
  world := { ({} : HostSetup).host with
    mailbox := { claimed := true, pending := EventSet.single .linkStackReady }
    interface := { snapshot := { flags := Flags.up } } }

def established : Manager × Timeline Action Host := left {} (Manager.start 1 {} ready)

/-- After a first cycle in which nothing was reported. -/
def quiet : Manager × Timeline Action Host := left {} (established.1.cycle established.2)

/-- A status will be reported one second after the first attempt. -/
def changing : Timeline Action Host :=
  { established.2 with agenda := [⟨6 * second, [.report .apDown]⟩] }

def changed : Manager × Timeline Action Host := left {} (established.1.cycle changing)

/-- A status will be reported during the second attempt. -/
def reporting : Timeline Action Host :=
  { quiet.2 with agenda := [⟨36 * second, [.report .stationDown]⟩] }

def reported : Manager × Timeline Action Host := left {} (quiet.1.cycle reporting)

theorem life_established : Life {} ready [] established.1 established.2 := by
  have hstart : Manager.start 1 {} ready = .ok (established.1, .ok ()) established.2 := rfl
  exact (Life.begin.start_ends 1).of_ok hstart

theorem life_quiet : Life {} ready
    [.attempted (.ok .pending) .none, .mirrored .none (some .down)] quiet.1 quiet.2 := by
  have hhear : established.1.hear established.2 = .ok _ _ := rfl
  have hcycle : established.1.cycle established.2 = .ok (quiet.1, _) quiet.2 := rfl
  have hattempt : established.1.associateIfNeeded established.2 = .ok _ _ := rfl
  obtain ⟨_, tlₐ, hattempt', life⟩ := life_established.cycle hhear hcycle
  rw [hattempt] at hattempt'
  cases hattempt'
  exact life

theorem life_changed : Life {} ready
    [.attempted (.ok .pending) .none, .mirrored .apDown (some .down)] changed.1 changed.2 := by
  have scheduled : Life {} ready [] established.1 changing := life_established.others .refl
  have hhear : established.1.hear changing = .ok _ _ := rfl
  have hcycle : established.1.cycle changing = .ok (changed.1, _) changed.2 := rfl
  have hattempt : established.1.associateIfNeeded changing = .ok _ _ := rfl
  obtain ⟨_, tlₐ, hattempt', life⟩ := scheduled.cycle hhear hcycle
  rw [hattempt] at hattempt'
  cases hattempt'
  exact life

theorem life_reported : Life {} ready
    [.attempted (.ok .pending) .none, .mirrored .none (some .down),
      .attempted (.ok .pending) .stationDown, .mirrored .stationDown (some .down)]
    reported.1 reported.2 := by
  have scheduled : Life {} ready _ quiet.1 reporting := life_quiet.others .refl
  have hhear : quiet.1.hear reporting = .ok _ _ := rfl
  have hcycle : quiet.1.cycle reporting = .ok (reported.1, _) reported.2 := rfl
  have hattempt : quiet.1.associateIfNeeded reporting = .ok _ _ := rfl
  obtain ⟨_, tlₐ, hattempt', life⟩ := scheduled.cycle hhear hcycle
  rw [hattempt] at hattempt'
  cases hattempt'
  exact life

end Associating

open Associating

/-- An attempt that nothing follows is pending as one would expect. -/
theorem quiet_attempt_is_associating : quiet.1.phase quiet.2.world = .associating := by
  have hoffline : quiet.2.world.Offline := ⟨rfl, rfl, rfl, rfl, rfl⟩
  have hlast := (associating_iff life_quiet ⟨rfl, rfl, rfl, rfl⟩ rfl hoffline).2.2 []
    (.ok .pending) .none [.mirrored .none (some .down)] rfl (by decide)
  exact (hlast.2 rfl).mpr ⟨rfl, by decide⟩

/-- **The phase misreads two lives.**  If the first status of all that a manager looks at is a change
since its attempt returned, the phase stays `associating`.  And if a status is reported during an
attempt, the phase is `idle` as soon as the manager looks at it, although nothing has changed
since the attempt returned. -/
theorem associating_misreads :
    (∃ ms m tl, Life {} ready ms m tl ∧ tl.world.Offline ∧
      m.phase tl.world = .associating ∧ ¬ Awaited ms) ∧
    (∃ ms m tl, Life {} ready ms m tl ∧ tl.world.Offline ∧
      m.phase tl.world = .idle ∧ Awaited ms) := by
  constructor
  · refine ⟨_, _, _, life_changed, ⟨rfl, rfl, rfl, rfl, rfl⟩, rfl, ?_⟩
    intro hawaited
    obtain ⟨past, status, later, hsplit, _, hlooks⟩ := hawaited
    rcases past with _ | ⟨x, _ | ⟨y, past⟩⟩
    · cases hsplit
      exact absurd (hlooks .apDown List.mem_cons_self) (by decide)
    · cases hsplit
    · cases past <;> cases hsplit
  · refine ⟨_, _, _, life_reported, ⟨rfl, rfl, rfl, rfl, rfl⟩, rfl, ?_⟩
    exact ⟨[_, _], .stationDown, [_], rfl, by decide, by decide⟩

end Uplink
