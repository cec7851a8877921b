import Uplink.Proofs.Lives

/-!
# What a manager remembers

What a manager knows of its past is a function of its moments: the status mirrored last, whether an
association is under way, and how often an unknown status forced the link up.

* `mirroredAfter`       the status mirrored after some moments;
* `Coherent`            every look at the status changed the link exactly if that status was new;
* `underWayAfter`       whether an association is under way after some moments;
* `Manager.Remembers`   a manager knows this of the moments since it was another;
* `History.remembers`   every manager does.
-/

namespace Uplink

open Host

/-! ## moments -/

namespace Moment

/-- The status that is mirrored from a moment on, if the moment is about that. -/
def shown? : Moment → Option RadioStatus
  | adopted s => some s
  | attempted _ _ => none
  | mirrored s _ => some s

/-- A look at the status changes the link exactly if that status was not mirrored before, and only an
associated status is adopted. -/
def Fits (before : Option RadioStatus) : Moment → Prop
  | adopted s => s.isAssociated = true
  | attempted _ _ => True
  | mirrored s change =>
    change = if before = some s then none else some (LinkChange.ofStatus s)

/-- An unknown status forced the link up. -/
def isFailSafe : Moment → Bool
  | mirrored _ (some .failSafeUp) => true
  | _ => false

/-- Whether an association is under way after a moment.  A pending attempt begins it; a look at a
status ends it, if another status was mirrored before. -/
def underWay (before : Option RadioStatus) (flag : Bool) : Moment → Bool
  | adopted _ => flag
  | attempted outcome _ => decide (outcome = .ok .pending)
  | mirrored s _ => flag && (before.isNone || decide (before = some s))

end Moment

/-- The status mirrored after the moments, `before` being the one mirrored before them. -/
def mirroredAfter (before : Option RadioStatus) (ms : List Moment) : Option RadioStatus :=
  ms.foldl (fun shown x => x.shown?.or shown) before

/-- Every look at the status fits to what was mirrored before it. -/
def Coherent (before : Option RadioStatus) : List Moment → Prop
  | [] => True
  | x :: xs => x.Fits before ∧ Coherent (x.shown?.or before) xs

def underWayAfter (before : Option RadioStatus) (flag : Bool) : List Moment → Bool
  | [] => flag
  | x :: xs => underWayAfter (x.shown?.or before) (x.underWay before flag) xs

def failSafes (ms : List Moment) : Nat := ms.countP Moment.isFailSafe

section
variable (before : Option RadioStatus) (flag : Bool) (as bs : List Moment)

theorem mirroredAfter_append :
    mirroredAfter before (as ++ bs) = mirroredAfter (mirroredAfter before as) bs :=
  List.foldl_append

theorem coherent_append :
    Coherent before (as ++ bs) ↔ Coherent before as ∧ Coherent (mirroredAfter before as) bs := by
  induction as generalizing before with
  | nil => exact (iff_of_eq (true_and _)).symm
  | cons x as ih =>
    show x.Fits before ∧ Coherent (x.shown?.or before) (as ++ bs) ↔
      (x.Fits before ∧ Coherent (x.shown?.or before) as) ∧ _
    rw [ih, and_assoc]
    rfl

theorem underWayAfter_append :
    underWayAfter before flag (as ++ bs)
      = underWayAfter (mirroredAfter before as) (underWayAfter before flag as) bs := by
  induction as generalizing before flag with
  | nil => rfl
  | cons x as ih => exact ih _ _

theorem failSafes_append : failSafes (as ++ bs) = failSafes as + failSafes bs := List.countP_append

variable {before} in
theorem fits_of_coherent {past later : List Moment} {x : Moment}
    (h : Coherent before (past ++ x :: later)) : x.Fits (mirroredAfter before past) :=
  ((coherent_append before past (x :: later)).mp h).2.1

/-! ### of an attempt and of a look -/

variable (outcome : Option (Except AttemptFault AttemptOutcome)) (status : RadioStatus)

theorem mirroredAfter_tried : mirroredAfter before (tried outcome status) = before := by
  cases outcome <;> rfl

theorem failSafes_tried : failSafes (tried outcome status) = 0 := by
  cases outcome <;> rfl

theorem failSafes_look (change : Option LinkChange) (later : List Moment) :
    failSafes (.mirrored status change :: later)
      = (if change = some .failSafeUp then 1 else 0) + failSafes later := by
  unfold failSafes
  rw [List.countP_cons, Nat.add_comm]
  rcases change with _ | ⟨_ | _ | _⟩ <;> rfl

end

/-! ## managers -/

namespace Manager

/-- What the manager `m` knows of the moments since it was `m₀`. -/
structure Remembers (m₀ : Manager) (ms : List Moment) (m : Manager) : Prop where
  mirrored_eq : m.mirrored = mirroredAfter m₀.mirrored ms
  coherent : Coherent m₀.mirrored ms
  underWay_eq : m.underWay = underWayAfter m₀.mirrored m₀.underWay ms
  failSafe_eq : m.failSafeLinks = m₀.failSafeLinks + UInt32.ofNat (failSafes ms)

variable {m₀ m m' : Manager} {as bs : List Moment} {h : Host}

/-- Nothing happened that a manager remembers. -/
theorem remembers_nothing (hs : m'.mirrored = m.mirrored) (hu : m'.underWay = m.underWay)
    (hf : m'.failSafeLinks = m.failSafeLinks) : m.Remembers [] m' where
  mirrored_eq := hs
  coherent := trivial
  underWay_eq := hu
  failSafe_eq := by rw [hf]; exact (UInt32.add_zero _).symm

theorem Remembers.trans (ha : m₀.Remembers as m) (hb : m.Remembers bs m') :
    m₀.Remembers (as ++ bs) m' where
  mirrored_eq := by rw [mirroredAfter_append, ← ha.mirrored_eq, hb.mirrored_eq]
  coherent := by
    rw [coherent_append, ← ha.mirrored_eq]
    exact ⟨ha.coherent, hb.coherent⟩
  underWay_eq := by
    rw [underWayAfter_append, ← ha.mirrored_eq, ← ha.underWay_eq, hb.underWay_eq]
  failSafe_eq := by
    rw [hb.failSafe_eq, ha.failSafe_eq, failSafes_append, UInt32.ofNat_add, UInt32.add_assoc]

theorem remembers_attempt (m : Manager) (association : Association)
    (outcome : Except AttemptFault AttemptOutcome) (status : RadioStatus) :
    m.Remembers [.attempted outcome status]
      { m with association, underWay := decide (outcome = .ok .pending) } where
  mirrored_eq := rfl
  coherent := ⟨trivial, trivial⟩
  underWay_eq := rfl
  failSafe_eq := (UInt32.add_zero _).symm

/-! ### the link -/

theorem isFailSafe_mirrored (s : RadioStatus) :
    (Moment.mirrored s (some (LinkChange.ofStatus s))).isFailSafe = s.isUnknown := by
  cases s <;> rfl

theorem remembers_mirrorStatus (m : Manager) (now : Nat) (h : Host) :
    m.Remembers [.mirrored h.status (m.mirrorStatus now h).1.2] (m.mirrorStatus now h).1.1 := by
  unfold mirrorStatus
  dsimp only
  split
  · rename_i hsame
    refine ⟨hsame, ⟨by rw [Moment.Fits, if_pos hsame], trivial⟩, ?_, (UInt32.add_zero _).symm⟩
    show m.underWay = (m.underWay && (m.mirrored.isNone || decide (m.mirrored = some h.status)))
    rw [hsame, decide_eq_true rfl, Bool.or_true, Bool.and_true]
  · rename_i hother
    refine ⟨rfl, ⟨by rw [Moment.Fits, if_neg hother], trivial⟩, ?_, ?_⟩
    · show (m.underWay && m.mirrored.isNone)
        = (m.underWay && (m.mirrored.isNone || decide (m.mirrored = some h.status)))
      rw [decide_eq_false hother, Bool.or_false]
    · have hcount : failSafes [.mirrored h.status (some (LinkChange.ofStatus h.status))]
          = if h.status.isUnknown then 1 else 0 := by
        rw [failSafes, List.countP_singleton, isFailSafe_mirrored]
      rw [hcount]
      unfold afterMirroring
      dsimp only
      split
      · rfl
      · exact (UInt32.add_zero _).symm

/-! ### address acquisition -/

theorem startAcquisition_eq (m : Manager) (now : Nat) (h : Host) :
    ∃ acquiring, (m.startAcquisition now h).1.1 = { m with acquiring } := by
  unfold startAcquisition
  split
  · exact ⟨true, rfl⟩
  · exact ⟨m.acquiring, rfl⟩

theorem releaseAndStop_eq (m : Manager) (now : Nat) (h : Host) :
    ∃ acquiring, (m.releaseAndStop now h).1.1 = { m with acquiring } := by
  unfold releaseAndStop
  split
  · exact ⟨false, rfl⟩
  · exact ⟨m.acquiring, rfl⟩

theorem reconcileAddress_eq (m : Manager) (now : Nat) (h : Host) :
    ∃ acquiring, (m.reconcileAddress now h).1.1 = { m with acquiring } := by
  unfold reconcileAddress
  split
  · split
    · exact ⟨m.acquiring, rfl⟩
    · exact m.startAcquisition_eq now h
  · split
    · exact m.releaseAndStop_eq now h
    · exact ⟨m.acquiring, rfl⟩

/-! ### startup -/

/-- A status that the manager finds associated is mirrored, and another is not. -/
theorem adopt_eq (m : Manager) (now : Nat) (h : Host) :
    (m.adopt now h).2.status = h.status ∧ ∃ acquiring, (m.adopt now h).1 = { m with
      mirrored := if h.status.isAssociated then some h.status else m.mirrored
      acquiring } := by
  unfold adopt
  split
  · refine ⟨?_, startAcquisition_eq _ now _⟩
    rw [(handles_startAcquisition _ now _).status, status_use]
    rfl
  · exact ⟨rfl, m.acquiring, rfl⟩

/-- An attachment that is refused leaves the manager as it is, and another one adopts. -/
theorem attach_eq (m : Manager) (module : ModuleIdentity) (now : Nat) (h : Host) :
    ((m.attach module now h).1.2 ≠ .ok () ∧ (m.attach module now h).1.1 = m) ∨
      ((m.attach module now h).1.2 = .ok () ∧ (m.attach module now h).2.status = h.status ∧
        ∃ acquiring, (m.attach module now h).1.1 = { m with
          module := some module
          mirrored := if h.status.isAssociated then some h.status else m.mirrored
          acquiring }) := by
  have hregister := status_use h now (.register module.mac)
  unfold attach
  split
  · exact Or.inl ⟨fun e => (nomatch e), rfl⟩
  · rename_i h₁ hu
    rw [hu] at hregister
    have hup : ((h₁.use now .setDefault).2.use now .setUp).2.status = h.status := by
      rw [status_use, status_use]
      exact hregister
    obtain ⟨hstatus, acquiring, heq⟩ := adopt_eq { m with module := some module } now
      ((h₁.use now .setDefault).2.use now .setUp).2
    rw [hup] at hstatus heq
    exact Or.inr ⟨rfl, hstatus, acquiring, heq⟩

theorem remembers_attach (m : Manager) (module : ModuleIdentity) (now : Nat) (h : Host) :
    m.Remembers (adoption (m.attach module now h).1.2 (m.attach module now h).2.status)
      (m.attach module now h).1.1 := by
  obtain ⟨hrefused, heq⟩ | ⟨hok, hstatus, acquiring, heq⟩ := m.attach_eq module now h
  · have hnone : adoption (m.attach module now h).1.2 (m.attach module now h).2.status = [] :=
      if_neg fun hand => hrefused hand.1
    rw [hnone, heq]
    exact remembers_nothing rfl rfl rfl
  · rw [hstatus, hok, heq]
    by_cases hup : h.status.isAssociated = true
    · have hone : adoption (.ok ()) h.status = [.adopted h.status] := if_pos ⟨rfl, hup⟩
      rw [hone, if_pos hup]
      exact ⟨rfl, ⟨hup, trivial⟩, rfl, (UInt32.add_zero _).symm⟩
    · have hnone : adoption (.ok ()) h.status = [] := if_neg fun hand => hup hand.2
      rw [hnone, if_neg hup]
      exact remembers_nothing rfl rfl rfl

end Manager

/-- **A manager knows what its moments were**, as far as it needs to. -/
theorem History.remembers {m₀ m : Manager} {h₀ h : Host} {ms : List Moment}
    (hist : History m₀ h₀ ms m h) : m₀.Remembers ms m := by
  have hquiet : ∀ {ms : List Moment} {m m' : Manager}, m₀.Remembers ms m →
      m.Remembers [] m' → m₀.Remembers ms m' := by
    intro ms m m' hm hq
    have h := hm.trans hq
    rwa [List.append_nil] at h
  induction hist with
  | begin => exact Manager.remembers_nothing rfl rfl rfl
  | stirred _ _ ih => exact ih
  | attached module now _ ih => exact ih.trans (Manager.remembers_attach _ module now _)
  | attempted association outcome _ ih =>
    exact ih.trans (Manager.remembers_attempt _ association outcome _)
  | mirrored now _ ih => exact ih.trans (Manager.remembers_mirrorStatus _ now _)
  | @reconciled ms m h now _ ih =>
    obtain ⟨acquiring, heq⟩ := m.reconcileAddress_eq now h
    rw [heq]
    exact hquiet ih (Manager.remembers_nothing rfl rfl rfl)

end Uplink
