import Mathlib.Logic.Basic
import Uplink.Proofs.Lives

/-!
# Reconciliation settles in one pass

The manager keeps a flag that acquisition runs, and nobody but the manager starts or stops
acquisition.  So the flag agrees with the interface at every moment of a life, and what
reconciliation does on its account is right.

* `Manager.dueCall`                  the call that reconciliation makes, if it makes one;
* `Manager.reconcile_succeeds`       reconciliation with a call that the stack accepts;
* `Manager.reconcile_fails`          reconciliation with a call that the stack refuses;
* `Manager.Settled`                  link, acquisition, address and flag as they should be;
* `History.agrees`                   the flag agrees with the interface, at every moment;
* `reconciliation_settles`           reconciliation at any moment of any life.
-/

namespace Uplink

open Host

/-! ## one pass -/

namespace Manager

variable {m : Manager} {h : Host} {call : InterfaceCall}

/-- The call that reconciliation makes, if it makes one. -/
def dueCall (m : Manager) (s : Snapshot) : Option InterfaceCall :=
  if s.hasLink then
    if m.acquiring then none else some .startAcquisition
  else if s.hasAddress || m.acquiring then some .releaseAndStop else none

theorem dueCall_eq_start_iff {s : Snapshot} :
    m.dueCall s = some .startAcquisition ↔ s.hasLink = true ∧ m.acquiring = false := by
  unfold dueCall
  cases s.hasLink <;> cases s.hasAddress <;> cases m.acquiring <;> decide

theorem dueCall_eq_release_iff {s : Snapshot} :
    m.dueCall s = some .releaseAndStop ↔
      s.hasLink = false ∧ (s.hasAddress = true ∨ m.acquiring = true) := by
  unfold dueCall
  cases s.hasLink <;> cases s.hasAddress <;> cases m.acquiring <;> decide

theorem dueCall_eq_none_iff {s : Snapshot} :
    m.dueCall s = none ↔ (s.hasLink = true ∧ m.acquiring = true) ∨
      (s.hasLink = false ∧ s.hasAddress = false ∧ m.acquiring = false) := by
  unfold dueCall
  cases s.hasLink <;> cases s.hasAddress <;> cases m.acquiring <;> decide

/-- Reconciliation makes two calls at most: it starts acquisition, or it stops it. -/
theorem dueCall_cases {s : Snapshot} (hd : m.dueCall s = some call) :
    call = .startAcquisition ∨ call = .releaseAndStop := by
  unfold dueCall at hd
  split at hd
  · split at hd
    · cases hd
    · exact Or.inl (Option.some.inj hd).symm
  · split at hd
    · exact Or.inr (Option.some.inj hd).symm
    · cases hd

theorem reconcile_of_none (now : Nat) (hd : m.dueCall h.interface.snapshot = none) :
    m.reconcileAddress now h = ((m, none), h) := by
  unfold reconcileAddress
  obtain ⟨hlink, hrun⟩ | ⟨hlink, haddress, hrun⟩ := dueCall_eq_none_iff.mp hd
  · rw [if_pos hlink, if_pos hrun]
  · rw [if_neg (by simp [hlink]), if_neg (by simp [haddress, hrun])]

theorem reconcile_of_start (now : Nat)
    (hd : m.dueCall h.interface.snapshot = some .startAcquisition) :
    m.reconcileAddress now h = (((m.startAcquisition now h).1.1,
      some (m.startAcquisition now h).1.2), (m.startAcquisition now h).2) := by
  obtain ⟨hlink, hrun⟩ := dueCall_eq_start_iff.mp hd
  unfold reconcileAddress
  rw [if_pos hlink, if_neg (by simp [hrun])]

theorem reconcile_of_release (now : Nat)
    (hd : m.dueCall h.interface.snapshot = some .releaseAndStop) :
    m.reconcileAddress now h = (((m.releaseAndStop now h).1.1,
      some (m.releaseAndStop now h).1.2), (m.releaseAndStop now h).2) := by
  obtain ⟨hlink, hrun⟩ := dueCall_eq_release_iff.mp hd
  unfold reconcileAddress
  rw [if_neg (by simp [hlink]), if_pos (by simpa using hrun)]

/-- What a call of reconciliation was, told by its success. -/
def changeOf : InterfaceCall → AddressChange
  | .startAcquisition => .started
  | _ => .released

/-- **A pass whose call the stack accepts.** -/
theorem reconcile_succeeds (now : Nat) (hd : m.dueCall h.interface.snapshot = some call)
    (hr : h.interface.refusal call = none) :
    ∃ h', m.reconcileAddress now h
        = (({ m with acquiring := decide (call = .startAcquisition) }, some (changeOf call)), h') ∧
      h'.interface = h.interface.call call ∧ callsSince h h' = [call] := by
  obtain ⟨hu, hi⟩ := accepts_use now hr
  obtain rfl | rfl := dueCall_cases hd
  · refine ⟨(h.use now .startAcquisition).2.note .acquisitionStarted, ?_, hi,
      callsSince_use h now _ _⟩
    rw [reconcile_of_start now hd, startAcquisition, hu]
    rfl
  · refine ⟨(h.use now .releaseAndStop).2.note .addressReleased, ?_, hi,
      callsSince_use h now _ _⟩
    rw [reconcile_of_release now hd, releaseAndStop, hu]
    rfl

/-- **A pass whose call the stack refuses** leaves manager and interface as they are. -/
theorem reconcile_fails (now : Nat) (hd : m.dueCall h.interface.snapshot = some call)
    {e : StackFault} (hr : h.interface.refusal call = some e) :
    ∃ h', m.reconcileAddress now h = ((m, some (.failed e)), h') ∧
      h'.interface = h.interface ∧ callsSince h h' = [call] := by
  obtain ⟨hu, hi⟩ := refuses_use now hr
  obtain rfl | rfl := dueCall_cases hd
  · refine ⟨(h.use now .startAcquisition).2.note (.acquisitionFailed e), ?_, hi,
      callsSince_use h now _ _⟩
    rw [reconcile_of_start now hd, startAcquisition, hu]
  · refine ⟨(h.use now .releaseAndStop).2.note (.releaseFailed e), ?_, hi,
      callsSince_use h now _ _⟩
    rw [reconcile_of_release now hd, releaseAndStop, hu]

/-- A pass makes the call that is due. -/
theorem callsSince_reconcile (m : Manager) (now : Nat) (h : Host) :
    callsSince h (m.reconcileAddress now h).2 = (m.dueCall h.interface.snapshot).toList := by
  cases hd : m.dueCall h.interface.snapshot with
  | none =>
    rw [reconcile_of_none now hd]
    exact callsSince_self h
  | some call =>
    cases hr : h.interface.refusal call with
    | none =>
      obtain ⟨h', heq, _, hcalls⟩ := reconcile_succeeds now hd hr
      rw [heq]
      exact hcalls
    | some e =>
      obtain ⟨h', heq, _, hcalls⟩ := reconcile_fails now hd hr
      rw [heq]
      exact hcalls

/-! ### settled -/

/-- The link is up and acquisition runs, or else the link is down, acquisition does not run and
there is no address; and the flag of the manager tells whether acquisition runs. -/
structure Settled (m : Manager) (i : Interface) : Prop where
  settled : Xor (i.snapshot.hasLink = true ∧ i.acquiring = true)
    (i.snapshot.hasLink = false ∧ i.acquiring = false ∧ i.snapshot.ipv4 = Ipv4.unspecified)
  agrees : m.acquiring = i.acquiring

variable {i : Interface}

theorem settled_up (hlink : i.snapshot.hasLink = true) (hrun : i.acquiring = true)
    (hm : m.acquiring = i.acquiring) : m.Settled i := by
  refine ⟨Or.inl ⟨⟨hlink, hrun⟩, fun h => ?_⟩, hm⟩
  rw [hlink] at h
  exact absurd h.1 (by decide)

theorem settled_down (hlink : i.snapshot.hasLink = false) (hrun : i.acquiring = false)
    (haddress : i.snapshot.ipv4 = Ipv4.unspecified) (hm : m.acquiring = i.acquiring) :
    m.Settled i := by
  refine ⟨Or.inr ⟨⟨hlink, hrun, haddress⟩, fun h => ?_⟩, hm⟩
  rw [hlink] at h
  exact absurd h.1 (by decide)

theorem hasAddress_eq_false_iff {s : Snapshot} :
    s.hasAddress = false ↔ s.ipv4 = Ipv4.unspecified := by simp [Snapshot.hasAddress]

theorem Settled.due_none (hs : m.Settled i) : m.dueCall i.snapshot = none := by
  rw [dueCall_eq_none_iff, hs.agrees]
  obtain ⟨hup, _⟩ | ⟨⟨hlink, hrun, haddress⟩, _⟩ := hs.settled
  · exact Or.inl hup
  · exact Or.inr ⟨hlink, hasAddress_eq_false_iff.mpr haddress, hrun⟩

theorem settled_of_due_none (hm : m.acquiring = i.acquiring) (hd : m.dueCall i.snapshot = none) :
    m.Settled i := by
  obtain ⟨hlink, hrun⟩ | ⟨hlink, haddress, hrun⟩ := dueCall_eq_none_iff.mp hd
  · exact settled_up hlink (hm ▸ hrun) hm
  · exact settled_down hlink (hm ▸ hrun) (hasAddress_eq_false_iff.mp haddress) hm

theorem settled_of_call (hd : m.dueCall i.snapshot = some call) :
    Settled { m with acquiring := decide (call = .startAcquisition) } (i.call call) := by
  obtain rfl | rfl := dueCall_cases hd
  · exact settled_up (dueCall_eq_start_iff.mp hd).1 rfl rfl
  · exact settled_down (dueCall_eq_release_iff.mp hd).1 rfl rfl rfl

end Manager

/-! ## at every moment -/

/-- No action starts or stops acquisition. -/
theorem Action.acquiring_changed (a : Action) (i : Interface) :
    (a.changed i).acquiring = i.acquiring := by
  cases a <;> rfl

/-- A call that is not about acquisition leaves it as it is. -/
theorem Host.acquiring_use (h : Host) (now : Nat) {call : InterfaceCall}
    (hs : call ≠ .startAcquisition) (hr : call ≠ .releaseAndStop) :
    (h.use now call).2.interface.acquiring = h.interface.acquiring := by
  rw [interface_use]
  unfold Interface.attempt
  split
  · cases call with
    | startAcquisition => exact absurd rfl hs
    | releaseAndStop => exact absurd rfl hr
    | _ => rfl
  · rfl

theorem Host.acquiring_perform (a : Action) (h : Host) :
    (a.perform h).2.interface.acquiring = h.interface.acquiring := by
  obtain ⟨_, ht, _⟩ := a.told_perform h
  rw [ht.interface_eq, a.interface_alone, a.acquiring_changed]

theorem Host.Stirs.acquiring {A : Action → Prop} {h h' : Host} (hs : Stirs A h h') :
    h'.interface.acquiring = h.interface.acquiring := by
  cases hs with
  | report status => exact acquiring_perform (.report status) h
  | react now a _ => exact acquiring_perform a h
  | _ => rfl

namespace Manager

variable {m : Manager} {h : Host}

theorem agrees_startAcquisition (now : Nat) (hm : m.acquiring = h.interface.acquiring) :
    (m.startAcquisition now h).1.1.acquiring
      = (m.startAcquisition now h).2.interface.acquiring := by
  unfold startAcquisition
  cases hr : h.interface.refusal .startAcquisition with
  | none =>
    obtain ⟨hu, hi⟩ := accepts_use now hr
    rw [hu]
    show true = (h.use now .startAcquisition).2.interface.acquiring
    rw [hi]
    rfl
  | some e =>
    rw [use_of_refused now hr]
    exact hm

theorem agrees_reconcile (now : Nat) (hm : m.acquiring = h.interface.acquiring) :
    (m.reconcileAddress now h).1.1.acquiring
      = (m.reconcileAddress now h).2.interface.acquiring := by
  cases hd : m.dueCall h.interface.snapshot with
  | none =>
    rw [reconcile_of_none now hd]
    exact hm
  | some call =>
    cases hr : h.interface.refusal call with
    | none =>
      obtain ⟨h', heq, hi, _⟩ := reconcile_succeeds now hd hr
      rw [heq]
      show _ = h'.interface.acquiring
      rw [hi]
      exact (settled_of_call hd).agrees
    | some e =>
      obtain ⟨h', heq, hi, _⟩ := reconcile_fails now hd hr
      rw [heq]
      show _ = h'.interface.acquiring
      rw [hi]
      exact hm

theorem agrees_adopt (now : Nat) (hm : m.acquiring = h.interface.acquiring) :
    (m.adopt now h).1.acquiring = (m.adopt now h).2.interface.acquiring := by
  unfold adopt
  split
  · refine agrees_startAcquisition now (hm.trans ?_)
    exact (acquiring_use (h.note _) now (by decide) (by decide)).symm
  · exact hm

theorem agrees_attach (module : ModuleIdentity) (now : Nat)
    (hm : m.acquiring = h.interface.acquiring) :
    (m.attach module now h).1.1.acquiring = (m.attach module now h).2.interface.acquiring := by
  have hregister : (h.use now (.register module.mac)).2.interface.acquiring
      = h.interface.acquiring := acquiring_use h now (fun e => nomatch e) fun e => nomatch e
  unfold attach
  split
  · rename_i e h₁ hu
    rw [hu] at hregister
    exact hm.trans hregister.symm
  · rename_i h₁ hu
    rw [hu] at hregister
    refine agrees_adopt now (hm.trans ?_)
    rw [acquiring_use _ now (by decide) (by decide), acquiring_use _ now (by decide) (by decide)]
    exact hregister.symm

theorem noteUnknown_interface (status : RadioStatus) (h : Host) :
    (noteUnknown status h).interface = h.interface := by
  cases status <;> rfl

theorem agrees_mirrorStatus (now : Nat) (hm : m.acquiring = h.interface.acquiring) :
    (m.mirrorStatus now h).1.1.acquiring = (m.mirrorStatus now h).2.interface.acquiring := by
  unfold mirrorStatus
  dsimp only
  split
  · exact hm
  · have hcall : ∀ change : LinkChange, change.call ≠ .startAcquisition ∧
        change.call ≠ .releaseAndStop := by
      intro change
      cases change <;> decide
    have hu := acquiring_use (noteUnknown h.status h) now (hcall (.ofStatus h.status)).1
      (hcall _).2
    rw [noteUnknown_interface] at hu
    exact hm.trans hu.symm

end Manager

/-- **The flag of the manager agrees with the interface**, at every moment. -/
theorem History.agrees {m₀ m : Manager} {h₀ h : Host} {ms : List Moment}
    (hist : History m₀ h₀ ms m h) (h₀' : m₀.acquiring = h₀.interface.acquiring) :
    m.acquiring = h.interface.acquiring := by
  induction hist with
  | begin => exact h₀'
  | stirred _ hs ih => exact ih.trans hs.acquiring.symm
  | attached module now _ ih => exact Manager.agrees_attach module now ih
  | attempted association outcome _ ih => exact ih
  | mirrored now _ ih => exact Manager.agrees_mirrorStatus now ih
  | reconciled now _ ih => exact Manager.agrees_reconcile now ih

/-- **Reconciliation settles in one pass.**  Take any moment of the life of a manager that began with
acquisition off.  The flag of the manager tells whether acquisition runs on the interface.  If the
stack does not refuse the call that reconciliation makes, if it makes one, all is settled
afterwards, and reconciling once more does nothing.  If the stack refuses it, manager and interface
stay as they are, and the next reconciliation makes the same call, unless link or address have
changed meanwhile. -/
theorem reconciliation_settles {m₀ m : Manager} {tl₀ tl : Timeline Action Host} {ms : List Moment}
    (life : Life m₀ tl₀ ms m tl) (fresh : m₀.Fresh)
    (hi : tl₀.world.interface.acquiring = false) (now : Nat) :
    m.acquiring = tl.world.interface.acquiring ∧
    ∃ (m' : Manager) (change : Option AddressChange) (h' : Host) (due : Option InterfaceCall),
      m.reconcileAddress now tl.world = ((m', change), h') ∧
      callsSince tl.world h' = due.toList ∧
      ((∀ call ∈ due, tl.world.interface.refusal call = none) →
        m'.Settled h'.interface ∧
        ∀ later, m'.reconcileAddress later h' = ((m', none), h')) ∧
      (∀ call ∈ due, ∀ e, tl.world.interface.refusal call = some e →
        change = some (.failed e) ∧ m' = m ∧ h'.interface = tl.world.interface ∧
        ∀ later h, h.interface.snapshot = h'.interface.snapshot →
          callsSince h (m'.reconcileAddress later h).2 = [call]) := by
  have hagrees := life.history.agrees (fresh.acquiring.trans hi.symm)
  refine ⟨hagrees, ?_⟩
  cases hd : m.dueCall tl.world.interface.snapshot with
  | none =>
    have hnone := Manager.reconcile_of_none now hd
    refine ⟨m, none, tl.world, none, hnone, callsSince_self _, ?_, fun _ h => nomatch h⟩
    intro _
    exact ⟨Manager.settled_of_due_none hagrees hd, fun later => Manager.reconcile_of_none later hd⟩
  | some call =>
    cases hr : tl.world.interface.refusal call with
    | none =>
      obtain ⟨h', heq, hi', hcalls⟩ := Manager.reconcile_succeeds now hd hr
      have hsettled := Manager.settled_of_call hd
      rw [← hi'] at hsettled
      refine ⟨_, _, h', some call, heq, hcalls, ?_, ?_⟩
      · intro _
        exact ⟨hsettled, fun later => Manager.reconcile_of_none later hsettled.due_none⟩
      · intro call' hcall e hrefused
        cases hcall
        rw [hr] at hrefused
        cases hrefused
    | some e =>
      obtain ⟨h', heq, hi', hcalls⟩ := Manager.reconcile_fails now hd hr
      refine ⟨m, _, h', some call, heq, hcalls, ?_, ?_⟩
      · intro haccepted
        rw [haccepted call rfl] at hr
        cases hr
      · intro call' hcall e' hrefused
        cases hcall
        rw [hr] at hrefused
        cases hrefused
        refine ⟨rfl, rfl, hi', fun later h hsame => ?_⟩
        rw [Manager.callsSince_reconcile, hsame, hi', hd]
        rfl

/-- A link that the stack itself put up is followed by acquisition in one pass. -/
theorem raised_link_is_settled :
    ∃ tl, Life {} slowToDisconnect [] {} tl ∧ tl.world.interface.snapshot.hasLink = true ∧
      ∃ m' h', Manager.reconcileAddress {} 0 tl.world = ((m', some .started), h') ∧
        m'.Settled h'.interface := by
  have life : Life {} slowToDisconnect [] {} { slowToDisconnect with
      world := Reactive.react 0 (Action.changeInterface (some Flags.linkUp) none)
        slowToDisconnect.world } := Life.begin.others (.single (.react 0 _ trivial))
  obtain ⟨_, m', change, h', due, heq, _, hsettles, _⟩ :=
    reconciliation_settles life ⟨rfl, rfl, rfl, rfl⟩ rfl 0
  have hstarted : some AddressChange.started = change := congrArg (fun r => r.1.2) heq
  refine ⟨_, life, rfl, m', h', hstarted ▸ heq, (hsettles ?_).1⟩
  intro call _
  cases call <;> rfl

end Uplink
