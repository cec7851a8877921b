import Mathlib.Logic.Relation
import Uplink.Manager.Startup
import Uplink.Proofs.Accounts
import Uplink.Proofs.Producers

/-!
# Work on the interface

When the manager mirrors a status, reconciles or attaches, all that it does to its host is to call
the interface and to write to the log.

* `Host.Handles`           any number of calls and lines;
* `Host.Handles.status`    the cached status stays, and so does the co-processor;
* `Host.Handles.refusal`   so do the failures with which the interface will meet a call;
* `Host.Handles.pending`   an event that is not of the interface stays pending, or not;
* `Host.Handles.since`     the accounts of the mailbox are kept.
-/

namespace Uplink

namespace Host

/-- One thing that the manager does to its host when it works on the interface. -/
inductive Handle : Host → Host → Prop
  | note {h : Host} (e : LogEntry) : Handle h (h.note e)
  | use {h : Host} (now : Nat) (call : InterfaceCall) : Handle h (h.use now call).2

abbrev Handles : Host → Host → Prop := Relation.ReflTransGen Handle

variable {h₀ h h' : Host}

theorem Handles.note (hd : Handles h₀ h) (e : LogEntry) : Handles h₀ (h.note e) :=
  hd.tail (.note e)

theorem Handles.use (hd : Handles h₀ h) (now : Nat) (call : InterfaceCall) :
    Handles h₀ (h.use now call).2 := hd.tail (.use now call)

theorem status_use (h : Host) (now : Nat) (call : InterfaceCall) :
    (h.use now call).2.status = h.status := by
  obtain ⟨_, ht⟩ := told_use h now call
  exact ht.status_eq

theorem Handles.status (hd : Handles h₀ h) : h.status = h₀.status := by
  induction hd with
  | refl => rfl
  | tail _ hs ih =>
    cases hs with
    | note e => exact ih
    | use now call => exact (status_use _ now call).trans ih

theorem coprocessor_signal {events : EventSet} (hok : h.signal events = .ok h') :
    h'.coprocessor = h.coprocessor := by
  obtain ⟨_, rfl⟩ := eq_of_signal_eq_ok hok
  rfl

theorem coprocessor_signalOrNote (h : Host) (events : EventSet) (failure : LogEntry) :
    (h.signalOrNote events failure).coprocessor = h.coprocessor := by
  unfold signalOrNote
  split
  · exact coprocessor_signal (by assumption)
  · rfl

theorem coprocessor_signalAccepted (h : Host) (events : EventSet) :
    (h.signalAccepted events).2.coprocessor = h.coprocessor := by
  unfold signalAccepted
  split
  · exact coprocessor_signal (by assumption)
  · rfl

theorem coprocessor_observe (h : Host) (snapshot : Snapshot) :
    (h.observe snapshot).coprocessor = h.coprocessor := by
  unfold observe
  dsimp only
  split
  · rfl
  · exact coprocessor_signalOrNote _ _ _

theorem coprocessor_changeInterface (h : Host) (i : Interface) :
    (h.changeInterface i).coprocessor = h.coprocessor := by
  unfold changeInterface
  dsimp only
  split
  · exact coprocessor_observe _ _
  · rfl

theorem coprocessor_use (h : Host) (now : Nat) (call : InterfaceCall) :
    (h.use now call).2.coprocessor = h.coprocessor := by
  cases hr : h.interface.refusal call with
  | none =>
    rw [use_of_accepted now hr]
    exact coprocessor_changeInterface _ _
  | some fault =>
    rw [use_of_refused now hr]
    rfl

theorem Handles.coprocessor (hd : Handles h₀ h) : h.coprocessor = h₀.coprocessor := by
  induction hd with
  | refl => rfl
  | tail _ hs ih =>
    cases hs with
    | note e => exact ih
    | use now call => exact (coprocessor_use _ now call).trans ih

/-- The calls of the manager do not decide which of the next calls fail. -/
theorem refusal_attempt (i : Interface) (call next : InterfaceCall) :
    (i.attempt call).refusal next = i.refusal next := by
  unfold Interface.attempt
  split
  · cases call <;> cases next <;> rfl
  · rfl

theorem Handles.refusal (hd : Handles h₀ h) (call : InterfaceCall) :
    h.interface.refusal call = h₀.interface.refusal call := by
  induction hd with
  | refl => rfl
  | @tail h₁ _ _ hs ih =>
    cases hs with
    | note e => exact ih
    | use now done =>
      rw [interface_use, refusal_attempt]
      exact ih

theorem Handles.pending {e : Event} (he : e.isOfInterface = false) (hd : Handles h₀ h) :
    h.mailbox.pending.Has e ↔ h₀.mailbox.pending.Has e := by
  induction hd with
  | refl => rfl
  | tail _ hs ih =>
    cases hs with
    | note e => exact ih
    | use now call => exact (pending_use he _ now call).trans ih

theorem Handles.since {owed : EventSet} {rs : List Request} (hd : Handles h h')
    (hs : Since h₀ owed rs h) : Since h₀ owed rs h' := by
  induction hd with
  | refl => exact hs
  | tail _ hs ih =>
    cases hs with
    | note e => exact ih.note e
    | use now call => exact ih.use now call

end Host

/-! ## the manager -/

namespace Manager

open Host

variable (m : Manager) (now : Nat) (h : Host)

theorem handles_startAcquisition : Handles h (m.startAcquisition now h).2 := by
  have hu : Handles h (h.use now .startAcquisition).2 := .single (.use now _)
  unfold startAcquisition
  rcases hc : h.use now .startAcquisition with ⟨e | ⟨⟩, h'⟩ <;> rw [hc] at hu
  · exact hu.note _
  · exact hu.note _

theorem handles_releaseAndStop : Handles h (m.releaseAndStop now h).2 := by
  have hu : Handles h (h.use now .releaseAndStop).2 := .single (.use now _)
  unfold releaseAndStop
  rcases hc : h.use now .releaseAndStop with ⟨e | ⟨⟩, h'⟩ <;> rw [hc] at hu
  · exact hu.note _
  · exact hu.note _

theorem handles_reconcile : Handles h (m.reconcileAddress now h).2 := by
  unfold reconcileAddress
  split
  · split
    · exact .refl
    · exact m.handles_startAcquisition now h
  · split
    · exact m.handles_releaseAndStop now h
    · exact .refl

theorem handles_noteUnknown (status : RadioStatus) : Handles h (noteUnknown status h) := by
  cases status with
  | unknown code => exact .single (.note _)
  | _ => exact .refl

theorem handles_mirrorStatus : Handles h (m.mirrorStatus now h).2 := by
  unfold mirrorStatus
  dsimp only
  split
  · exact .refl
  · exact ((handles_noteUnknown h h.status).use now _).note _

theorem handles_adopt : Handles h (m.adopt now h).2 := by
  have hup : Handles h ((h.note (.alreadyAssociated h.status)).use now .setLinkUp).2 :=
    (Handles.note .refl _).use now _
  unfold adopt
  split
  · exact hup.trans (handles_startAcquisition _ now _)
  · exact .refl

theorem handles_attach (module : ModuleIdentity) : Handles h (m.attach module now h).2 := by
  have hu : Handles h (h.use now (.register module.mac)).2 := .single (.use now _)
  unfold attach
  rcases hc : h.use now (.register module.mac) with ⟨e | ⟨⟩, h'⟩ <;> rw [hc] at hu
  · exact hu.note _
  · exact ((hu.use now .setDefault).use now .setUp).trans (handles_adopt _ now _)

end Manager

end Uplink
