import Uplink.Proofs.Moves
import Uplink.Proofs.Transitions

/-!
# Callbacks of the stack

When a registered interface gets another snapshot, the stack calls its observer back.  For this all
bits of the flags count, also those without a meaning.  What the observer makes of a callback
depends on the snapshot that it has observed last.

* `Scene`                    the interface and the snapshot last observed;
* `Scene.CallsBack`          the stack calls back when the interface becomes another;
* `Scene.UpToDate`           the observer has nothing to catch up on;
* `Host.changesSince`        the changes of the interface by others between two moments of a host,
                             each with the scene that it met, as the trace tells them;
* `Change.Fits`              two changes at which the observer learns as much;
* `Scene.Current`            the stack keeps a registered interface and its observer in line.
-/

namespace Uplink

/-! ## scenes -/

/-- What a callback depends on. -/
structure Scene where
  interface : Interface
  /-- The snapshot last observed. -/
  seen : Snapshot
  deriving DecidableEq

namespace Scene

/-- The stack calls back when the interface becomes `i`. -/
def CallsBack (s : Scene) (i : Interface) : Prop :=
  i.snapshot ≠ s.interface.snapshot ∧ i.mac.isSome

instance (s : Scene) (i : Interface) : Decidable (s.CallsBack i) :=
  inferInstanceAs (Decidable (_ ∧ _))

/-- Between the snapshot last observed and that of the interface nothing has happened. -/
def UpToDate (s : Scene) : Prop := s.seen.Agrees s.interface.snapshot

instance (s : Scene) : Decidable s.UpToDate :=
  decidable_of_iff _ Snapshot.eventsBetween_eq_empty_iff

def become (s : Scene) (i : Interface) : Scene :=
  ⟨i, if s.CallsBack i then i.snapshot else s.seen⟩

def performed (s : Scene) : Action → Scene
  | .observe snapshot => { s with seen := snapshot }
  | a => s.become (a.changed s.interface)

/-- What becomes of the scene with an entry of the trace. -/
def after (s : Scene) : TraceEntry → Scene
  | .called _ call => s.become (s.interface.attempt call)
  | .fired _ a _ => s.performed a
  | _ => s

theorem become_of_snapshot_eq {s : Scene} {i : Interface}
    (h : i.snapshot = s.interface.snapshot) : s.become i = ⟨i, s.seen⟩ := by
  have hquiet : ¬ s.CallsBack i := fun hback => hback.1 h
  rw [become, if_neg hquiet]

theorem become_self (s : Scene) : s.become s.interface = s := become_of_snapshot_eq rfl

end Scene

/-! ## changes -/

/-- Somebody changes the interface. -/
structure Change where
  before : Scene
  after : Interface

namespace Change

def CallsBack (c : Change) : Prop := c.before.CallsBack c.after

instance (c : Change) : Decidable c.CallsBack := inferInstanceAs (Decidable (Scene.CallsBack _ _))

/-- The stack calls back at both changes or at neither, or else the observer has nothing to catch up
on. -/
def Fits (c c' : Change) : Prop := (c.CallsBack ↔ c'.CallsBack) ∨ c.before.UpToDate

instance (c c' : Change) : Decidable (c.Fits c') := inferInstanceAs (Decidable (_ ∨ _))

end Change

/-- The change of the interface that an action makes, if it makes one. -/
def Action.change? (a : Action) (s : Scene) : Option Change :=
  match a with
  | changeInterface _ _ => some ⟨s, a.changed s.interface⟩
  | _ => none

def TraceEntry.change? (e : TraceEntry) (s : Scene) : Option Change :=
  e.action?.bind (·.change? s)

/-- The changes of the interface by others, in a trace that was begun at the scene `s`. -/
def changesIn (s : Scene) : List TraceEntry → List Change
  | [] => []
  | e :: es => (e.change? s).toList ++ changesIn (s.after e) es

theorem changesIn_append (s : Scene) (as bs : List TraceEntry) :
    changesIn s (as ++ bs) = changesIn s as ++ changesIn (as.foldl Scene.after s) bs := by
  induction as generalizing s with
  | nil => rfl
  | cons e as ih =>
    show (e.change? s).toList ++ changesIn (s.after e) (as ++ bs) = _
    rw [ih, ← List.append_assoc]
    rfl

theorem changesIn_of_no_action (s : Scene) {entries : List TraceEntry}
    (h : ∀ e ∈ entries, e.action? = none) : changesIn s entries = [] := by
  induction entries generalizing s with
  | nil => rfl
  | cons e es ih =>
    obtain ⟨he, hes⟩ := List.forall_mem_cons.mp h
    show (e.change? s).toList ++ changesIn (s.after e) es = []
    rw [ih _ hes, TraceEntry.change?, he]
    rfl

/-! ## an observer that misses nothing -/

/-- Somebody calls the observer past the stack. -/
def TraceEntry.Bypasses (e : TraceEntry) : Prop :=
  ∃ snapshot, e.action? = some (.observe snapshot)

namespace Scene

/-- The interface is registered, and its observer has nothing to catch up on. -/
structure Current (s : Scene) : Prop where
  registered : s.interface.mac.isSome = true
  upToDate : s.UpToDate

variable {s : Scene}

theorem Current.become (hs : s.Current) {i : Interface} (hmac : i.mac.isSome = true) :
    (s.become i).Current := by
  refine ⟨hmac, ?_⟩
  unfold Scene.become
  split
  · exact ⟨rfl, rfl, rfl⟩
  · rename_i hquiet
    have hsame : i.snapshot = s.interface.snapshot := by
      apply Classical.byContradiction
      intro hchanged
      exact hquiet ⟨hchanged, hmac⟩
    show s.seen.Agrees i.snapshot
    rw [hsame]
    exact hs.upToDate

/-- **It stays so**, unless somebody bypasses the stack. -/
theorem Current.after (hs : s.Current) {e : TraceEntry}
    (he : ¬ e.Bypasses) : (s.after e).Current := by
  cases e with
  | asked time request timeout => exact hs
  | accepted events => exact hs
  | called time call =>
    refine hs.become ?_
    unfold Interface.attempt
    split
    · cases call with
      | register mac => rfl
      | _ => exact hs.registered
    · exact hs.registered
  | fired time a result =>
    cases a with
    | observe snapshot => exact absurd ⟨snapshot, rfl⟩ he
    | _ => exact hs.become hs.registered

theorem Current.upToDate_of_mem_changesIn (hs : s.Current) {entries : List TraceEntry}
    (hentries : ∀ e ∈ entries, ¬ e.Bypasses) :
    ∀ c ∈ changesIn s entries, c.before.UpToDate := by
  induction entries generalizing s with
  | nil => exact fun c hc => absurd hc List.not_mem_nil
  | cons e es ih =>
    obtain ⟨he, hes⟩ := List.forall_mem_cons.mp hentries
    intro c hc
    obtain hc | hc := List.mem_append.mp hc
    · rw [Option.mem_toList, TraceEntry.change?, Option.bind_eq_some_iff] at hc
      obtain ⟨a, _, ha⟩ := hc
      cases a with
      | changeInterface flags ipv4 =>
        cases ha
        exact hs.upToDate
      | _ => cases ha
    · exact ih (hs.after he) hes c hc

theorem Current.foldl_after (hs : s.Current) {entries : List TraceEntry}
    (hentries : ∀ e ∈ entries, ¬ e.Bypasses) :
    (entries.foldl Scene.after s).Current := by
  induction entries generalizing s with
  | nil => exact hs
  | cons e es ih =>
    obtain ⟨he, hes⟩ := List.forall_mem_cons.mp hentries
    exact ih (hs.after he) hes

end Scene

/-! ## what a host goes through -/

namespace Host

def scene (h : Host) : Scene := ⟨h.interface, h.seen⟩

/-- What the stack touches when it changes the interface. -/
theorem exists_changeInterface_eq (h : Host) (i : Interface) : ∃ mailbox trace log,
    h.changeInterface i
      = { h with mailbox, interface := i, seen := (h.scene.become i).seen, trace, log } := by
  unfold changeInterface Scene.become
  show ∃ mailbox trace log, (if h.scene.CallsBack i then _ else _) = _
  split
  · exact exists_observe_eq { h with interface := i } i.snapshot
  · exact ⟨h.mailbox, h.trace, h.log, rfl⟩

theorem exists_use_eq (h : Host) (now : Nat) (call : InterfaceCall) : ∃ mailbox trace log,
    (h.use now call).2
      = { h with
          mailbox
          interface := h.interface.attempt call
          seen := (h.scene.become (h.interface.attempt call)).seen
          trace
          log } := by
  unfold Interface.attempt
  cases hr : h.interface.refusal call with
  | none =>
    rw [use_of_accepted now hr, if_pos rfl]
    exact exists_changeInterface_eq (h.record (.called now call)) (h.interface.call call)
  | some e =>
    rw [use_of_refused now hr, if_neg (Option.some_ne_none e),
      show h.scene.become h.interface = h.scene from h.scene.become_self]
    exact ⟨h.mailbox, _, h.log, rfl⟩

theorem scene_use (h : Host) (now : Nat) (call : InterfaceCall) :
    (h.use now call).2.scene = h.scene.become (h.interface.attempt call) := by
  obtain ⟨mailbox, trace, log, heq⟩ := exists_use_eq h now call
  rw [heq]
  rfl

theorem scene_perform (a : Action) (h : Host) :
    (a.perform h).2.scene = h.scene.performed a := by
  by_cases ha : a.tells = true
  · obtain ⟨mailbox, status, trace, log, heq⟩ := exists_tells_eq ha h
    have hquiet : h.scene.performed a = h.scene := by
      cases a with
      | observe snapshot => cases ha
      | changeInterface flags ipv4 => cases ha
      | configureInterface change => cases ha
      | _ => exact h.scene.become_self
    rw [heq, hquiet]
    rfl
  · cases a with
    | observe snapshot =>
      obtain ⟨mailbox, trace, log, heq⟩ := exists_observe_eq h snapshot
      exact congrArg scene heq
    | changeInterface flags ipv4 =>
      obtain ⟨mailbox, trace, log, heq⟩ := exists_changeInterface_eq h
        ((Action.changeInterface flags ipv4).changed h.interface)
      exact congrArg scene heq
    | configureInterface change =>
      have hsettings : (change.applyTo h.interface).snapshot = h.scene.interface.snapshot := rfl
      exact (Scene.become_of_snapshot_eq hsettings).symm
    | addWaiting n => exact h.scene.become_self.symm
    | subWaiting n => exact h.scene.become_self.symm
    | writeStore ssid psk => exact h.scene.become_self.symm
    | configureCoprocessor change => exact h.scene.become_self.symm
    | _ => exact absurd rfl ha

/-- **The trace tells the scene.** -/
theorem retold_scene : Retold scene Scene.after where
  frame _ _ _ _ _ _ := rfl
  asked _ _ _ _ := rfl
  accepted _ _ := rfl
  called h now call := scene_use h now call
  fired h _ a _ := scene_perform a h

/-- The changes of the interface by others between two moments of a host. -/
def changesSince (h h' : Host) : List Change := changesIn h.scene (entriesSince h h')

variable {h h₁ h' : Host}

theorem Moves.changesSince_trans (ha : Moves h h₁) (hb : Moves h₁ h') :
    changesSince h h' = changesSince h h₁ ++ changesSince h₁ h' := by
  unfold changesSince
  rw [ha.entriesSince_trans hb, changesIn_append, ha.writes.view_eq retold_scene]

/-- The manager's own calls are none of them. -/
theorem Owns.changesSince (ho : Owns h h') : changesSince h h' = [] :=
  changesIn_of_no_action _ ho.entries

theorem changesSince_react (h : Host) (now : Nat) (a : Action) :
    changesSince h (Reactive.react now a h) = (a.change? h.scene).toList := by
  obtain ⟨sets, hw⟩ := writes_react h now a
  have hsilent : changesIn h.scene (sets.map TraceEntry.accepted) = [] := by
    apply changesIn_of_no_action
    intro e he
    obtain ⟨events, _, rfl⟩ := List.mem_map.mp he
    rfl
  unfold Host.changesSince
  rw [entriesSince_eq hw.trace_eq, changesIn_append, hsilent, retold_scene.foldl_accepted]
  exact List.append_nil _

end Host

end Uplink
