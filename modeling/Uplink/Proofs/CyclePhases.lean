import Uplink.Proofs.LinkMirror
import Uplink.Proofs.Reconciliation

/-!
# Phases after a cycle

After its main wait a cycle brings the link in line with the status, and address acquisition in
line with the link.  Unless the stack refuses that, nothing is left to be done then, and the phase
is none of the passing ones.

* `Manager.adjust`                the part of a cycle that works on link and acquisition;
* `Manager.answer_eq`             an answer is that part, and then the reconnect if asked for;
* `Manager.cycle_eq_parts`        a cycle is its parts, one after the other;
* `Manager.Still`                 link and acquisition are in line, there is nothing to adjust;
* `Manager.cycle_still`           so it is after a cycle;
* `Manager.Shows`                 what phase and view tell of a manager that is still;
* `phase_after_cycle`             a cycle in any life of a manager that is alone with the link.
-/

namespace Uplink

open Host HostRoutine

namespace Manager

variable {m : Manager} {h : Host} {tl tl' : Timeline Action Host}

/-! ## the adjustment -/

/-- Brings the link in line with the status, and address acquisition in line with the link. -/
def adjust (m : Manager) (now : Nat) (h : Host) :
    (Manager × Option LinkChange × Option AddressChange) × Host :=
  let mirrored := m.mirrorStatus now h
  let reconciled := mirrored.1.1.reconcileAddress now mirrored.2
  ((reconciled.1.1, mirrored.1.2, reconciled.1.2), reconciled.2)

/-- The host after the main wait: a wait that has delivered nothing is logged. -/
def afterWait (events : EventSet) (h : Host) : Host :=
  if events = EventSet.empty then h.note .loopTimedOut else h

theorem answer_eq (m : Manager) (attempt : Option (Except AttemptFault AttemptOutcome))
    (events : EventSet) (tl : Timeline Action Host) :
    m.answer attempt events tl =
      let adjusted := m.adjust tl.now (afterWait events tl.world)
      (do
        let (m, renewal) ← adjusted.1.1.renewIfAsked events
        return (m, CycleReport.mk events attempt renewal adjusted.1.2.1 adjusted.1.2.2))
        { tl with world := adjusted.2 } := by
  unfold answer afterWait
  by_cases hnone : events = EventSet.empty
  · rw [if_pos hnone, if_pos hnone]
    rfl
  · rw [if_neg hnone, if_neg hnone]
    rfl

/-- What a cycle does between its main wait and the reconnect. -/
def tend (m : Manager) (events : EventSet) :
    HostRoutine (Manager × Option LinkChange × Option AddressChange) := do
  if events = EventSet.empty then
    note .loopTimedOut
  Routine.act m.adjust

theorem cycle_eq_parts (m : Manager) : m.cycle = (do
    let (m, attempt) ← m.associateIfNeeded
    let events ← awaitAny EventSet.known m.settings.loopTimeout
    let (m, link, address) ← m.tend events
    let (m, renewal) ← m.renewIfAsked events
    return (m, { events, attempt, renewal, link, address })) := by
  unfold cycle tend
  refine congrArg _ (funext fun r => ?_)
  refine congrArg (awaitAny EventSet.known r.1.settings.loopTimeout >>= ·)
    (funext fun events => ?_)
  by_cases hnone : events = EventSet.empty
  · rw [if_pos hnone, if_pos hnone]
    rfl
  · rw [if_neg hnone, if_neg hnone]
    rfl

theorem renewIfAsked_of_not_asked {events : EventSet} (hasked : ¬ events.Has .reconnectRequested) :
    m.renewIfAsked events tl = .ok (m, none) tl := by
  unfold renewIfAsked
  rw [if_neg hasked]
  rfl

/-- A reconnect that is served is reported. -/
theorem not_asked_of_renewIfAsked {events : EventSet}
    {r : Manager × Option (Except AttemptFault AttemptOutcome)}
    (hrenew : m.renewIfAsked events tl = .ok r tl') (hnone : r.2 = none) :
    ¬ events.Has .reconnectRequested := by
  intro hasked
  unfold renewIfAsked at hrenew
  rw [if_pos hasked] at hrenew
  obtain ⟨renewed, tl₁, _, hrecord⟩ := Routine.bind_eq_ok.mp hrenew
  obtain ⟨_, _, _, hpure⟩ := Routine.bind_eq_ok.mp hrecord
  cases hpure
  cases hnone

/-! ## nothing left to adjust -/

/-- The link mirrors the status, and acquisition follows the link. -/
structure Still (m : Manager) (h : Host) : Prop where
  mirrored : m.mirrored = some h.status
  due : m.dueCall h.interface.snapshot = none

theorem adjust_of_still (now : Nat) (hs : m.Still h) : m.adjust now h = ((m, none, none), h) := by
  have hmirror : m.mirrorStatus now h = ((m, none), h) := if_pos hs.mirrored
  unfold adjust
  rw [hmirror]
  dsimp only
  rw [reconcile_of_none now hs.due]

theorem mirrored_mirrorStatus (m : Manager) (now : Nat) (h : Host) :
    (m.mirrorStatus now h).1.1.mirrored = some h.status := by
  unfold mirrorStatus
  dsimp only
  split
  · assumption
  · rfl

/-- A pass that the stack does not refuse leaves no call due. -/
theorem due_reconcile (now : Nat)
    (hok : ∀ e, (m.reconcileAddress now h).1.2 ≠ some (.failed e)) :
    (m.reconcileAddress now h).1.1.dueCall (m.reconcileAddress now h).2.interface.snapshot
      = none := by
  cases hd : m.dueCall h.interface.snapshot with
  | none =>
    rw [reconcile_of_none now hd]
    exact hd
  | some call =>
    cases hr : h.interface.refusal call with
    | none =>
      obtain ⟨h', heq, hi, _⟩ := reconcile_succeeds now hd hr
      rw [heq, hi]
      exact (settled_of_call hd).due_none
    | some e =>
      obtain ⟨h', heq, _, _⟩ := reconcile_fails now hd hr
      rw [heq] at hok
      exact absurd rfl (hok e)

/-- **An adjustment** that the stack does not refuse leaves nothing to adjust. -/
theorem still_adjust (now : Nat) (hok : ∀ e, (m.adjust now h).1.2.2 ≠ some (.failed e)) :
    (m.adjust now h).1.1.Still (m.adjust now h).2 := by
  have hstatus := (handles_mirrorStatus m now h).status
  have hreconciled := (handles_reconcile (m.mirrorStatus now h).1.1 now
    (m.mirrorStatus now h).2).status
  obtain ⟨acquiring, heq⟩ := reconcileAddress_eq (m.mirrorStatus now h).1.1 now
    (m.mirrorStatus now h).2
  refine ⟨?_, due_reconcile now hok⟩
  show ((m.mirrorStatus now h).1.1.reconcileAddress now (m.mirrorStatus now h).2).1.1.mirrored = _
  rw [heq]
  show (m.mirrorStatus now h).1.1.mirrored = _
  rw [mirrored_mirrorStatus]
  exact congrArg some (hreconciled.trans hstatus).symm

/-- **After a cycle** that served no reconnect and was not refused anything, nothing is left to
adjust. -/
theorem cycle_still {r : Manager × CycleReport} (hcycle : m.cycle tl = .ok r tl')
    (hrenewal : r.2.renewal = none) (hok : ∀ e, r.2.address ≠ some (.failed e)) :
    r.1.Still tl'.world := by
  rw [cycle_eq] at hcycle
  obtain ⟨heard, tl₁, _, hanswer⟩ := Routine.bind_eq_ok.mp hcycle
  rw [answer_eq] at hanswer
  obtain ⟨renewed, tl₂, hrenew, hreturn⟩ := Routine.bind_eq_ok.mp hanswer
  cases hreturn
  rw [renewIfAsked_of_not_asked (not_asked_of_renewIfAsked hrenew hrenewal)] at hrenew
  cases hrenew
  exact still_adjust tl₁.now hok

/-! ## phases -/

/-- What can be read off a manager after a cycle. -/
structure Shows (m : Manager) (h : Host) : Prop where
  not_linked : m.phase h ≠ .linked
  not_linkLost : m.phase h ≠ .linkLost
  connected_iff : m.phase h = .connected ↔
    (h.status.carriesTraffic = true ∨ h.status.isUnknown = true) ∧
      h.interface.snapshot.hasAddress = true
  addressAcquiring_iff : m.phase h = .addressAcquiring ↔
    (h.status.carriesTraffic = true ∨ h.status.isUnknown = true) ∧
      h.interface.snapshot.hasAddress = false
  /-- Without a usable link nothing of it is left. -/
  otherwise : h.status.carriesTraffic = false → h.status.isUnknown = false →
    (m.phase h = .idle ∨ m.phase h = .associating) ∧ h.interface.snapshot.hasLink = false ∧
      h.interface.snapshot.hasAddress = false ∧ m.acquiring = false
  view_phase : (m.view h).phase = m.phase h
  view_link : (m.view h).link = (m.view h).acquiring
  view_ipv4 : (m.view h).link = false → (m.view h).ipv4 = Ipv4.unspecified

theorem phase_up {status : RadioStatus} {s : Snapshot} {underWay : Bool}
    (hwants : status.wantsLink = true) (hlink : s.hasLink = true) :
    Phase.of status s true underWay = if s.hasAddress then .connected else .addressAcquiring := by
  have hany : (status.carriesTraffic || status.isUnknown) = true := hwants
  unfold Phase.of
  rw [if_pos hany, hlink]
  cases s.hasAddress <;> rfl

theorem phase_down {status : RadioStatus} {s : Snapshot} {underWay : Bool}
    (hwants : status.wantsLink = false) (hlink : s.hasLink = false)
    (haddress : s.hasAddress = false) :
    Phase.of status s false underWay = if underWay then .associating else .idle := by
  have hnone : (status.carriesTraffic || status.isUnknown) = false := hwants
  unfold Phase.of
  rw [if_neg (ne_true_of_eq_false hnone), hlink, haddress]
  rfl

theorem wantsLink_iff_any (s : RadioStatus) :
    s.wantsLink = true ↔ s.carriesTraffic = true ∨ s.isUnknown = true := Bool.or_eq_true_iff

theorem shows_up (hwants : h.status.wantsLink = true)
    (hlink : h.interface.snapshot.hasLink = true) (hrun : m.acquiring = true) : m.Shows h := by
  have hany := (wantsLink_iff_any h.status).mp hwants
  have hphase : m.phase h
      = if h.interface.snapshot.hasAddress then .connected else .addressAcquiring := by
    unfold phase
    rw [hrun]
    exact phase_up hwants hlink
  refine
    { not_linked := ?_, not_linkLost := ?_, connected_iff := ?_, addressAcquiring_iff := ?_,
      otherwise := ?_, view_phase := rfl, view_link := hlink.trans hrun.symm, view_ipv4 := ?_ }
  · rw [hphase]
    split <;> decide
  · rw [hphase]
    split <;> decide
  · rw [hphase]
    cases h.interface.snapshot.hasAddress <;> simp [hany]
  · rw [hphase]
    cases h.interface.snapshot.hasAddress <;> simp [hany]
  · intro htraffic hknown
    simp [htraffic, hknown] at hany
  · intro hno
    exact absurd hlink (ne_true_of_eq_false hno)

theorem shows_down (hwants : h.status.wantsLink = false)
    (hlink : h.interface.snapshot.hasLink = false)
    (haddress : h.interface.snapshot.hasAddress = false) (hrun : m.acquiring = false) :
    m.Shows h := by
  have hnot : ¬ (h.status.carriesTraffic = true ∨ h.status.isUnknown = true) :=
    fun hany => ne_true_of_eq_false hwants ((wantsLink_iff_any h.status).mpr hany)
  have hphase : m.phase h = if m.underWay then .associating else .idle := by
    unfold phase
    rw [hrun]
    exact phase_down hwants hlink haddress
  refine
    { not_linked := ?_, not_linkLost := ?_, connected_iff := ?_, addressAcquiring_iff := ?_,
      otherwise := ?_, view_phase := rfl, view_link := hlink.trans hrun.symm, view_ipv4 := ?_ }
  · rw [hphase]
    split <;> decide
  · rw [hphase]
    split <;> decide
  · rw [hphase]
    cases m.underWay <;> simp [hnot]
  · rw [hphase]
    cases m.underWay <;> simp [hnot]
  · intro _ _
    refine ⟨?_, hlink, haddress, hrun⟩
    rw [hphase]
    cases m.underWay <;> simp
  · intro _
    exact hasAddress_eq_false_iff.mp haddress

/-- A manager that is still, with the link that the status wants. -/
theorem shows_of_still (hs : m.Still h)
    (hlink : h.interface.snapshot.hasLink = h.status.wantsLink) : m.Shows h := by
  obtain ⟨hup, hrun⟩ | ⟨hdown, haddress, hrun⟩ := dueCall_eq_none_iff.mp hs.due
  · exact shows_up (hlink.symm.trans hup) hup hrun
  · exact shows_down (hlink.symm.trans hdown) hdown haddress hrun

end Manager

section
variable {m₀ m : Manager} {tl₀ tl tl' : Timeline Action Host} {ms : List Moment}

theorem Life.link_eq (life : Life m₀ tl₀ ms m tl) (fresh : m₀.Fresh)
    (hspares : SparesLink tl₀.world.interface.snapshot.hasLink (written tl₀ tl)) {s : RadioStatus}
    (hs : m.mirrored = some s) : tl.world.interface.snapshot.hasLink = s.wantsLink := by
  have hiff := (life.mirrors fresh).link_iff hspares s hs
  rw [← s.wantsLink_iff] at hiff
  exact Bool.eq_iff_iff.mpr hiff

/-- **No cycle ends in a passing phase.**  Take any life of a fresh manager in which nobody else
changes the link, and a cycle at any moment of it that serves no reconnect and is not refused the
call on acquisition that it makes, if it makes one.  Immediately after that cycle the phase is
neither `linked` nor `linkLost`: it is `connected` if the cached status carries traffic or is not
known and the interface has an address, `addressAcquiring` if it has none, and `idle` or
`associating` for every other status, with link, address and acquisition all absent.  The view
agrees: its link is up exactly if acquisition runs, and a link that is down has no address.  If
acquisition was off to begin with, what the manager knows of it is what the interface does. -/
theorem phase_after_cycle (life : Life m₀ tl₀ ms m tl) (fresh : m₀.Fresh)
    {r : Manager × CycleReport} (hcycle : m.cycle tl = .ok r tl')
    (hspares : SparesLink tl₀.world.interface.snapshot.hasLink (written tl₀ tl'))
    (hrenewal : r.2.renewal = none) (hok : ∀ e, r.2.address ≠ some (.failed e)) :
    r.1.Shows tl'.world ∧
      (tl₀.world.interface.acquiring = false → tl'.world.interface.acquiring = r.1.acquiring) := by
  obtain ⟨new, life'⟩ := life.cycle_ends.of_ok hcycle
  have hstill := Manager.cycle_still hcycle hrenewal hok
  refine ⟨Manager.shows_of_still hstill (life'.link_eq fresh hspares hstill.mirrored), ?_⟩
  intro hoff
  exact (life'.history.agrees (fresh.acquiring.trans hoff.symm)).symm

/-- The link goes up for an unknown status, and the manager shows that it acquires an address. -/
theorem unknown_status_acquires :
    ∃ r tl', Manager.cycle {} { slowToDisconnect with
        world := slowToDisconnect.world.report (.unknown 9) } = .ok r tl' ∧
      r.2.renewal = none ∧ r.2.address = some .started ∧
      r.1.phase tl'.world = .addressAcquiring := by
  have reported : Life {} slowToDisconnect [] {} { slowToDisconnect with
      world := slowToDisconnect.world.report (.unknown 9) } :=
    Life.begin.others (.single (.report (.unknown 9)))
  have hcycle : Manager.cycle {} { slowToDisconnect with
      world := slowToDisconnect.world.report (.unknown 9) } = .ok _ _ := rfl
  refine ⟨_, _, hcycle, rfl, rfl, ?_⟩
  have hshows := (phase_after_cycle reported ⟨rfl, rfl, rfl, rfl⟩ hcycle
    (sparesLink_of_none (by decide)) rfl (fun e h => nomatch h)).1
  exact hshows.addressAcquiring_iff.mpr ⟨Or.inr rfl, rfl⟩

end

end Uplink
