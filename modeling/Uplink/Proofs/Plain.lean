import Uplink.Bench.Host
import Uplink.Proofs.Callbacks

/-!
# Plain hosts

A set of events may hold bits that name no event, and the flags of a snapshot may hold bits without
a meaning.  These are stray bits.  Whatever holds them has a plain form without them.

* `EventSet.plain`, `Snapshot.plain`,
  `Action.plain`, `Host.plain`         the plain forms;
* `Snapshot.agrees_iff`                two snapshots agree if they have one plain form;
* `Host.plain_use`                     a call of the manager goes along with the plain form;
* `Host.plain_perform`                 so does every action that leaves the interface alone;
* `Host.changeInterface_plain_eq`      two changes of the interface that fit go along with it.

A change of the interface that only touches stray bits may bring a callback, which tells of all that
the observer has missed.  So a single change need not go along with the plain form.
-/

namespace Uplink

/-! ## events -/

namespace EventSet

/-- The set without the bits that name no event. -/
def plain (s : EventSet) : EventSet := s &&& known

variable {s t target : EventSet}

theorem plain_or (s t : EventSet) : (s ||| t).plain = s.plain ||| t.plain := by
  apply BitVec.eq_of_getLsbD_eq
  intro i _
  simp only [plain, BitVec.getLsbD_or, BitVec.getLsbD_and, Bool.and_or_distrib_right]

theorem plain_diff (s target : EventSet) : (s &&& ~~~target).plain = s.plain &&& ~~~target := by
  rw [plain, plain, BitVec.and_assoc, BitVec.and_assoc, BitVec.and_comm known]

theorem plain_inter (h : known.Covers target) (s : EventSet) :
    s.plain &&& target = s &&& target := by
  rw [plain, BitVec.and_assoc, h]

theorem plain_of_covers (h : known.Covers s) : s.plain = s := by
  rw [plain, BitVec.and_comm]
  exact h

theorem covers_known_or (hs : known.Covers s) (ht : known.Covers t) : known.Covers (s ||| t) := by
  rw [covers_iff] at hs ht ⊢
  intro i hi
  rw [BitVec.getLsbD_or, Bool.or_eq_true] at hi
  exact hi.elim (hs i) (ht i)

theorem covers_known_single (e : Event) : known.Covers (single e) :=
  (covers_single known e).mpr (has_known e)

theorem plain_single (e : Event) : (single e).plain = single e :=
  plain_of_covers (covers_known_single e)

end EventSet

def Mailbox.plain (m : Mailbox) : Mailbox := { m with pending := m.pending.plain }

/-! ## snapshots -/

namespace Flags

/-- The bits that have a meaning. -/
def plain (f : Flags) : Flags := f &&& (up ||| linkUp)

variable {f g : Flags}

theorem getLsbD_up (i : Nat) : up.getLsbD i = decide (i = 0) := by
  rw [show up = BitVec.twoPow 8 0 from rfl, BitVec.getLsbD_twoPow]
  simp [eq_comm]

theorem getLsbD_linkUp (i : Nat) : linkUp.getLsbD i = decide (i = 2) := by
  rw [show linkUp = BitVec.twoPow 8 2 from rfl, BitVec.getLsbD_twoPow]
  simp [eq_comm]

theorem getLsbD_plain (f : Flags) (i : Nat) :
    f.plain.getLsbD i = (f.getLsbD i && decide (i = 0 ∨ i = 2)) := by
  rw [plain, BitVec.getLsbD_and, BitVec.getLsbD_or, getLsbD_up, getLsbD_linkUp, Bool.decide_or]

theorem plain_eq_iff :
    f.plain = g.plain ↔ f.getLsbD 0 = g.getLsbD 0 ∧ f.getLsbD 2 = g.getLsbD 2 := by
  constructor
  · intro h
    have h0 := congrArg (BitVec.getLsbD · 0) h
    have h2 := congrArg (BitVec.getLsbD · 2) h
    simp only [getLsbD_plain] at h0 h2
    exact ⟨by simpa using h0, by simpa using h2⟩
  · intro h
    obtain ⟨h0, h2⟩ := h
    apply BitVec.eq_of_getLsbD_eq
    intro i _
    rw [getLsbD_plain, getLsbD_plain]
    by_cases hi : i = 0 ∨ i = 2
    · rcases hi with rfl | rfl
      · rw [h0]
      · rw [h2]
    · simp [hi]

/-- Flags that differ in no stray bit are the same if they have one plain form. -/
theorem eq_iff_plain_eq (h : ∀ i, i ≠ 0 → i ≠ 2 → f.getLsbD i = g.getLsbD i) :
    f = g ↔ f.plain = g.plain := by
  constructor
  · intro heq
    rw [heq]
  · intro heq
    obtain ⟨h0, h2⟩ := plain_eq_iff.mp heq
    apply BitVec.eq_of_getLsbD_eq
    intro i _
    by_cases hi0 : i = 0
    · rw [hi0, h0]
    · by_cases hi2 : i = 2
      · rw [hi2, h2]
      · exact h i hi0 hi2

end Flags

namespace Snapshot

def plain (s : Snapshot) : Snapshot := { s with flags := s.flags.plain }

theorem agrees_iff {a b : Snapshot} : a.Agrees b ↔ a.plain = b.plain := by
  have hflags := Flags.plain_eq_iff (f := a.flags) (g := b.flags)
  constructor
  · intro h
    show Snapshot.mk a.flags.plain a.ipv4 = Snapshot.mk b.flags.plain b.ipv4
    rw [hflags.mpr ⟨h.isAdminUp, h.hasLink⟩, h.ipv4]
  · intro h
    obtain ⟨hf, hipv4⟩ := Snapshot.mk.inj h
    obtain ⟨hadmin, hlink⟩ := hflags.mp hf
    exact ⟨hadmin, hlink, hipv4⟩

theorem isAdminUp_plain (s : Snapshot) : s.plain.isAdminUp = s.isAdminUp := by
  show s.flags.plain.getLsbD 0 = s.flags.getLsbD 0
  rw [Flags.getLsbD_plain]
  exact Bool.and_true _

theorem hasLink_plain (s : Snapshot) : s.plain.hasLink = s.hasLink := by
  show s.flags.plain.getLsbD 2 = s.flags.getLsbD 2
  rw [Flags.getLsbD_plain]
  exact Bool.and_true _

theorem eventsBetween_plain (a b : Snapshot) :
    eventsBetween a.plain b.plain = eventsBetween a b := by
  unfold eventsBetween
  rw [isAdminUp_plain, isAdminUp_plain, hasLink_plain, hasLink_plain]
  rfl

theorem covers_known_edge (before after : Bool) (rise fall : Event) :
    EventSet.known.Covers (edge before after rise fall) := by
  unfold edge
  split
  · exact EventSet.covers_empty _
  · split <;> exact EventSet.covers_known_single _

theorem plain_eventsBetween (a b : Snapshot) : (eventsBetween a b).plain = eventsBetween a b := by
  apply EventSet.plain_of_covers
  unfold eventsBetween
  refine EventSet.covers_known_or (EventSet.covers_known_or ?_ ?_) ?_
  · exact covers_known_edge _ _ _ _
  · exact covers_known_edge _ _ _ _
  · split
    · exact EventSet.covers_empty _
    · exact EventSet.covers_known_single _

end Snapshot

/-! ## the interface -/

namespace Interface

def plain (i : Interface) : Interface := { i with snapshot := i.snapshot.plain }

theorem refusal_plain (i : Interface) (call : InterfaceCall) :
    i.plain.refusal call = i.refusal call := by cases call <;> rfl

theorem plain_call (i : Interface) (call : InterfaceCall) :
    (i.call call).plain = i.plain.call call := by
  have hset (f bit : Flags) (hbit : bit.plain = bit) : (f ||| bit).plain = f.plain ||| bit := by
    apply BitVec.eq_of_getLsbD_eq
    intro j _
    have hj := congrArg (BitVec.getLsbD · j) hbit
    simp only [Flags.getLsbD_plain, BitVec.getLsbD_or, Bool.and_or_distrib_right] at hj ⊢
    rw [hj]
  have hclear (f bit : Flags) : (f &&& ~~~bit).plain = f.plain &&& ~~~bit := by
    rw [Flags.plain, Flags.plain, BitVec.and_assoc, BitVec.and_assoc, BitVec.and_comm (~~~bit)]
  cases call with
  | setUp => simp [call, plain, Snapshot.plain, hset _ Flags.up (by decide)]
  | setLinkUp => simp [call, plain, Snapshot.plain, hset _ Flags.linkUp (by decide)]
  | setLinkDown => simp [call, plain, Snapshot.plain, hclear]
  | _ => rfl

/-- A call changes no stray bit. -/
theorem snapshot_call_eq_iff (i : Interface) (call : InterfaceCall) :
    (i.call call).snapshot = i.snapshot ↔ (i.call call).snapshot.plain = i.snapshot.plain := by
  have hstray : ∀ j, j ≠ 0 → j ≠ 2 →
      (i.call call).snapshot.flags.getLsbD j = i.snapshot.flags.getLsbD j := by
    intro j h0 h2
    cases call with
    | setUp => simp [Interface.call, Flags.getLsbD_up, h0]
    | setLinkUp => simp [Interface.call, Flags.getLsbD_linkUp, h2]
    | setLinkDown =>
      show (i.snapshot.flags &&& ~~~Flags.linkUp).getLsbD j = _
      rw [BitVec.getLsbD_and, BitVec.getLsbD_not, Flags.getLsbD_linkUp]
      by_cases hj : j < 8
      · simp [hj, h2]
      · simp [BitVec.getLsbD_of_ge _ j (Nat.le_of_not_lt hj)]
    | _ => rfl
  constructor
  · intro h
    rw [h]
  · intro h
    obtain ⟨hf, hipv4⟩ := Snapshot.mk.inj h
    have hflags := (Flags.eq_iff_plain_eq hstray).mpr hf
    show Snapshot.mk _ _ = Snapshot.mk _ _
    rw [hflags, hipv4]

end Interface

/-! ## actions and the trace -/

namespace Action

def plain : Action → Action
  | signal events => signal events.plain
  | observe snapshot => observe snapshot.plain
  | changeInterface flags ipv4 => changeInterface (flags.map Flags.plain) ipv4
  | a => a

/-- The action changes the interface, as far as the stack tells its observer. -/
def isChange : Action → Bool
  | changeInterface _ _ => true
  | _ => false

end Action

def TraceEntry.plain : TraceEntry → TraceEntry
  | fired time a result => fired time a.plain result
  | accepted events => accepted events.plain
  | e => e

/-! ## the host -/

namespace Host

/-- The host without stray bits. -/
def plain (h : Host) : Host :=
  { h with
    mailbox := h.mailbox.plain
    seen := h.seen.plain
    interface := h.interface.plain
    trace := h.trace.map TraceEntry.plain }

variable (h : Host)

theorem plain_note (e : LogEntry) : (h.note e).plain = h.plain.note e := rfl

theorem plain_record (e : TraceEntry) : (h.record e).plain = h.plain.record e.plain := by
  show { h.plain with trace := (h.trace.push e).map TraceEntry.plain } = _
  rw [Array.map_push]
  rfl

theorem plain_clear : h.clear.plain = h.plain.clear := by
  unfold clear plain
  rw [Array.map_empty]

/-! ### the consumer -/

theorem plain_take {target : EventSet} (ht : EventSet.known.Covers target) :
    port.take target h.plain = ((port.take target h).1, (port.take target h).2.plain) := by
  have htaken := EventSet.plain_inter ht h.mailbox.pending
  have hleft := EventSet.plain_diff h.mailbox.pending target
  show (h.mailbox.pending.plain &&& target,
      { h.plain with mailbox := { h.mailbox with
        pending := h.mailbox.pending.plain &&& ~~~target } })
    = (h.mailbox.pending &&& target,
      { h.plain with mailbox := { h.mailbox with
        pending := (h.mailbox.pending &&& ~~~target).plain } })
  rw [htaken, hleft]

theorem plain_putBack (events : EventSet) :
    (port.putBack events h).plain = port.putBack events.plain h.plain := by
  have hboth := EventSet.plain_or h.mailbox.pending events
  show { h.plain with mailbox := { h.mailbox with
      pending := (h.mailbox.pending ||| events).plain } } = _
  rw [hboth]
  rfl

/-! ### producers -/

theorem plain_signal (events : EventSet) :
    h.plain.signal events.plain = (h.signal events).map plain := by
  cases hc : h.mailbox.claimed with
  | true =>
    rw [signal_of_claimed h events hc, signal_of_claimed h.plain events.plain hc]
    show Except.ok _ = Except.ok (Host.plain (Host.record _ _))
    rw [plain_record]
    show Except.ok ({ h.plain with mailbox := { h.mailbox with
      pending := h.mailbox.pending.plain ||| events.plain } }.record (.accepted events.plain)) = _
    rw [← EventSet.plain_or]
    rfl
  | false => rw [signal_of_not_claimed h events hc, signal_of_not_claimed h.plain _ hc]; rfl

theorem plain_signalOrNote (events : EventSet) (failure : LogEntry) :
    (h.signalOrNote events failure).plain = h.plain.signalOrNote events.plain failure := by
  unfold signalOrNote
  rw [plain_signal]
  cases h.signal events <;> rfl

theorem plain_signalAccepted (events : EventSet) : h.plain.signalAccepted events.plain
    = ((h.signalAccepted events).1, (h.signalAccepted events).2.plain) := by
  unfold signalAccepted
  rw [plain_signal]
  cases h.signal events <;> rfl

theorem plain_report (status : RadioStatus) : (h.report status).plain = h.plain.report status := by
  have htold := plain_signalOrNote ({ h with status }.note (.statusReported h.status status))
    (.single .statusUpdated) .statusDropped
  rw [EventSet.plain_single] at htold
  exact htold

theorem plain_reportCodes (codes : List UInt8) :
    (h.reportCodes codes).plain = h.plain.reportCodes codes := by
  induction codes generalizing h with
  | nil => rfl
  | cons code codes ih =>
    show ((h.report (RadioStatus.ofCode code)).reportCodes codes).plain
      = (h.plain.report (RadioStatus.ofCode code)).reportCodes codes
    rw [ih, plain_report]

theorem plain_observe (s : Snapshot) : (h.observe s).plain = h.plain.observe s.plain := by
  unfold observe
  dsimp only
  rw [show h.plain.seen = h.seen.plain from rfl, Snapshot.eventsBetween_plain]
  split
  · rfl
  · rw [plain_signalOrNote, Snapshot.plain_eventsBetween]
    rfl

/-! ### the interface -/

theorem plain_changeInterface (i : Interface) : (h.changeInterface i).plain =
    if h.scene.CallsBack i then { h.plain with interface := i.plain }.observe i.snapshot.plain
    else { h.plain with interface := i.plain } := by
  unfold changeInterface
  show (if h.scene.CallsBack i then _ else _ : Host).plain = _
  split
  · exact plain_observe _ _
  · rfl

theorem plain_changeInterface_of_iff {h : Host} {i : Interface}
    (hback : h.plain.scene.CallsBack i.plain ↔ h.scene.CallsBack i) :
    (h.changeInterface i).plain = h.plain.changeInterface i.plain := by
  rw [plain_changeInterface]
  unfold changeInterface
  show _ = if h.plain.scene.CallsBack i.plain then _ else _
  simp only [hback]
  rfl

/-- **A call of the manager** goes along with the plain form. -/
theorem plain_use (now : Nat) (call : InterfaceCall) :
    h.plain.use now call = ((h.use now call).1, (h.use now call).2.plain) := by
  have hrefusal := h.interface.refusal_plain call
  cases hr : h.interface.refusal call with
  | some e =>
    rw [use_of_refused now hr, use_of_refused now (h := h.plain) (hrefusal.trans hr)]
    exact congrArg (Prod.mk _) (h.plain_record (.called now call)).symm
  | none =>
    rw [use_of_accepted now hr, use_of_accepted now (h := h.plain) (hrefusal.trans hr)]
    refine congrArg (Prod.mk _) ?_
    have hback : (h.record (.called now call)).plain.scene.CallsBack (h.interface.call call).plain ↔
        (h.record (.called now call)).scene.CallsBack (h.interface.call call) :=
      and_congr_left fun _ => not_congr (h.interface.snapshot_call_eq_iff call).symm
    rw [plain_changeInterface_of_iff hback, plain_record, Interface.plain_call]
    rfl

/-- An observer that has nothing to catch up on does not learn of a change of stray bits. -/
theorem plain_changeInterface_of_upToDate {h : Host} {i : Interface} (hu : h.scene.UpToDate)
    (hi : i.snapshot.plain = h.interface.snapshot.plain) :
    (h.changeInterface i).plain = { h.plain with interface := i.plain } := by
  have hseen : h.seen.plain = i.snapshot.plain := (Snapshot.agrees_iff.mp hu).trans hi.symm
  have hnone : Snapshot.eventsBetween h.seen.plain i.snapshot.plain = EventSet.empty := by
    rw [hseen, Snapshot.eventsBetween_self]
  rw [plain_changeInterface]
  split
  · unfold observe
    dsimp only
    rw [show h.plain.seen = h.seen.plain from rfl, if_pos hnone, ← hseen]
  · rfl

/-- **Two changes that fit** lead from one plain form to one plain form. -/
theorem changeInterface_plain_eq {h h' : Host} {i i' : Interface} (hh : h.plain = h'.plain)
    (hi : i.plain = i'.plain) (hfits : Change.Fits ⟨h.scene, i⟩ ⟨h'.scene, i'⟩) :
    (h.changeInterface i).plain = (h'.changeInterface i').plain := by
  have hsnapshot : i.snapshot.plain = i'.snapshot.plain := congrArg Interface.snapshot hi
  have hmac : i.mac = i'.mac := by
    show i.plain.mac = i'.plain.mac
    rw [hi]
  have hbefore : h.interface.snapshot.plain = h'.interface.snapshot.plain :=
    congrArg (fun h => h.interface.snapshot) hh
  by_cases hiff : h.scene.CallsBack i ↔ h'.scene.CallsBack i'
  · rw [plain_changeInterface, plain_changeInterface, hh, hi, hsnapshot]
    simp only [hiff]
  · have hu : h.scene.UpToDate := hfits.resolve_left hiff
    have hu' : h'.scene.UpToDate := by
      have hseen : h.seen.plain = h'.seen.plain := congrArg Host.seen hh
      apply Snapshot.agrees_iff.mpr
      show h'.seen.plain = h'.interface.snapshot.plain
      rw [← hseen, ← hbefore]
      exact Snapshot.agrees_iff.mp hu
    -- as one of the two calls back, the interface is registered, and the other has not changed
    have hstay : i.snapshot.plain = h.interface.snapshot.plain := by
      unfold Scene.CallsBack at hiff
      rw [hmac] at hiff
      by_cases hchanged : i.snapshot = h.interface.snapshot
      · rw [hchanged]
      · by_cases hchanged' : i'.snapshot = h'.interface.snapshot
        · rw [hsnapshot, hchanged', hbefore]
        · exact absurd (and_congr_left' ⟨fun _ => hchanged', fun _ => hchanged⟩) hiff
    rw [plain_changeInterface_of_upToDate hu hstay,
      plain_changeInterface_of_upToDate hu' (by rw [← hsnapshot, hstay, hbefore]), hh, hi]

/-! ### actions -/

/-- **An action** that does not change the interface goes along with the plain form. -/
theorem plain_perform {a : Action} (ha : a.isChange = false) :
    a.plain.perform h.plain = ((a.perform h).1, (a.perform h).2.plain) := by
  cases a with
  | reportCode code => exact congrArg (Prod.mk _) (plain_report _ _).symm
  | report status => exact congrArg (Prod.mk _) (plain_report _ _).symm
  | stackReady =>
    have hready := h.plain_signalAccepted (.single .linkStackReady)
    rw [EventSet.plain_single] at hready
    show (ActionResult.accepted (h.plain.signalAccepted _).1, (h.plain.signalAccepted _).2) = _
    rw [hready]
    rfl
  | requestReconnect =>
    have hasked := h.plain_signalAccepted (.single .reconnectRequested)
    rw [EventSet.plain_single] at hasked
    show (ActionResult.accepted (h.plain.signalAccepted _).1, (h.plain.signalAccepted _).2) = _
    rw [hasked]
    rfl
  | signal events =>
    unfold Action.plain Action.perform
    dsimp only
    rw [plain_signal]
    cases h.signal events <;> rfl
  | observe snapshot => exact congrArg (Prod.mk _) (plain_observe _ _).symm
  | changeInterface flags ipv4 => exact absurd ha (by simp [Action.isChange])
  | _ => rfl

end Host

end Uplink
