import Uplink.Bench.Host

/-!
# Transitions of the interface

The stack calls back with whole snapshots, and an observer passes on what changed since the last
one.  A consumer that was busy meanwhile finds the changes of many calls in one set.  A flag that
went up and down again is in it twice, and no difference is lost.

* `Event.Marks`             the transition between two snapshots of which an event tells;
* `Snapshot.Agrees`         two snapshots between which there is none;
* `Snapshot.eventsAlong`    the events along a sequence of snapshots;
* `Snapshot.covers_along`   they cover those between the two ends;
* `coalesced_changes`       what an observer leaves after any sequence of calls.
-/

namespace Uplink

/-- The event tells of this transition; the events that are not of the interface tell of none. -/
def Event.Marks (e : Event) (before after : Snapshot) : Prop :=
  match e with
  | .interfaceUp => before.isAdminUp = false ∧ after.isAdminUp = true
  | .interfaceDown => before.isAdminUp = true ∧ after.isAdminUp = false
  | .linkUp => before.hasLink = false ∧ after.hasLink = true
  | .linkDown => before.hasLink = true ∧ after.hasLink = false
  | .ipAddressChanged => before.ipv4 ≠ after.ipv4
  | .linkStackReady | .statusUpdated | .reconnectRequested => False

/-- A transition over a stop in between happens before it or after it. -/
theorem Event.Marks.split {e : Event} {a c : Snapshot} (h : e.Marks a c) (b : Snapshot) :
    e.Marks a b ∨ e.Marks b c := by
  cases e with
  | interfaceUp =>
    cases hb : b.isAdminUp with
    | true => exact Or.inl ⟨h.1, hb⟩
    | false => exact Or.inr ⟨hb, h.2⟩
  | interfaceDown =>
    cases hb : b.isAdminUp with
    | true => exact Or.inr ⟨hb, h.2⟩
    | false => exact Or.inl ⟨h.1, hb⟩
  | linkUp =>
    cases hb : b.hasLink with
    | true => exact Or.inl ⟨h.1, hb⟩
    | false => exact Or.inr ⟨hb, h.2⟩
  | linkDown =>
    cases hb : b.hasLink with
    | true => exact Or.inr ⟨hb, h.2⟩
    | false => exact Or.inl ⟨h.1, hb⟩
  | ipAddressChanged =>
    by_cases hb : a.ipv4 = b.ipv4
    · exact Or.inr fun hc => h (hb.trans hc)
    · exact Or.inl hb
  | linkStackReady | statusUpdated | reconnectRequested => exact h.elim

namespace EventSet

theorem or_eq_empty_iff {s t : EventSet} : s ||| t = empty ↔ s = empty ∧ t = empty :=
  BitVec.or_eq_zero_iff

end EventSet

namespace Snapshot

variable {a b c s : Snapshot} {ss : List Snapshot} {i : Nat}

/-! ## between two snapshots -/

theorem getLsbD_edge {before after : Bool} {rise fall : Event} :
    (edge before after rise fall).getLsbD i = true ↔
      before = false ∧ after = true ∧ i = rise.position ∨
        before = true ∧ after = false ∧ i = fall.position := by
  cases before <;> cases after <;>
    simp [edge, EventSet.getLsbD_single, EventSet.empty]

/-- The events between two snapshots, bit by bit: no bit is there without a transition. -/
theorem getLsbD_eventsBetween : (eventsBetween a b).getLsbD i = true ↔
    ∃ e : Event, i = e.position ∧ e.Marks a b := by
  have haddress : (if a.ipv4 = b.ipv4 then EventSet.empty
      else EventSet.single .ipAddressChanged).getLsbD i = true ↔
      a.ipv4 ≠ b.ipv4 ∧ i = Event.position .ipAddressChanged := by
    split <;> simp_all [EventSet.getLsbD_single, EventSet.empty]
  unfold eventsBetween
  rw [BitVec.getLsbD_or, BitVec.getLsbD_or, Bool.or_eq_true, Bool.or_eq_true, getLsbD_edge,
    getLsbD_edge, haddress]
  constructor
  · rintro (((⟨hbefore, hafter, hi⟩ | ⟨hbefore, hafter, hi⟩) |
      ⟨hbefore, hafter, hi⟩ | ⟨hbefore, hafter, hi⟩) | ⟨hne, hi⟩)
    · exact ⟨.interfaceUp, hi, hbefore, hafter⟩
    · exact ⟨.interfaceDown, hi, hbefore, hafter⟩
    · exact ⟨.linkUp, hi, hbefore, hafter⟩
    · exact ⟨.linkDown, hi, hbefore, hafter⟩
    · exact ⟨.ipAddressChanged, hi, hne⟩
  · rintro ⟨e, hi, hmarks⟩
    cases e with
    | interfaceUp => exact Or.inl (Or.inl (Or.inl ⟨hmarks.1, hmarks.2, hi⟩))
    | interfaceDown => exact Or.inl (Or.inl (Or.inr ⟨hmarks.1, hmarks.2, hi⟩))
    | linkUp => exact Or.inl (Or.inr (Or.inl ⟨hmarks.1, hmarks.2, hi⟩))
    | linkDown => exact Or.inl (Or.inr (Or.inr ⟨hmarks.1, hmarks.2, hi⟩))
    | ipAddressChanged => exact Or.inr ⟨hmarks, hi⟩
    | linkStackReady | statusUpdated | reconnectRequested => exact hmarks.elim

theorem has_eventsBetween {e : Event} : (eventsBetween a b).Has e ↔ e.Marks a b := by
  refine getLsbD_eventsBetween.trans ⟨?_, fun h => ⟨e, rfl, h⟩⟩
  rintro ⟨d, hd, hmarks⟩
  rw [Event.position_inj.mp hd]
  exact hmarks

/-- Two snapshots agree on all that has a meaning; other flag bits may differ. -/
structure Agrees (a b : Snapshot) : Prop where
  isAdminUp : a.isAdminUp = b.isAdminUp
  hasLink : a.hasLink = b.hasLink
  ipv4 : a.ipv4 = b.ipv4

theorem eventsBetween_eq_empty_iff : eventsBetween a b = EventSet.empty ↔ a.Agrees b := by
  have haddress : (if a.ipv4 = b.ipv4 then EventSet.empty
      else EventSet.single .ipAddressChanged) = EventSet.empty ↔ a.ipv4 = b.ipv4 := by
    split <;> simp_all [EventSet.single_ne_empty]
  unfold eventsBetween
  rw [EventSet.or_eq_empty_iff, EventSet.or_eq_empty_iff, edge_eq_empty_iff, edge_eq_empty_iff,
    haddress]
  constructor
  · rintro ⟨⟨hadmin, hlink⟩, hipv4⟩
    exact ⟨hadmin, hlink, hipv4⟩
  · intro h
    exact ⟨⟨h.isAdminUp, h.hasLink⟩, h.ipv4⟩

/-! ## along a sequence -/

/-- The events along a sequence of snapshots, each compared with the one before it. -/
def eventsAlong : Snapshot → List Snapshot → EventSet
  | _, [] => EventSet.empty
  | previous, s :: rest => eventsBetween previous s ||| eventsAlong s rest

/-- One snapshot follows the other in a sequence. -/
def Follows (ss : List Snapshot) (a b : Snapshot) : Prop := [a, b] <:+: ss

theorem not_follows_singleton : ¬ Follows [s] a b := by
  intro h
  have hlength := h.length_le
  simp at hlength

theorem follows_cons {t : Snapshot} :
    Follows (s :: t :: ss) a b ↔ (a = s ∧ b = t) ∨ Follows (t :: ss) a b := by
  unfold Follows
  rw [List.infix_cons_iff, List.cons_prefix_cons, List.cons_prefix_cons]
  simp

/-- Induction on the sequence: a bit is there exactly if two successive snapshots put it there. -/
theorem getLsbD_eventsAlong : (eventsAlong s ss).getLsbD i = true ↔
    ∃ a b, Follows (s :: ss) a b ∧ (eventsBetween a b).getLsbD i = true := by
  induction ss generalizing s with
  | nil =>
    constructor
    · intro h
      simp [eventsAlong, EventSet.empty] at h
    · rintro ⟨a, b, h, _⟩
      exact absurd h not_follows_singleton
  | cons t rest ih =>
    rw [eventsAlong, BitVec.getLsbD_or, Bool.or_eq_true, ih]
    constructor
    · rintro (h | ⟨a, b, hab, h⟩)
      · exact ⟨s, t, follows_cons.mpr (Or.inl ⟨rfl, rfl⟩), h⟩
      · exact ⟨a, b, follows_cons.mpr (Or.inr hab), h⟩
    · rintro ⟨a, b, hab, h⟩
      rcases follows_cons.mp hab with ⟨rfl, rfl⟩ | hab
      · exact Or.inl h
      · exact Or.inr ⟨a, b, hab, h⟩

/-- **An event is told exactly if two successive snapshots make its transition.** -/
theorem has_eventsAlong {e : Event} : (eventsAlong s ss).Has e ↔
    ∃ a b, Follows (s :: ss) a b ∧ e.Marks a b := by
  refine getLsbD_eventsAlong.trans (exists_congr fun a => exists_congr fun b => ?_)
  exact and_congr_right fun _ => has_eventsBetween

/-- The triangle law of changes. -/
theorem covers_eventsBetween_or (a b c : Snapshot) :
    (eventsBetween a b ||| eventsBetween b c).Covers (eventsBetween a c) := by
  rw [EventSet.covers_iff]
  intro i hi
  obtain ⟨e, rfl, hmarks⟩ := getLsbD_eventsBetween.mp hi
  rw [BitVec.getLsbD_or, Bool.or_eq_true]
  rcases hmarks.split b with h | h
  · exact Or.inl (getLsbD_eventsBetween.mpr ⟨e, rfl, h⟩)
  · exact Or.inr (getLsbD_eventsBetween.mpr ⟨e, rfl, h⟩)

/-- **No difference between the two ends is hidden** by what lies between them. -/
theorem covers_along (s : Snapshot) (ss : List Snapshot) :
    (eventsAlong s ss).Covers (eventsBetween s (ss.getLastD s)) := by
  induction ss generalizing s with
  | nil =>
    rw [List.getLastD_nil, eventsBetween_self]
    exact EventSet.covers_empty _
  | cons t rest ih =>
    rw [List.getLastD_cons, EventSet.covers_iff]
    intro i hi
    have hstep := (EventSet.covers_iff _ _).mp (covers_eventsBetween_or s t (rest.getLastD t)) i hi
    rw [eventsAlong, BitVec.getLsbD_or, Bool.or_eq_true]
    rw [BitVec.getLsbD_or, Bool.or_eq_true] at hstep
    exact hstep.imp_right ((EventSet.covers_iff _ _).mp (ih t) i)

theorem Agrees.trans (h : a.Agrees b) (h' : b.Agrees c) : a.Agrees c :=
  ⟨h.isAdminUp.trans h'.isAdminUp, h.hasLink.trans h'.hasLink, h.ipv4.trans h'.ipv4⟩

theorem Agrees.symm (h : a.Agrees b) : b.Agrees a :=
  ⟨h.isAdminUp.symm, h.hasLink.symm, h.ipv4.symm⟩

theorem eventsAlong_eq_empty_iff :
    eventsAlong s ss = EventSet.empty ↔ ∀ t ∈ ss, s.Agrees t := by
  induction ss generalizing s with
  | nil => simp [eventsAlong]
  | cons t rest ih =>
    rw [eventsAlong, EventSet.or_eq_empty_iff, eventsBetween_eq_empty_iff, ih,
      List.forall_mem_cons]
    refine and_congr_right fun hst => forall₂_congr fun u _ => ?_
    exact ⟨hst.trans, hst.symm.trans⟩

end Snapshot

/-! ## the observer -/

namespace Host

variable {h : Host}

/-- The stack calls back with one snapshot after the other. -/
def observeAll (h : Host) (ss : List Snapshot) : Host := ss.foldl observe h

theorem mailbox_observe (hclaimed : h.mailbox.claimed = true) (s : Snapshot) :
    (h.observe s).mailbox = { h.mailbox with
      pending := h.mailbox.pending ||| Snapshot.eventsBetween h.seen s } := by
  unfold observe
  dsimp only
  split
  · rename_i hnone
    rw [hnone, EventSet.empty, BitVec.or_zero]
  · rw [mailbox_signalOrNote]
    exact if_pos hclaimed

/-- What one call leaves, any number of calls leave, with the events along them. -/
theorem mailbox_observeAll (hclaimed : h.mailbox.claimed = true) (ss : List Snapshot) :
    (h.observeAll ss).mailbox = { h.mailbox with
      pending := h.mailbox.pending ||| Snapshot.eventsAlong h.seen ss } := by
  induction ss generalizing h with
  | nil =>
    rw [Snapshot.eventsAlong, EventSet.empty, BitVec.or_zero]
    rfl
  | cons s rest ih =>
    have hone := mailbox_observe hclaimed s
    have hclaimed' : (h.observe s).mailbox.claimed = true := by
      rw [hone]
      exact hclaimed
    show ((h.observe s).observeAll rest).mailbox = _
    rw [ih hclaimed', hone, seen_observe, Snapshot.eventsAlong, BitVec.or_assoc]

theorem seen_observeAll (h : Host) (ss : List Snapshot) :
    (h.observeAll ss).seen = ss.getLastD h.seen := by
  induction ss generalizing h with
  | nil => rfl
  | cons s rest ih =>
    show ((h.observe s).observeAll rest).seen = _
    rw [ih, seen_observe, List.getLastD_cons]

end Host

/-- **No change of the interface goes unreported.**  Take any sequence of snapshots with which the
stack calls back while nobody takes from the claimed mailbox.  It ends up with what was pending
before and the events along the sequence, and the observer has seen the last snapshot.  These events
cover the changes between the snapshot seen before and the last one; each of them is there exactly
if two successive snapshots make its transition; and there are none exactly if all snapshots agree
with the one seen before on up, link and address, whatever their other flag bits.  So whoever then
takes all events at once is told of every difference to the interface seen before. -/
theorem coalesced_changes {h : Host} (hclaimed : h.mailbox.claimed = true) (ss : List Snapshot) :
    (h.observeAll ss).mailbox.pending
      = h.mailbox.pending ||| Snapshot.eventsAlong h.seen ss ∧
    (h.observeAll ss).seen = ss.getLastD h.seen ∧
    (Snapshot.eventsAlong h.seen ss).Covers
      (Snapshot.eventsBetween h.seen (ss.getLastD h.seen)) ∧
    (∀ e, (Snapshot.eventsAlong h.seen ss).Has e ↔
      ∃ a b, Snapshot.Follows (h.seen :: ss) a b ∧ e.Marks a b) ∧
    (Snapshot.eventsAlong h.seen ss = EventSet.empty ↔ ∀ s ∈ ss, h.seen.Agrees s) ∧
    (Host.port.take EventSet.known (h.observeAll ss)).1.Covers
      (Snapshot.eventsBetween h.seen (ss.getLastD h.seen)) := by
  have hpending : (h.observeAll ss).mailbox.pending
      = h.mailbox.pending ||| Snapshot.eventsAlong h.seen ss :=
    congrArg Mailbox.pending (Host.mailbox_observeAll hclaimed ss)
  have hcovers := Snapshot.covers_along h.seen ss
  refine ⟨hpending, h.seen_observeAll ss, hcovers, fun _ => Snapshot.has_eventsAlong,
    Snapshot.eventsAlong_eq_empty_iff, ?_⟩
  rw [Port.take_fst, EventSet.covers_iff]
  intro i hi
  obtain ⟨e, rfl, _⟩ := Snapshot.getLsbD_eventsBetween.mp hi
  have hknown : EventSet.known.Has e := by cases e <;> decide
  refine (EventSet.has_and _ _ e).mpr ⟨?_, hknown⟩
  show (h.observeAll ss).mailbox.pending.Has e
  rw [hpending]
  exact (EventSet.has_or _ _ e).mpr (Or.inr ((EventSet.covers_iff _ _).mp hcovers _ hi))

/-- The link goes down and comes up again, and the last snapshot has a flag bit that means nothing.
-/
def flapping : List Snapshot :=
  [{ flags := 0x01#8 }, { flags := 0x05#8 }, { flags := 0x45#8, ipv4 := ⟨10, 0, 0, 8⟩ }]

/-- The link is up, and an update waits in the mailbox. -/
def beforeFlapping : Host :=
  { ({} : HostSetup).host with
    mailbox := { pending := EventSet.single .statusUpdated, claimed := true }
    seen := { flags := 0x05#8, ipv4 := ⟨10, 0, 0, 7⟩ } }

/-- The ends differ in the address only, but the flap of the link is told as well. -/
theorem flap_is_told :
    beforeFlapping.mailbox.claimed = true ∧
      (beforeFlapping.observeAll flapping).mailbox.pending = 0x72#32 ∧
      (Snapshot.eventsAlong beforeFlapping.seen flapping).Has .linkDown ∧
      (Snapshot.eventsAlong beforeFlapping.seen flapping).Has .linkUp ∧
      Snapshot.eventsBetween beforeFlapping.seen (flapping.getLastD beforeFlapping.seen)
        = EventSet.single .ipAddressChanged := by
  obtain ⟨hpending, _, _, hevents, _⟩ := coalesced_changes (h := beforeFlapping) rfl flapping
  refine ⟨rfl, hpending.trans (by decide), (hevents .linkDown).mpr ?_, (hevents .linkUp).mpr ?_,
    by decide⟩
  · exact ⟨_, _, Snapshot.follows_cons.mpr (Or.inl ⟨rfl, rfl⟩), rfl, rfl⟩
  · exact ⟨_, _, Snapshot.follows_cons.mpr (Or.inr (Snapshot.follows_cons.mpr
      (Or.inl ⟨rfl, rfl⟩))), rfl, rfl⟩

end Uplink
