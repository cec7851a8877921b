/-!
# Events and event sets

An event is one of eight things that can happen to the connection.  Events travel as a set: a
word of 32 bits, one bit per event.  The upper 24 bits name no event; they are carried along
unchanged.

* `Event.position`   the bit of an event;
* `EventSet.single`  the set that holds one event;
* `EventSet.known`   the set of all eight events;
* `EventSet.Covers`  every bit of one set is in the other.
-/

namespace Uplink

/-! ## events -/

inductive Event where
  /-- The TCP/IP stack finished its own initialization. -/
  | linkStackReady
  | ipAddressChanged
  | interfaceUp
  | interfaceDown
  | linkUp
  | linkDown
  /-- The co-processor reported a connection status. -/
  | statusUpdated
  /-- The access point connection is to be made anew. -/
  | reconnectRequested
  deriving DecidableEq, Repr

namespace Event

def all : List Event :=
  [linkStackReady, ipAddressChanged, interfaceUp, interfaceDown, linkUp, linkDown, statusUpdated,
    reconnectRequested]

def position : Event → Nat
  | linkStackReady => 0
  | ipAddressChanged => 1
  | interfaceUp => 2
  | interfaceDown => 3
  | linkUp => 4
  | linkDown => 5
  | statusUpdated => 6
  | reconnectRequested => 7

theorem position_lt (e : Event) : e.position < 8 := by cases e <;> decide

theorem position_inj {a b : Event} : a.position = b.position ↔ a = b := by
  cases a <;> cases b <;> decide

def label : Event → String
  | linkStackReady => "LINK_STACK_READY"
  | ipAddressChanged => "IP_ADDRESS_CHANGED"
  | interfaceUp => "INTERFACE_UP"
  | interfaceDown => "INTERFACE_DOWN"
  | linkUp => "LINK_UP"
  | linkDown => "LINK_DOWN"
  | statusUpdated => "STATUS_UPDATED"
  | reconnectRequested => "RECONNECT_REQUESTED"

end Event

/-! ## event sets -/

/-- A set of events, one bit per event; bits from 8 on name no event. -/
abbrev EventSet := BitVec 32

namespace EventSet

def empty : EventSet := 0#32

def single (e : Event) : EventSet := BitVec.twoPow 32 e.position

def known : EventSet := Event.all.foldr (fun e s => single e ||| s) empty

theorem getLsbD_single (e : Event) (i : Nat) :
    (single e).getLsbD i = decide (i = e.position) := by
  have h := e.position_lt
  rw [single, BitVec.getLsbD_twoPow]
  by_cases hi : e.position = i
  · simp [← hi, show e.position < 32 by omega]
  · simp [hi, Ne.symm hi]

theorem single_ne_empty (e : Event) : single e ≠ empty := by cases e <;> decide

def Has (s : EventSet) (e : Event) : Prop := s.getLsbD e.position = true

instance (s : EventSet) (e : Event) : Decidable (s.Has e) :=
  inferInstanceAs (Decidable (_ = true))

theorem not_has_empty (e : Event) : ¬ empty.Has e := by simp [Has, empty]

theorem has_known (e : Event) : known.Has e := by cases e <;> decide

example : known = 255#32 := by decide

theorem has_or (s t : EventSet) (e : Event) : (s ||| t).Has e ↔ s.Has e ∨ t.Has e := by
  unfold Has
  rw [BitVec.getLsbD_or, Bool.or_eq_true]

theorem has_and (s t : EventSet) (e : Event) : (s &&& t).Has e ↔ s.Has e ∧ t.Has e := by
  unfold Has
  rw [BitVec.getLsbD_and, Bool.and_eq_true]

/-- Every bit of `target` is in `s`. -/
def Covers (s target : EventSet) : Prop := s &&& target = target

instance (s target : EventSet) : Decidable (s.Covers target) :=
  inferInstanceAs (Decidable (_ = _))

theorem covers_empty (s : EventSet) : s.Covers empty := by simp [Covers, empty]

theorem covers_iff (s target : EventSet) :
    s.Covers target ↔ ∀ i, target.getLsbD i = true → s.getLsbD i = true := by
  constructor
  · intro h i hi
    have h' := congrArg (·.getLsbD i) h
    simpa [hi] using h'
  · intro h
    apply BitVec.eq_of_getLsbD_eq
    intro i _
    rw [BitVec.getLsbD_and]
    cases ht : target.getLsbD i
    · simp
    · simp [h i ht]

theorem covers_single (s : EventSet) (e : Event) : s.Covers (single e) ↔ s.Has e := by
  rw [covers_iff]
  constructor
  · intro h
    exact h e.position (by simp [getLsbD_single])
  · intro h i hi
    rw [getLsbD_single, decide_eq_true_eq] at hi
    rw [hi]
    exact h

/-! ### taking events out of a set -/

theorem getLsbD_diff (s target : EventSet) (i : Nat) :
    (s &&& ~~~target).getLsbD i = (s.getLsbD i && !target.getLsbD i) := by
  rw [BitVec.getLsbD_and, BitVec.getLsbD_not]
  by_cases hi : i < 32
  · simp [hi]
  · simp [BitVec.getLsbD_of_ge s i (Nat.le_of_not_lt hi)]

theorem has_diff (s target : EventSet) (e : Event) :
    (s &&& ~~~target).Has e ↔ s.Has e ∧ ¬ target.Has e := by
  unfold Has
  rw [getLsbD_diff, Bool.and_eq_true, Bool.not_eq_true', Bool.not_eq_true]

theorem diff_or_inter (s target : EventSet) : (s &&& ~~~target) ||| (s &&& target) = s := by
  apply BitVec.eq_of_getLsbD_eq
  intro i _
  rw [BitVec.getLsbD_or, getLsbD_diff, BitVec.getLsbD_and]
  cases s.getLsbD i <;> cases target.getLsbD i <;> rfl

theorem or_diff (s t target : EventSet) :
    (s ||| t) &&& ~~~target = (s &&& ~~~target) ||| (t &&& ~~~target) := by
  apply BitVec.eq_of_getLsbD_eq
  intro i _
  rw [BitVec.getLsbD_or, getLsbD_diff, getLsbD_diff, getLsbD_diff, BitVec.getLsbD_or,
    Bool.and_or_distrib_right]

theorem inter_single (s : EventSet) (e : Event) :
    s &&& single e = if s.Has e then single e else empty := by
  apply BitVec.eq_of_getLsbD_eq
  intro i _
  rw [BitVec.getLsbD_and, getLsbD_single]
  by_cases hi : i = e.position
  · subst hi
    by_cases hs : s.Has e
    · rw [if_pos hs, getLsbD_single]
      simpa [Has] using hs
    · rw [if_neg hs]
      simpa [Has, empty] using hs
  · split
    · rw [getLsbD_single]
      simp [hi]
    · simp [hi, empty]

end EventSet

end Uplink
