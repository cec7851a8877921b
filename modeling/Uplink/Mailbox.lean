import Uplink.Event
import Uplink.Fault

/-!
# Mailboxes

A mailbox keeps the events that were set for its one consumer and that the consumer has not yet
taken.  Producers add events at any time once the mailbox is claimed; before that their events are
refused and forgotten.  The consumer takes the events it aims at and leaves the others.

* `Mailbox.signal`        a producer adds events;
* `Mailbox.claim`         somebody becomes the consumer;
* `Mailbox.take`          the consumer takes the events of a target;
* `Mailbox.putBack`       the consumer puts events back;
* `Mailbox.putBack_take`  events that are taken and put back are all there again;
* `Mailboxes n`           `n` mailboxes under the indices `0, …, n - 1`.
-/

namespace Uplink

/-- The events set for one consumer and not yet taken. -/
structure Mailbox where
  pending : EventSet := EventSet.empty
  claimed : Bool := false
  deriving DecidableEq, Repr

namespace Mailbox

/-- Adds events, if the mailbox has a consumer. -/
def signal (m : Mailbox) (events : EventSet) : Except MailboxFault Mailbox :=
  if m.claimed then .ok { m with pending := m.pending ||| events } else .error .notClaimed

def claim (m : Mailbox) : Except MailboxFault Mailbox :=
  if m.claimed then .error .alreadyClaimed else .ok { m with claimed := true }

/-- The pending events of `target`, and the mailbox without them. -/
def take (m : Mailbox) (target : EventSet) : EventSet × Mailbox :=
  (m.pending &&& target, { m with pending := m.pending &&& ~~~target })

def putBack (m : Mailbox) (events : EventSet) : Mailbox :=
  { m with pending := m.pending ||| events }

theorem signal_eq_ok_iff {m m' : Mailbox} {events : EventSet} :
    m.signal events = .ok m' ↔
      m.claimed = true ∧ m' = { m with pending := m.pending ||| events } := by
  unfold signal
  by_cases h : m.claimed = true
  · rw [if_pos h]
    exact ⟨fun e => ⟨h, (Except.ok.inj e).symm⟩, fun e => congrArg _ e.2.symm⟩
  · rw [if_neg h]
    exact ⟨fun e => (nomatch e), fun e => absurd e.1 h⟩

theorem claim_eq_ok_iff {m m' : Mailbox} :
    m.claim = .ok m' ↔ m.claimed = false ∧ m' = { m with claimed := true } := by
  unfold claim
  by_cases h : m.claimed = true
  · rw [if_pos h]
    exact ⟨fun e => (nomatch e), fun e => absurd h (by simp [e.1])⟩
  · rw [if_neg h]
    exact ⟨fun e => ⟨Bool.eq_false_iff.mpr h, (Except.ok.inj e).symm⟩,
      fun e => congrArg _ e.2.symm⟩

theorem pending_putBack (m : Mailbox) (events : EventSet) :
    (m.putBack events).pending = m.pending ||| events := rfl

theorem claimed_putBack (m : Mailbox) (events : EventSet) :
    (m.putBack events).claimed = m.claimed := rfl

theorem putBack_empty (m : Mailbox) : m.putBack EventSet.empty = m := by
  simp [putBack, EventSet.empty]

/-- Putting back what was taken restores the mailbox. -/
theorem putBack_take (m : Mailbox) (target : EventSet) :
    (m.take target).2.putBack (m.take target).1 = m := by
  simp only [putBack, take]
  congr 1
  apply BitVec.eq_of_getLsbD_eq
  intro i hi
  simp only [BitVec.getLsbD_or, BitVec.getLsbD_and, BitVec.getLsbD_not, hi, decide_true,
    Bool.true_and]
  cases m.pending.getLsbD i <;> cases target.getLsbD i <;> rfl

end Mailbox

/-! ## several mailboxes -/

abbrev Mailboxes (n : Nat) := Vector Mailbox n

namespace Mailboxes

variable {n : Nat}

def fresh (n : Nat) : Mailboxes n := Vector.replicate n {}

/-- Changes the mailbox at an index, if there is one and the change is allowed. -/
def updateAt (boxes : Mailboxes n) (i : Nat) (f : Mailbox → Except MailboxFault Mailbox) :
    Except MailboxFault (Mailboxes n) :=
  if h : i < n then (f boxes[i]).map (boxes.set i) else .error .invalidIndex

def signal (boxes : Mailboxes n) (i : Nat) (events : EventSet) :
    Except MailboxFault (Mailboxes n) :=
  boxes.updateAt i (·.signal events)

def claim (boxes : Mailboxes n) (i : Nat) : Except MailboxFault (Mailboxes n) :=
  boxes.updateAt i (·.claim)

def pending (boxes : Mailboxes n) (i : Nat) : Except MailboxFault EventSet :=
  if h : i < n then .ok boxes[i].pending else .error .invalidIndex

/-- The index at which a consumer stands, if somebody has claimed its mailbox. -/
def consumer? (boxes : Mailboxes n) (i : Nat) : Option (Fin n) :=
  if h : i < n then if boxes[i].claimed then some ⟨i, h⟩ else none else none

theorem updateAt_invalid (boxes : Mailboxes n) {i : Nat} (h : ¬ i < n)
    (f : Mailbox → Except MailboxFault Mailbox) :
    boxes.updateAt i f = .error .invalidIndex := by simp [updateAt, h]

theorem consumer?_eq_some_iff (boxes : Mailboxes n) (i : Nat) (k : Fin n) :
    boxes.consumer? i = some k ↔ k.val = i ∧ boxes[k].claimed = true := by
  unfold consumer?
  constructor
  · intro h
    split at h
    · split at h
      · cases h
        exact ⟨rfl, by assumption⟩
      · cases h
    · cases h
  · intro hend
    obtain ⟨rfl, hc⟩ := hend
    have hc' : boxes[k.val].claimed = true := hc
    simp [hc']

end Mailboxes

end Uplink
