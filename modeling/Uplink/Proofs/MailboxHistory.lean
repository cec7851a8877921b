import Mathlib.Data.List.Induction
import Uplink.Bench.Switchboard
import Uplink.Proofs.Ending

/-!
# The history of a mailbox

What is pending in a mailbox is decided by the whole history of the switchboard: by which events
were added after the mailbox was claimed, and which of them were taken since.

* `Deed`, `Operation`          what can be done to a mailbox, by producers and by its consumer; a
                               `deliver` is one look of a wait;
* `Operation.perform_step`     an operation is what the step of the switchboard does;
* `history n ops`              `n` fresh mailboxes after the operations `ops`;
* `Latched`                    an event was added after the claim and not taken since;
* `pending_history`            the pending events are the latched ones;
* `Amounts`                    signals of others and deliveries of one consumer, which is all that a
                               wait does (`awaitAll_amounts`, `awaitAny_amounts`).
-/

namespace Uplink.Switchboard

variable {n : Nat}

/-! ## operations -/

/-- Something that is done to one mailbox.  The last three belong to its consumer. -/
inductive Deed where
  | signal (events : EventSet)
  | claim
  | read
  | take (target : EventSet)
  | deliver (target : EventSet)
  | putBack (events : EventSet)
  deriving DecidableEq, Repr

structure Operation where
  index : Nat
  deed : Deed
  deriving DecidableEq, Repr

namespace Deed

def conclude (m : Mailbox) : Except MailboxFault Mailbox → Answer × Mailbox
  | .ok m' => (.outcome (.ok ()), m')
  | .error e => (.outcome (.error e), m)

def perform (m : Mailbox) : Deed → Answer × Mailbox
  | signal events => conclude m (m.signal events)
  | claim => conclude m m.claim
  | read => (.pending (.ok m.pending), m)
  | take target =>
    if m.claimed then (.events (m.take target).1, (m.take target).2) else (.noWaiter, m)
  | deliver target =>
    if m.claimed then (.events (m.take target).1, (m.take target).2) else (.noWaiter, m)
  | putBack events => if m.claimed then (.nothing, m.putBack events) else (.noWaiter, m)

def astray : Deed → Answer
  | signal _ | claim => .outcome (.error .invalidIndex)
  | read => .pending (.error .invalidIndex)
  | take _ | deliver _ | putBack _ => .noWaiter

def Adds (b : Nat) : Deed → Prop
  | signal events | putBack events => events.getLsbD b = true
  | _ => False

def Takes (b : Nat) : Deed → Prop
  | take target | deliver target => target.getLsbD b = true
  | _ => False

/-- The step of the switchboard that is this deed.  A delivery is only a part of a step. -/
def step? (i : Nat) : Deed → Option Step
  | signal events => some (.signal ⟨i, events⟩)
  | claim => some (.claim i)
  | read => some (.pending i)
  | take target => some (.take i target)
  | deliver _ => none
  | putBack events => some (.putBack i events)

end Deed

def Answer.isRefusal : Answer → Bool
  | .outcome (.error _) | .pending (.error _) | .noWaiter => true
  | _ => false

def Answer.handed : Answer → EventSet
  | .events s => s
  | _ => EventSet.empty

namespace Operation

def perform (boxes : Mailboxes n) (op : Operation) : Answer × Mailboxes n :=
  if h : op.index < n then
    ((op.deed.perform boxes[op.index]).1,
      boxes.set op.index (op.deed.perform boxes[op.index]).2)
  else (op.deed.astray, boxes)

def Succeeds (boxes : Mailboxes n) (op : Operation) : Prop :=
  (op.perform boxes).1.isRefusal = false

def Adds (i b : Nat) (op : Operation) : Prop := op.index = i ∧ op.deed.Adds b

def Takes (i b : Nat) (op : Operation) : Prop := op.index = i ∧ op.deed.Takes b

theorem perform_of_valid (boxes : Mailboxes n) (op : Operation) (h : op.index < n) :
    op.perform boxes = ((op.deed.perform boxes[op.index]).1,
      boxes.set op.index (op.deed.perform boxes[op.index]).2) := dif_pos h

theorem perform_of_invalid (boxes : Mailboxes n) (op : Operation) (h : ¬ op.index < n) :
    op.perform boxes = (op.deed.astray, boxes) := dif_neg h

theorem getElem_perform (boxes : Mailboxes n) (op : Operation) {j : Nat} (hj : j < n) :
    (op.perform boxes).2[j]
      = if op.index = j then (op.deed.perform boxes[j]).2 else boxes[j] := by
  by_cases h : op.index < n
  · rw [perform_of_valid boxes op h, Vector.getElem_set]
    split
    · rename_i e
      subst e
      rfl
    · rfl
  · rw [perform_of_invalid boxes op h, if_neg]
    intro e
    exact h (e ▸ hj)

end Operation

/-! ### an operation is a step -/

theorem update_updateAt (w : Switchboard n) (i : Nat) (f : Mailbox → Except MailboxFault Mailbox)
    (deed : Deed) (hd : ∀ m, deed.perform m = Deed.conclude m (f m))
    (ha : deed.astray = .outcome (.error .invalidIndex)) :
    (Answer.outcome (w.update (w.boxes.updateAt i f)).1, (w.update (w.boxes.updateAt i f)).2)
      = (((⟨i, deed⟩ : Operation).perform w.boxes).1,
        { w with boxes := ((⟨i, deed⟩ : Operation).perform w.boxes).2 }) := by
  by_cases h : i < n
  · rw [Operation.perform_of_valid w.boxes ⟨i, deed⟩ h, Mailboxes.updateAt, dif_pos h]
    dsimp only
    rw [hd]
    cases f w.boxes[i] with
    | ok m => rfl
    | error e =>
      show (_, w) = (_, { w with boxes := w.boxes.set i w.boxes[i] })
      rw [Vector.set_getElem_self]
      rfl
  · rw [Operation.perform_of_invalid w.boxes ⟨i, deed⟩ h, w.boxes.updateAt_invalid h]
    show _ = (deed.astray, _)
    rw [ha]
    rfl

theorem asConsumer_of_claimed (f : Port (Switchboard n) → Routine Signal (Switchboard n) Answer)
    (tl : Timeline Signal (Switchboard n)) {i : Nat} (h : i < n)
    (hc : tl.world.boxes[i].claimed = true) : asConsumer i f tl = f (port ⟨i, h⟩) tl := by
  have hi := (tl.world.boxes.consumer?_eq_some_iff i ⟨i, h⟩).mpr ⟨rfl, hc⟩
  unfold asConsumer
  rw [Routine.bind_apply, Routine.world_apply]
  dsimp only
  rw [hi]

theorem asConsumer_of_none (f : Port (Switchboard n) → Routine Signal (Switchboard n) Answer)
    (tl : Timeline Signal (Switchboard n)) {i : Nat} (h : tl.world.boxes.consumer? i = none) :
    asConsumer i f tl = .ok .noWaiter tl := by
  unfold asConsumer
  rw [Routine.bind_apply, Routine.world_apply]
  dsimp only
  rw [h]
  rfl

theorem asConsumer_perform (f : Port (Switchboard n) → Routine Signal (Switchboard n) Answer)
    (g : Mailbox → Answer × Mailbox) (deed : Deed) (i : Nat)
    (hf : ∀ (k : Fin n) (tl : Timeline Signal (Switchboard n)), f (port k) tl
      = .ok (g (tl.world.boxes.get k)).1 { tl with world :=
        { tl.world with boxes := tl.world.boxes.set k.val (g (tl.world.boxes.get k)).2 k.isLt } })
    (hd : ∀ m, deed.perform m = if m.claimed then g m else (.noWaiter, m))
    (ha : deed.astray = .noWaiter) (tl : Timeline Signal (Switchboard n)) :
    asConsumer i f tl = .ok ((⟨i, deed⟩ : Operation).perform tl.world.boxes).1 { tl with world :=
      { tl.world with boxes := ((⟨i, deed⟩ : Operation).perform tl.world.boxes).2 } } := by
  by_cases h : i < n
  · rw [Operation.perform_of_valid _ ⟨i, deed⟩ h]
    dsimp only
    rw [hd]
    cases hc : tl.world.boxes[i].claimed with
    | true =>
      rw [asConsumer_of_claimed f tl h hc, hf]
      rfl
    | false =>
      have hn : tl.world.boxes.consumer? i = none := by simp [Mailboxes.consumer?, h, hc]
      rw [asConsumer_of_none f tl hn]
      simp only [Bool.false_eq_true, if_false, Vector.set_getElem_self]
  · have hn : tl.world.boxes.consumer? i = none := by simp [Mailboxes.consumer?, h]
    rw [Operation.perform_of_invalid _ ⟨i, deed⟩ h, asConsumer_of_none f tl hn]
    show _ = EStateM.Result.ok deed.astray _
    rw [ha]

/-- **An operation is what a step of the switchboard does**, at whatever instant. -/
theorem Operation.perform_step (op : Operation) {s : Step} (hs : op.deed.step? op.index = some s)
    (tl : Timeline Signal (Switchboard n)) :
    Switchboard.perform s tl = .ok (op.perform tl.world.boxes).1
      { tl with world := { tl.world with boxes := (op.perform tl.world.boxes).2 } } := by
  obtain ⟨i, deed⟩ := op
  cases deed with
  | signal events =>
    cases hs
    have h := update_updateAt tl.world i (·.signal events) (.signal events) (fun _ => rfl) rfl
    show EStateM.Result.ok (Answer.outcome (tl.world.update (tl.world.boxes.signal i events)).1)
      { tl with world := (tl.world.update (tl.world.boxes.signal i events)).2 } = _
    rw [← (Prod.mk.inj h).1, ← (Prod.mk.inj h).2]
    rfl
  | claim =>
    cases hs
    have h := update_updateAt tl.world i (·.claim) .claim (fun _ => rfl) rfl
    show EStateM.Result.ok (Answer.outcome (tl.world.update (tl.world.boxes.claim i)).1)
      { tl with world := (tl.world.update (tl.world.boxes.claim i)).2 } = _
    rw [← (Prod.mk.inj h).1, ← (Prod.mk.inj h).2]
    rfl
  | read =>
    cases hs
    show EStateM.Result.ok (Answer.pending (tl.world.boxes.pending i)) tl = _
    by_cases h : i < n
    · rw [perform_of_valid _ ⟨i, .read⟩ h, Mailboxes.pending, dif_pos h]
      simp only [Deed.perform, Vector.set_getElem_self]
    · rw [perform_of_invalid _ ⟨i, .read⟩ h, Mailboxes.pending, dif_neg h]
      rfl
  | take target =>
    cases hs
    rw [Switchboard.perform]
    refine asConsumer_perform _ (fun m => (.events (m.take target).1, (m.take target).2))
      (.take target) i ?_ (fun _ => rfl) rfl tl
    exact fun _ _ => rfl
  | deliver target => cases hs
  | putBack events =>
    cases hs
    rw [Switchboard.perform]
    refine asConsumer_perform _ (fun m => (.nothing, m.putBack events)) (.putBack events) i ?_
      (fun _ => rfl) rfl tl
    exact fun _ _ => rfl

/-! ## histories -/

def after (boxes : Mailboxes n) (ops : List Operation) : Mailboxes n :=
  ops.foldl (fun boxes op => (op.perform boxes).2) boxes

def history (n : Nat) (ops : List Operation) : Mailboxes n := after (Mailboxes.fresh n) ops

theorem after_append (boxes : Mailboxes n) (ops ops' : List Operation) :
    after boxes (ops ++ ops') = after (after boxes ops) ops' := List.foldl_append

theorem after_concat (boxes : Mailboxes n) (ops : List Operation) (op : Operation) :
    after boxes (ops ++ [op]) = (op.perform (after boxes ops)).2 := after_append boxes ops [op]

theorem history_concat (ops : List Operation) (op : Operation) :
    history n (ops ++ [op]) = (op.perform (history n ops)).2 := after_concat _ ops op

theorem getElem_history_nil {i : Nat} (h : i < n) : (history n [])[i] = {} := by
  show (Vector.replicate n ({} : Mailbox))[i] = {}
  exact Vector.getElem_replicate h

/-! ### the claim -/

theorem Deed.claimed_perform (deed : Deed) (m : Mailbox) :
    (deed.perform m).2.claimed = (m.claimed || decide (deed = .claim)) := by
  obtain ⟨pending, claimed⟩ := m
  cases deed <;> cases claimed <;> rfl

theorem claimed_history (ops : List Operation) {i : Nat} (h : i < n) :
    (history n ops)[i].claimed = true ↔ (⟨i, .claim⟩ : Operation) ∈ ops := by
  induction ops using List.reverseRecOn with
  | nil =>
    rw [getElem_history_nil h]
    simp
  | append_singleton ops op ih =>
    simp only [history_concat, Operation.getElem_perform _ op h, List.mem_append,
      List.mem_singleton]
    obtain ⟨j, deed⟩ := op
    by_cases hj : j = i
    · subst hj
      rw [if_pos rfl, Deed.claimed_perform, Bool.or_eq_true, ih, decide_eq_true_eq]
      simp [eq_comm]
    · rw [if_neg hj, ih]
      simp [Ne.symm hj]

theorem Deed.pending_perform_of_not_claimed (deed : Deed) {m : Mailbox} (hc : m.claimed = false) :
    (deed.perform m).2.pending = m.pending := by
  obtain ⟨pending, claimed⟩ := m
  cases hc
  cases deed <;> rfl

theorem pending_history_of_unclaimed (ops : List Operation) {i : Nat} (h : i < n)
    (hc : (⟨i, .claim⟩ : Operation) ∉ ops) : (history n ops)[i].pending = EventSet.empty := by
  induction ops using List.reverseRecOn with
  | nil => rw [getElem_history_nil h]
  | append_singleton ops op ih =>
    have hc' : (⟨i, .claim⟩ : Operation) ∉ ops := fun hm => hc (List.mem_append_left _ hm)
    have hcl : (history n ops)[i].claimed = false :=
      Bool.eq_false_iff.mpr fun ht => hc' ((claimed_history ops h).mp ht)
    simp only [history_concat, Operation.getElem_perform _ op h]
    split
    · rw [Deed.pending_perform_of_not_claimed _ hcl, ih hc']
    · exact ih hc'

/-! ### what is pending -/

/-- What a deed leaves pending in a claimed mailbox, bit by bit. -/
theorem Deed.pending_perform (deed : Deed) {m : Mailbox} (hc : m.claimed = true) (b : Nat) :
    (deed.perform m).2.pending.getLsbD b = true ↔
      (m.pending.getLsbD b = true ∧ ¬ deed.Takes b) ∨ deed.Adds b := by
  obtain ⟨pending, claimed⟩ := m
  cases hc
  have htake : ∀ target : EventSet, (pending &&& ~~~target).getLsbD b = true ↔
      pending.getLsbD b = true ∧ ¬ target.getLsbD b = true := by
    intro target
    rw [BitVec.getLsbD_and, BitVec.getLsbD_not]
    by_cases hb : b < 32
    · simp [hb]
    · simp [BitVec.getLsbD_of_ge pending b (Nat.le_of_not_lt hb)]
  cases deed with
  | signal events =>
    show (pending ||| events).getLsbD b = true ↔ _
    simp [BitVec.getLsbD_or, Deed.Adds, Deed.Takes]
  | claim => simp [perform, Mailbox.claim, conclude, Deed.Adds, Deed.Takes]
  | read => simp [perform, Deed.Adds, Deed.Takes]
  | take target =>
    show (pending &&& ~~~target).getLsbD b = true ↔ _
    rw [htake]
    simp [Deed.Adds, Deed.Takes]
  | deliver target =>
    show (pending &&& ~~~target).getLsbD b = true ↔ _
    rw [htake]
    simp [Deed.Adds, Deed.Takes]
  | putBack events =>
    show (pending ||| events).getLsbD b = true ↔ _
    simp [BitVec.getLsbD_or, Deed.Adds, Deed.Takes]

/-- Bit `b` was added to the claimed mailbox at `i` and not taken since. -/
def Latched (ops : List Operation) (i b : Nat) : Prop :=
  ∃ before op later, ops = before ++ op :: later ∧ (⟨i, .claim⟩ : Operation) ∈ before ∧
    op.Adds i b ∧ ∀ o ∈ later, ¬ o.Takes i b

theorem latched_concat (ops : List Operation) (op : Operation) (i b : Nat) :
    Latched (ops ++ [op]) i b ↔ (Latched ops i b ∧ ¬ op.Takes i b) ∨
      ((⟨i, .claim⟩ : Operation) ∈ ops ∧ op.Adds i b) := by
  constructor
  · intro h
    obtain ⟨before, o, later, hsplit, hc, ha, ht⟩ := h
    -- either the last operation is the one that added the event, or it came later
    rcases List.eq_nil_or_concat later with rfl | ⟨later, last, rfl⟩
    · obtain ⟨rfl, rfl⟩ := List.append_inj' hsplit rfl |>.imp id List.singleton_inj.mp
      exact Or.inr ⟨hc, ha⟩
    · rw [List.concat_eq_append] at hsplit ht
      rw [← List.cons_append, ← List.append_assoc] at hsplit
      obtain ⟨rfl, hlast⟩ := List.append_inj' hsplit rfl
      cases hlast
      exact Or.inl ⟨⟨before, o, later, rfl, hc, ha, fun x hx => ht x (by simp [hx])⟩,
        ht op (by simp)⟩
  · intro h
    obtain ⟨⟨before, o, later, rfl, hc, ha, ht⟩, hop⟩ | ⟨hc, ha⟩ := h
    · refine ⟨before, o, later ++ [op], by simp, hc, ha, fun x hx => ?_⟩
      rcases List.mem_append.mp hx with hx | hx
      · exact ht x hx
      · rw [List.mem_singleton.mp hx]
        exact hop
    · exact ⟨ops, op, [], rfl, hc, ha, by simp⟩

/-- **What is pending is what is latched.** -/
theorem pending_history (ops : List Operation) {i : Nat} (h : i < n) (b : Nat) :
    (history n ops)[i].pending.getLsbD b = true ↔ Latched ops i b := by
  induction ops using List.reverseRecOn with
  | nil =>
    rw [getElem_history_nil h]
    simp [Latched, EventSet.empty]
  | append_singleton ops op ih =>
    rw [latched_concat, ← ih, ← claimed_history ops h]
    simp only [history_concat, Operation.getElem_perform _ op h]
    obtain ⟨j, deed⟩ := op
    simp only [Operation.Takes, Operation.Adds]
    by_cases hj : j = i
    · subst hj
      rw [if_pos rfl]
      -- before the claim nothing is pending, and no deed leaves anything
      cases hc : (history n ops)[j].claimed with
      | true =>
        rw [Deed.pending_perform deed hc b]
        simp
      | false =>
        have hempty : (history n ops)[j].pending = EventSet.empty :=
          pending_history_of_unclaimed ops h fun hm => by
            rw [(claimed_history ops h).mpr hm] at hc
            cases hc
        rw [Deed.pending_perform_of_not_claimed deed hc, hempty]
        simp [EventSet.empty]
    · rw [if_neg hj]
      simp [hj]

/-! ### what succeeds, and what it hands out -/

theorem Deed.isRefusal_signal (m : Mailbox) (events : EventSet) :
    ((Deed.signal events).perform m).1.isRefusal = !m.claimed := by
  obtain ⟨pending, claimed⟩ := m
  cases claimed <;> rfl

theorem Deed.isRefusal_claim (m : Mailbox) : (Deed.claim.perform m).1.isRefusal = m.claimed := by
  obtain ⟨pending, claimed⟩ := m
  cases claimed <;> rfl

theorem Deed.isRefusal_of_adds {deed : Deed} {b : Nat} (ha : deed.Adds b) (m : Mailbox) :
    (deed.perform m).1.isRefusal = !m.claimed := by
  obtain ⟨pending, claimed⟩ := m
  cases deed with
  | signal events => exact Deed.isRefusal_signal _ events
  | putBack events => cases claimed <;> rfl
  | claim => exact absurd ha id
  | read => exact absurd ha id
  | take target => exact absurd ha id
  | deliver target => exact absurd ha id

theorem Deed.handed_conclude (m : Mailbox) (r : Except MailboxFault Mailbox) :
    (conclude m r).1.handed = EventSet.empty := by
  cases r <;> rfl

theorem Deed.handed_perform (deed : Deed) (m : Mailbox) (b : Nat) :
    (deed.perform m).1.handed.getLsbD b = true ↔
      deed.Takes b ∧ m.claimed = true ∧ m.pending.getLsbD b = true := by
  obtain ⟨pending, claimed⟩ := m
  have htake : ∀ target : EventSet,
      (if claimed then Answer.events (pending &&& target) else Answer.noWaiter).handed.getLsbD b
        = true ↔ target.getLsbD b = true ∧ claimed = true ∧ pending.getLsbD b = true := by
    intro target
    cases claimed with
    | true => simp [Answer.handed, BitVec.getLsbD_and, and_comm]
    | false => simp [Answer.handed, EventSet.empty]
  cases deed with
  | signal events =>
    rw [perform, handed_conclude]
    simp [EventSet.empty, Deed.Takes]
  | claim =>
    rw [perform, handed_conclude]
    simp [EventSet.empty, Deed.Takes]
  | read => simp [perform, Answer.handed, EventSet.empty, Deed.Takes]
  | take target =>
    rw [Deed.Takes, ← htake]
    cases claimed <;> rfl
  | deliver target =>
    rw [Deed.Takes, ← htake]
    cases claimed <;> rfl
  | putBack events => cases claimed <;> simp [perform, Answer.handed, EventSet.empty, Deed.Takes]

namespace Operation

theorem succeeds_of_valid (boxes : Mailboxes n) {i : Nat} (h : i < n) (deed : Deed) :
    (⟨i, deed⟩ : Operation).Succeeds boxes ↔ (deed.perform boxes[i]).1.isRefusal = false := by
  unfold Succeeds
  rw [perform_of_valid boxes ⟨i, deed⟩ h]

theorem succeeds_signal (before : List Operation) (i : Nat) (events : EventSet) :
    (⟨i, .signal events⟩ : Operation).Succeeds (history n before) ↔
      i < n ∧ (⟨i, .claim⟩ : Operation) ∈ before := by
  by_cases h : i < n
  · rw [succeeds_of_valid _ h, Deed.isRefusal_signal, ← claimed_history before h]
    simp [h]
  · simp [Succeeds, perform_of_invalid (history n before) ⟨i, .signal events⟩ h, Deed.astray,
      Answer.isRefusal, h]

theorem succeeds_claim (before : List Operation) (i : Nat) :
    (⟨i, .claim⟩ : Operation).Succeeds (history n before) ↔
      i < n ∧ (⟨i, .claim⟩ : Operation) ∉ before := by
  by_cases h : i < n
  · rw [succeeds_of_valid _ h, Deed.isRefusal_claim, ← claimed_history before h]
    simp [h]
  · simp [Succeeds, perform_of_invalid (history n before) ⟨i, .claim⟩ h, Deed.astray,
      Answer.isRefusal, h]

theorem succeeds_of_adds {before : List Operation} {op : Operation} {i b : Nat} (h : i < n)
    (ha : op.Adds i b) (hc : (⟨i, .claim⟩ : Operation) ∈ before) :
    op.Succeeds (history n before) := by
  obtain ⟨j, deed⟩ := op
  obtain ⟨rfl, ha⟩ := ha
  rw [succeeds_of_valid _ h, Deed.isRefusal_of_adds ha, (claimed_history before h).mpr hc]
  rfl

/-- What is handed out after a history is what was latched in it. -/
theorem handed_history (before : List Operation) (op : Operation) (b : Nat) :
    (op.perform (history n before)).1.handed.getLsbD b = true ↔
      op.index < n ∧ op.Takes op.index b ∧ Latched before op.index b := by
  obtain ⟨i, deed⟩ := op
  by_cases h : i < n
  · rw [perform_of_valid (history n before) ⟨i, deed⟩ h, Deed.handed_perform,
      pending_history before h, claimed_history before h]
    constructor
    · intro hend
      obtain ⟨ht, _, hl⟩ := hend
      exact ⟨h, ⟨rfl, ht⟩, hl⟩
    · intro hend
      obtain ⟨_, ⟨_, ht⟩, hl⟩ := hend
      obtain ⟨first, op, later, rfl, hc, _⟩ := id hl
      exact ⟨ht, List.mem_append_left _ hc, hl⟩
  · rw [perform_of_invalid (history n before) ⟨i, deed⟩ h]
    cases deed <;> simp [Deed.astray, Answer.handed, EventSet.empty, h]

end Operation

/-! ## waits -/

/-- The signal that an operation is, if it is one. -/
def Operation.signal? : Operation → Option Signal
  | ⟨i, .signal events⟩ => some ⟨i, events⟩
  | _ => none

theorem Operation.handed_signal (boxes : Mailboxes n) (i : Nat) (events : EventSet) :
    ((⟨i, .signal events⟩ : Operation).perform boxes).1.handed = EventSet.empty := by
  by_cases h : i < n
  · rw [Operation.perform_of_valid boxes ⟨i, .signal events⟩ h]
    exact Deed.handed_conclude _ _
  · rw [Operation.perform_of_invalid boxes ⟨i, .signal events⟩ h]
    rfl

def handedOut (boxes : Mailboxes n) : List Operation → EventSet
  | [] => EventSet.empty
  | op :: ops => (op.perform boxes).1.handed ||| handedOut (op.perform boxes).2 ops

theorem handedOut_concat (boxes : Mailboxes n) (ops : List Operation) (op : Operation) :
    handedOut boxes (ops ++ [op])
      = handedOut boxes ops ||| (op.perform (after boxes ops)).1.handed := by
  induction ops generalizing boxes with
  | nil =>
    show (op.perform boxes).1.handed ||| 0#32 = 0#32 ||| (op.perform boxes).1.handed
    rw [BitVec.or_zero, BitVec.zero_or]
  | cons o ops ih =>
    show (o.perform boxes).1.handed ||| handedOut (o.perform boxes).2 (ops ++ [op]) = _
    rw [ih, ← BitVec.or_assoc]
    rfl

/-- The operations are the signals of a list and deliveries of `target` to the consumer at `i`, in
some order, and lead from `boxes` to `boxes'`. -/
structure Amounts (i : Fin n) (target : EventSet) (boxes boxes' : Mailboxes n)
    (signals : List Signal) (ops : List Operation) : Prop where
  leads : boxes' = after boxes ops
  signals_eq : ops.filterMap Operation.signal? = signals
  others : ∀ op ∈ ops, op.signal? = none → op = ⟨i, .deliver target⟩

/-- What holds all through a wait: what was done so far handed out `seen`. -/
def Underway (i : Fin n) (target : EventSet) (boxes : Mailboxes n) (signals : List Signal)
    (seen : EventSet) (w : Switchboard n) : Prop :=
  ∃ ops, Amounts i target boxes w.boxes signals ops ∧ handedOut boxes ops = seen ∧
    (w.boxes.get i).claimed = true

section
variable {i : Fin n} {target : EventSet} {boxes : Mailboxes n} {signals : List Signal}
  {seen : EventSet} {w : Switchboard n}

theorem underway_refl (hc : (w.boxes.get i).claimed = true) :
    Underway i target w.boxes [] EventSet.empty w :=
  ⟨[], ⟨rfl, rfl, by simp⟩, rfl, hc⟩

theorem boxes_react (t : Nat) (s : Signal) (w : Switchboard n) :
    (Reactive.react t s w).boxes
      = ((⟨s.index, .signal s.events⟩ : Operation).perform w.boxes).2 := by
  have h := update_updateAt w s.index (·.signal s.events) (.signal s.events) (fun _ => rfl) rfl
  exact congrArg (fun r => r.2.boxes) h

theorem Underway.react (h : Underway i target boxes signals seen w) (t : Nat) (s : Signal) :
    Underway i target boxes (signals ++ [s]) seen (Reactive.react t s w) := by
  obtain ⟨ops, ⟨hlead, hsig, hoth⟩, hseen, hc⟩ := h
  have hboxes := boxes_react t s w
  refine ⟨ops ++ [⟨s.index, .signal s.events⟩], ⟨?_, ?_, ?_⟩, ?_, ?_⟩
  · rw [hboxes, after_concat, ← hlead]
  · rw [List.filterMap_append, hsig]
    rfl
  · intro op hop hn
    rcases List.mem_append.mp hop with hop | hop
    · exact hoth op hop hn
    · rw [List.mem_singleton.mp hop] at hn
      cases hn
  · rw [handedOut_concat, hseen, Operation.handed_signal, EventSet.empty, BitVec.or_zero]
  · rw [hboxes]
    show ((_ : Operation).perform w.boxes).2[i.val].claimed = true
    rw [Operation.getElem_perform _ _ i.isLt]
    split
    · rw [Deed.claimed_perform]
      exact Bool.or_eq_true _ _ |>.mpr (Or.inl hc)
    · exact hc

theorem Underway.fire (h : Underway i target boxes signals seen w) (t : Nat) (as : List Signal) :
    Underway i target boxes (signals ++ as) seen (Uplink.fire t as w) := by
  induction as generalizing signals w with
  | nil =>
    rw [List.append_nil]
    exact h
  | cons s as ih =>
    have hs := ih (h.react t s)
    rw [List.append_assoc] at hs
    exact hs

/-- A look is a delivery. -/
theorem Underway.take (h : Underway i target boxes signals seen w) :
    Underway i target boxes signals (seen ||| ((port i).take target w).1)
      ((port i).take target w).2 := by
  obtain ⟨ops, ⟨hlead, hsig, hoth⟩, hseen, hc⟩ := h
  have hperform : (⟨i, .deliver target⟩ : Operation).perform (after boxes ops)
      = (.events ((port i).take target w).1, ((port i).take target w).2.boxes) := by
    rw [Operation.perform_of_valid _ _ i.isLt, ← hlead]
    have hc' : w.boxes[i.val].claimed = true := hc
    simp only [Deed.perform, hc', if_true]
    rfl
  refine ⟨ops ++ [⟨i, .deliver target⟩], ⟨?_, ?_, ?_⟩, ?_, ?_⟩
  · rw [after_concat, hperform]
  · rw [List.filterMap_append, hsig]
    exact List.append_nil _
  · intro op hop hn
    rcases List.mem_append.mp hop with hop | hop
    · exact hoth op hop hn
    · exact List.mem_singleton.mp hop
  · rw [handedOut_concat, hseen, hperform]
    rfl
  · show ((w.boxes.set i.val _ i.isLt)[i.val]).claimed = true
    rw [Vector.getElem_set_self]
    exact hc

end

/-- What a wait leaves: signals that were due, its own deliveries, and nothing else. -/
def WaitLeaves (i : Fin n) (target : EventSet) (tl : Timeline Signal (Switchboard n))
    (v : Option EventSet) (tl' : Timeline Signal (Switchboard n)) : Prop :=
  ∃ passed ops, tl.agenda = passed ++ tl'.agenda ∧
    Amounts i target tl.world.boxes tl'.world.boxes (Routine.actionsOf passed) ops ∧
    ∀ r, v = some r → r = target &&& handedOut tl.world.boxes ops

/-- The end of a wait that does nothing but take its target. -/
theorem waitLeaves_of_over {ρ : Type} {i : Fin n} {target : EventSet}
    {tl : Timeline Signal (Switchboard n)} (seen : ρ → EventSet)
    {result : EStateM.Result Halt (Timeline Signal (Switchboard n)) EventSet}
    (h : Routine.Over
      (fun past v w => ∃ r, Underway i target tl.world.boxes past r w ∧ v = target &&& r)
      (fun past r w => Underway i target tl.world.boxes past (seen r) w) tl.agenda [] result) :
    Routine.Ended (fun v => WaitLeaves i target tl (some v)) (WaitLeaves i target tl none)
      result := by
  refine Routine.Ended.imp h ?_ ?_
  · intro v tl' hend
    obtain ⟨passed, hg, r, ⟨ops, ham, hr, _⟩, hv⟩ := hend
    refine ⟨passed, ops, hg, ham, fun x hx => ?_⟩
    cases hx
    rw [hv, hr]
  · intro tl' hend
    obtain ⟨passed, hg, r, ops, ham, _, _⟩ := hend
    exact ⟨passed, ops, hg, ham, fun x hx => nomatch hx⟩

theorem awaitAll_amounts (i : Fin n) (target : EventSet) (timeout : Nat)
    (tl : Timeline Signal (Switchboard n)) (hc : (tl.world.boxes.get i).claimed = true) :
    ((port i).awaitAll target timeout).Ends tl (fun v => WaitLeaves i target tl (some v))
      (WaitLeaves i target tl none) := by
  refine waitLeaves_of_over id (Routine.await_over
    (I := fun past r w => Underway i target tl.world.boxes past r w) ?_ ?_ ?_ (underway_refl hc))
  · intro past t r w h
    have ht := h.take
    unfold Port.gather
    dsimp only
    split
    · exact ⟨_, ht, rfl⟩
    · exact ht
  · intro past r w t as h
    exact h.fire t as
  · intro past r w h
    exact ⟨r, h, rfl⟩

theorem awaitAny_amounts (i : Fin n) (target : EventSet) (timeout : Nat)
    (tl : Timeline Signal (Switchboard n)) (hc : (tl.world.boxes.get i).claimed = true) :
    ((port i).awaitAny target timeout).Ends tl (fun v => WaitLeaves i target tl (some v))
      (WaitLeaves i target tl none) := by
  refine waitLeaves_of_over (fun _ => EventSet.empty) (Routine.await_over
    (I := fun past _ w => Underway i target tl.world.boxes past EventSet.empty w)
    ?_ ?_ ?_ (underway_refl hc))
  · intro past t r w h
    have ht := h.take
    unfold Port.deliver
    dsimp only
    split
    · rename_i hnone
      rw [hnone] at ht
      exact ht
    · refine ⟨_, ht, ?_⟩
      show _ = target &&& (0#32 ||| (w.boxes.get i).pending &&& target)
      rw [BitVec.zero_or, Port.take_fst, BitVec.and_comm target, BitVec.and_assoc, BitVec.and_self]
      rfl
  · intro past r w t as h
    exact h.fire t as
  · intro past r w h
    exact ⟨_, h, (BitVec.and_zero).symm⟩

/-! ## conservation -/

/-- **The pending events of a mailbox are decided by its history.**  An event is pending exactly if
a producer or the consumer added it after the claim, with success, and no later take or delivery
aimed at it.  So a producer succeeds exactly after the claim, only the first claim succeeds,
nothing is pending before it, whatever is handed out was added since it was last aimed at, and an
operation leaves all mailboxes alone but the one that it addresses.  The last three parts tie the
operations to the switchboard: they are its steps, and a wait of a consumer is a list of signals
that were due and of deliveries. -/
theorem mailboxes_conserve (n : Nat) :
    (∀ (ops : List Operation) (i b : Nat) (h : i < n),
      ((history n ops)[i].pending.getLsbD b = true ↔
        ∃ before op later, ops = before ++ op :: later ∧ (⟨i, .claim⟩ : Operation) ∈ before ∧
          op.Adds i b ∧ op.Succeeds (history n before) ∧ ∀ o ∈ later, ¬ o.Takes i b)) ∧
    (∀ (before : List Operation) (i : Nat) (events : EventSet),
      (⟨i, .signal events⟩ : Operation).Succeeds (history n before) ↔
        i < n ∧ (⟨i, .claim⟩ : Operation) ∈ before) ∧
    (∀ (before : List Operation) (i : Nat),
      (⟨i, .claim⟩ : Operation).Succeeds (history n before) ↔
        i < n ∧ (⟨i, .claim⟩ : Operation) ∉ before) ∧
    (∀ (ops : List Operation) (i : Nat) (h : i < n), (⟨i, .claim⟩ : Operation) ∉ ops →
      (history n ops)[i].pending = EventSet.empty) ∧
    (∀ (before : List Operation) (op : Operation) (b : Nat),
      (op.perform (history n before)).1.handed.getLsbD b = true ↔
        op.index < n ∧ op.Takes op.index b ∧ Latched before op.index b) ∧
    (∀ (boxes : Mailboxes n) (op : Operation),
      (∀ (j : Nat) (h : j < n), op.index ≠ j → (op.perform boxes).2[j] = boxes[j]) ∧
      (¬ op.index < n → (op.perform boxes).2 = boxes)) ∧
    (∀ (op : Operation) (s : Step), op.deed.step? op.index = some s →
      ∀ tl : Timeline Signal (Switchboard n),
        Switchboard.perform s tl = .ok (op.perform tl.world.boxes).1
          { tl with world := { tl.world with boxes := (op.perform tl.world.boxes).2 } }) ∧
    (∀ (i : Fin n) (target : EventSet) (timeout : Nat) (tl : Timeline Signal (Switchboard n)),
      (tl.world.boxes.get i).claimed = true →
        ((port i).awaitAll target timeout).Ends tl (fun v => WaitLeaves i target tl (some v))
          (WaitLeaves i target tl none) ∧
        ((port i).awaitAny target timeout).Ends tl (fun v => WaitLeaves i target tl (some v))
          (WaitLeaves i target tl none)) := by
  refine ⟨fun ops i b h => ?_, fun before i events => Operation.succeeds_signal before i events,
    fun before i => Operation.succeeds_claim before i,
    fun ops i h hc => pending_history_of_unclaimed ops h hc,
    fun before op b => Operation.handed_history before op b, fun boxes op => ⟨fun j h hj => ?_,
      fun h => ?_⟩, fun op s hs tl => op.perform_step hs tl,
    fun i target timeout tl hc =>
      ⟨awaitAll_amounts i target timeout tl hc, awaitAny_amounts i target timeout tl hc⟩⟩
  · rw [pending_history ops h b]
    constructor
    · intro hend
      obtain ⟨before, op, later, hsplit, hc, ha, ht⟩ := hend
      exact ⟨before, op, later, hsplit, hc, ha, Operation.succeeds_of_adds h ha hc, ht⟩
    · intro hend
      obtain ⟨before, op, later, hsplit, hc, ha, _, ht⟩ := hend
      exact ⟨before, op, later, hsplit, hc, ha, ht⟩
  · rw [Operation.getElem_perform boxes op h, if_neg hj]
  · rw [Operation.perform_of_invalid boxes op h]

end Uplink.Switchboard
