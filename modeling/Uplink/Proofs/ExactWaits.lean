import Uplink.Bench.Switchboard
import Uplink.Proofs.Unattended

/-!
# The waits on a mailbox in virtual time

Producers only add events, and they add the same ones whatever the consumer took before.  So a
consumer that takes its target bit by bit has in the end what it would have got in one take, and
the waits on a mailbox can be told by the signals of the agenda alone.

* `Port.Lawful`       actions add events to a mailbox and do not look at those that are there;
* `Port.take_fire`    taking before an action and again after it is taking after it;
* `setBy`             the events that signals set in a mailbox up to an instant;
* `perform_ordered`   every step keeps the agenda in order of time;
* `waits_are_exact`   when a wait returns, what it returns and what it leaves.
-/

namespace Uplink

/-! ## taking early -/

namespace Mailbox

theorem putBack_putBack (m : Mailbox) (s t : EventSet) :
    (m.putBack s).putBack t = m.putBack (s ||| t) := by
  unfold putBack
  rw [BitVec.or_assoc]

theorem take_putBack_take_fst (m : Mailbox) (gain target : EventSet) :
    (m.take target).1 ||| (((m.take target).2.putBack gain).take target).1
      = ((m.putBack gain).take target).1 := by
  show (m.pending &&& target) ||| (((m.pending &&& ~~~target) ||| gain) &&& target)
    = (m.pending ||| gain) &&& target
  apply BitVec.eq_of_getLsbD_eq
  intro i _
  rw [BitVec.getLsbD_or, BitVec.getLsbD_and, BitVec.getLsbD_and, BitVec.getLsbD_or,
    EventSet.getLsbD_diff, BitVec.getLsbD_and, BitVec.getLsbD_or]
  cases m.pending.getLsbD i <;> cases target.getLsbD i <;> rfl

theorem take_putBack_take_snd (m : Mailbox) (gain target : EventSet) :
    (((m.take target).2.putBack gain).take target).2 = ((m.putBack gain).take target).2 := by
  have hleft : ((m.pending &&& ~~~target) ||| gain) &&& ~~~target
      = (m.pending ||| gain) &&& ~~~target := by
    rw [EventSet.or_diff, EventSet.or_diff, BitVec.and_assoc, BitVec.and_self]
  exact congrArg (Mailbox.mk · m.claimed) hleft

end Mailbox

namespace Port

variable {α σ : Type} [Reactive α σ]

/-- What is put into the mailbox replaces it, and actions add events to it, the same whatever else
is in the mailbox. -/
structure Lawful (α : Type) [Reactive α σ] (p : Port σ) : Prop where
  put_put : ∀ m m' s, p.put m (p.put m' s) = p.put m s
  react : ∀ t (a : α) s, ∃ gain,
    p.mailbox (Reactive.react t a s) = (p.mailbox s).putBack gain ∧
    ∀ m, m.claimed = (p.mailbox s).claimed →
      Reactive.react t a (p.put m s) = p.put (m.putBack gain) (Reactive.react t a s)

variable {p : Port σ}

theorem Lawful.fire (hp : p.Lawful α) (t : Nat) (as : List α) (s : σ) : ∃ gain,
    p.mailbox (Uplink.fire t as s) = (p.mailbox s).putBack gain ∧
    ∀ m, m.claimed = (p.mailbox s).claimed →
      Uplink.fire t as (p.put m s) = p.put (m.putBack gain) (Uplink.fire t as s) := by
  induction as generalizing s with
  | nil => exact ⟨EventSet.empty, (Mailbox.putBack_empty _).symm, fun m _ => by
      rw [Mailbox.putBack_empty]; rfl⟩
  | cons a as ih =>
    obtain ⟨first, hbox, hput⟩ := hp.react t a s
    obtain ⟨rest, hbox', hput'⟩ := ih (Reactive.react t a s)
    refine ⟨first ||| rest, ?_, fun m hm => ?_⟩
    · rw [fire_cons, hbox', hbox, Mailbox.putBack_putBack]
    · have hclaimed : (m.putBack first).claimed = (p.mailbox (Reactive.react t a s)).claimed := by
        rw [hbox]
        exact hm
      rw [fire_cons, hput m hm, hput' _ hclaimed, Mailbox.putBack_putBack]
      rfl

/-- **Taking early loses nothing.**  Taking before actions and again after them gives what taking
after them gives. -/
theorem take_fire (hp : p.Lawful α) (target : EventSet) (t : Nat) (as : List α) (u : σ) :
    ((p.take target u).1 ||| (p.take target (Uplink.fire t as (p.take target u).2)).1,
      (p.take target (Uplink.fire t as (p.take target u).2)).2)
      = p.take target (Uplink.fire t as u) := by
  obtain ⟨gain, hbox, hput⟩ := hp.fire t as u
  -- both worlds gain the same events, so it is enough to compare two mailboxes
  have hearly : Uplink.fire t as (p.take target u).2
      = p.put (((p.mailbox u).take target).2.putBack gain) (Uplink.fire t as u) := hput _ rfl
  have hgot := Mailbox.take_putBack_take_fst (p.mailbox u) gain target
  have hleft := Mailbox.take_putBack_take_snd (p.mailbox u) gain target
  rw [hearly]
  unfold Port.take
  rw [p.mailbox_put, hp.put_put, hleft, hgot, hbox]

/-! ## the two waits -/

theorem inter_take_fst (target : EventSet) (u : σ) :
    target &&& (p.take target u).1 = (p.take target u).1 := by
  rw [Port.take_fst, BitVec.and_comm target, BitVec.and_assoc, BitVec.and_self]

theorem gather_shadows (hp : p.Lawful α) (target : EventSet) :
    Routine.Shadows (α := α) (p.gather target)
      (fun r u s => (r ||| (p.take target s).1, (p.take target s).2) = p.take target u)
      (fun r u s => (r, s) = p.take target u)
      (fun u => (p.mailbox u).pending.Covers target)
      (fun v u s => (v, s) = p.take target u)
      (fun v u s => (v, s) = ((p.take target u).1, p.note (.waitTimedOut target) (p.take target u).2))
    where
  look := by
    intro t r u s hi
    obtain ⟨hseen, hleft⟩ := Prod.mk.inj hi
    have hcovers : ((p.take target u).1).Covers target ↔ (p.mailbox u).pending.Covers target := by
      show _ &&& target &&& target = target ↔ _ &&& target = target
      rw [BitVec.and_assoc, BitVec.and_self]
    unfold Port.gather
    dsimp only
    rw [hseen, hleft]
    split
    · rename_i hall
      exact ⟨hcovers.mp hall, Prod.ext (inter_take_fst target u) rfl⟩
    · rename_i hnot
      exact ⟨fun h => hnot (hcovers.mpr h), rfl⟩
  fire := by
    intro r u s t as hj
    obtain ⟨rfl, rfl⟩ := Prod.mk.inj hj
    exact take_fire hp target t as u
  expire := by
    intro r u s hj
    have hseen : r = (p.take target u).1 := congrArg Prod.fst hj
    have hleft : s = (p.take target u).2 := congrArg Prod.snd hj
    rw [hseen, hleft]
    exact Prod.ext (inter_take_fst target u) rfl

theorem deliver_shadows (hp : p.Lawful α) (target : EventSet) :
    Routine.Shadows (α := α) (p.deliver target)
      (fun _ u s => p.take target s = p.take target u)
      (fun _ u s => (EventSet.empty, s) = p.take target u)
      (fun u => (p.mailbox u).pending &&& target ≠ EventSet.empty)
      (fun v u s => (v, s) = p.take target u)
      (fun v u s => (v, s) = p.take target u) where
  look := by
    intro t _ u s hi
    unfold Port.deliver
    dsimp only
    rw [hi]
    split
    · rename_i hnone
      exact ⟨fun h => h hnone, by rw [← hnone]⟩
    · rename_i hsome
      exact ⟨hsome, rfl⟩
  fire := by
    intro _ u s t as hj
    have hnone : (p.take target u).1 = EventSet.empty := (congrArg Prod.fst hj).symm
    have hleft : s = (p.take target u).2 := congrArg Prod.snd hj
    have htake := take_fire hp target t as u
    rw [hnone, EventSet.empty, BitVec.zero_or] at htake
    rw [hleft]
    exact htake
  expire := by
    intro r u s hj
    exact hj

end Port

/-! ## signals -/

namespace Switchboard

variable {n : Nat}

section
variable (t : Nat) (s : Signal) (w : Switchboard n)

theorem react_accepted (hv : s.index < n) (hc : w.boxes[s.index].claimed = true) :
    Reactive.react t s w = { w with
      boxes := w.boxes.set s.index (w.boxes[s.index].putBack s.events)
      fired := w.fired.push ⟨t, .ok ()⟩ } := by
  have hok : w.boxes.signal s.index s.events
      = .ok (w.boxes.set s.index (w.boxes[s.index].putBack s.events)) := by
    unfold Mailboxes.signal Mailboxes.updateAt Mailbox.signal
    rw [dif_pos hv]
    dsimp only
    rw [if_pos hc]
    rfl
  show ({ (w.update (w.boxes.signal s.index s.events)).2 with fired := _ } : Switchboard n) = _
  rw [hok]
  rfl

theorem react_refused (hv : s.index < n) (hc : w.boxes[s.index].claimed = false) :
    Reactive.react t s w = { w with fired := w.fired.push ⟨t, .error .notClaimed⟩ } := by
  have herror : w.boxes.signal s.index s.events = .error .notClaimed := by
    unfold Mailboxes.signal Mailboxes.updateAt Mailbox.signal
    rw [dif_pos hv]
    dsimp only
    rw [hc]
    rfl
  show ({ (w.update (w.boxes.signal s.index s.events)).2 with fired := _ } : Switchboard n) = _
  rw [herror]
  rfl

theorem react_astray (hv : ¬ s.index < n) :
    Reactive.react t s w = { w with fired := w.fired.push ⟨t, .error .invalidIndex⟩ } := by
  have herror : w.boxes.signal s.index s.events = .error .invalidIndex :=
    w.boxes.updateAt_invalid hv _
  show ({ (w.update (w.boxes.signal s.index s.events)).2 with fired := _ } : Switchboard n) = _
  rw [herror]
  rfl

end

def eventsFor (i : Fin n) (s : Signal) : EventSet :=
  if s.index = i.val then s.events else EventSet.empty

def gain (i : Fin n) (w : Switchboard n) (s : Signal) : EventSet :=
  if (w.boxes.get i).claimed then eventsFor i s else EventSet.empty

theorem gain_of_ne {i : Fin n} {s : Signal} (w : Switchboard n) (h : s.index ≠ i.val) :
    gain i w s = EventSet.empty := by
  unfold gain eventsFor
  rw [if_neg h, ite_self]

theorem react_here (i : Fin n) (t : Nat) (events : EventSet) (w : Switchboard n) :
    (port i).mailbox (Reactive.react t (⟨i, events⟩ : Signal) w)
      = ((port i).mailbox w).putBack (gain i w ⟨i, events⟩) ∧
    ∀ m : Mailbox, m.claimed = ((port i).mailbox w).claimed →
      Reactive.react t (⟨i, events⟩ : Signal) ((port i).put m w)
        = (port i).put (m.putBack (gain i w ⟨i, events⟩))
          (Reactive.react t (⟨i, events⟩ : Signal) w) := by
  have hput : ∀ m : Mailbox, ((port i).put m w).boxes[i.val] = m :=
    fun m => (port i).mailbox_put m w
  cases hc : ((port i).mailbox w).claimed with
  | true =>
    have hgain : gain i w ⟨i, events⟩ = events := by
      unfold gain eventsFor
      exact (if_pos hc).trans (if_pos rfl)
    rw [hgain, react_accepted t ⟨i, events⟩ w i.isLt hc]
    refine ⟨(port i).mailbox_put _ w, fun m hm => ?_⟩
    have hm' : ((port i).put m w).boxes[i.val].claimed = true := by
      rw [hput]
      exact hm
    rw [react_accepted t ⟨i, events⟩ _ i.isLt hm', hput]
    simp only [port, Vector.set_set]
  | false =>
    have hgain : gain i w ⟨i, events⟩ = EventSet.empty := by
      unfold gain
      exact if_neg (Bool.eq_false_iff.mp hc)
    rw [hgain, Mailbox.putBack_empty, react_refused t ⟨i, events⟩ w i.isLt hc]
    refine ⟨rfl, fun m hm => ?_⟩
    have hm' : ((port i).put m w).boxes[i.val].claimed = false := by
      rw [hput]
      exact hm
    rw [react_refused t ⟨i, events⟩ _ i.isLt hm', Mailbox.putBack_empty]
    rfl

theorem react_elsewhere {i : Fin n} {s : Signal} (hi : s.index ≠ i.val) (t : Nat)
    (w : Switchboard n) :
    (port i).mailbox (Reactive.react t s w) = (port i).mailbox w ∧
    ∀ m : Mailbox,
      Reactive.react t s ((port i).put m w) = (port i).put m (Reactive.react t s w) := by
  by_cases hv : s.index < n
  · have hput : ∀ m : Mailbox, ((port i).put m w).boxes[s.index] = w.boxes[s.index] :=
      fun m => Vector.getElem_set_ne i.isLt hv (Ne.symm hi)
    cases hc : w.boxes[s.index].claimed with
    | true =>
      rw [react_accepted t s w hv hc]
      refine ⟨Vector.getElem_set_ne hv i.isLt hi, fun m => ?_⟩
      rw [react_accepted t s _ hv (by rw [hput]; exact hc), hput]
      simp only [port]
      rw [Vector.set_comm _ _ (Ne.symm hi)]
    | false =>
      rw [react_refused t s w hv hc]
      refine ⟨rfl, fun m => ?_⟩
      rw [react_refused t s _ hv (by rw [hput]; exact hc)]
      rfl
  · rw [react_astray t s w hv]
    refine ⟨rfl, fun m => ?_⟩
    rw [react_astray t s _ hv]
    rfl

theorem react_gain (i : Fin n) (t : Nat) (s : Signal) (w : Switchboard n) :
    (port i).mailbox (Reactive.react t s w) = ((port i).mailbox w).putBack (gain i w s) ∧
    ∀ m : Mailbox, m.claimed = ((port i).mailbox w).claimed →
      Reactive.react t s ((port i).put m w)
        = (port i).put (m.putBack (gain i w s)) (Reactive.react t s w) := by
  by_cases hi : s.index = i.val
  · obtain ⟨index, events⟩ := s
    dsimp only at hi
    subst hi
    exact react_here i t events w
  · obtain ⟨hbox, hput⟩ := react_elsewhere hi t w
    rw [gain_of_ne w hi, Mailbox.putBack_empty]
    refine ⟨hbox, fun m _ => ?_⟩
    rw [Mailbox.putBack_empty, hput]

theorem port_lawful (i : Fin n) : (port i).Lawful Signal where
  put_put := by
    intro m m' w
    show ({ w with boxes := (w.boxes.set i.val m' i.isLt).set i.val m i.isLt } : Switchboard n) = _
    rw [Vector.set_set]
    rfl
  react := fun t s w => ⟨gain i w s, react_gain i t s w⟩

/-! ## what is pending at an instant -/

def eventsOf (i : Fin n) (signals : List Signal) : EventSet :=
  signals.foldr (fun s events => eventsFor i s ||| events) EventSet.empty

/-- The events that the agenda sets in the mailbox at `i` up to the instant `t`. -/
def setBy (i : Fin n) (tl : Timeline Signal (Switchboard n)) (t : Nat) : EventSet :=
  if (tl.world.boxes.get i).claimed then
    eventsOf i (Routine.actionsOf (tl.agenda.filter fun b => decide (b.time ≤ t)))
  else EventSet.empty

/-- What is pending in the mailbox at `i` at the instant `t`, if its consumer takes nothing. -/
def pendingBy (i : Fin n) (tl : Timeline Signal (Switchboard n)) (t : Nat) : EventSet :=
  (tl.world.boxes.get i).pending ||| setBy i tl t

/-- What signals leave in the mailbox at `i`. -/
def gained (i : Fin n) (m : Mailbox) (signals : List Signal) : Mailbox :=
  signals.foldl (fun m s => m.putBack (if m.claimed then eventsFor i s else EventSet.empty)) m

theorem gained_append (i : Fin n) (m : Mailbox) (as bs : List Signal) :
    gained i m (as ++ bs) = gained i (gained i m as) bs := List.foldl_append

theorem pending_gained (i : Fin n) (m : Mailbox) (signals : List Signal) :
    (gained i m signals).pending
      = m.pending ||| if m.claimed then eventsOf i signals else EventSet.empty := by
  induction signals generalizing m with
  | nil => rw [eventsOf, List.foldr_nil, ite_self, EventSet.empty, BitVec.or_zero]; rfl
  | cons s rest ih =>
    have hstep := ih (m.putBack (if m.claimed then eventsFor i s else EventSet.empty))
    rw [Mailbox.claimed_putBack, Mailbox.pending_putBack] at hstep
    show (gained i (m.putBack _) rest).pending = _ ||| if _ then eventsFor i s ||| eventsOf i rest
      else _
    rw [hstep, BitVec.or_assoc]
    cases m.claimed with
    | true => rfl
    | false => exact congrArg (m.pending ||| ·) BitVec.or_zero

theorem get_fire (i : Fin n) (t : Nat) (as : List Signal) (w : Switchboard n) :
    (fire t as w).boxes.get i = gained i (w.boxes.get i) as := by
  induction as generalizing w with
  | nil => rfl
  | cons s as ih =>
    have hs : (Reactive.react t s w).boxes.get i = (w.boxes.get i).putBack (gain i w s) :=
      (react_gain i t s w).1
    rw [fire_cons, ih, hs]
    rfl

theorem get_passTo (i : Fin n) (t : Nat) (g : Agenda Signal) (w : Switchboard n) :
    (Timeline.passTo t g w).2.boxes.get i = gained i (w.boxes.get i) (g.due t) := by
  induction g generalizing w with
  | nil => rfl
  | cons b rest ih =>
    by_cases hb : b.time ≤ t
    · rw [Timeline.passTo_cons_of_le rest w hb, ih, get_fire, Agenda.due_cons_of_le rest hb,
        gained_append]
    · rw [Timeline.passTo, if_neg hb, Agenda.due_cons_of_lt rest (Nat.lt_of_not_le hb)]
      rfl

/-- What is pending in the world that nobody attends to. -/
theorem pending_unattended (i : Fin n) {tl : Timeline Signal (Switchboard n)}
    (hord : tl.agenda.Ordered) {t : Nat} (hle : tl.now ≤ t) :
    ((tl.unattended t).world.boxes.get i).pending = pendingBy i tl t := by
  have hbox : (tl.unattended t).world.boxes.get i
      = gained i (tl.world.boxes.get i) (tl.agenda.due t) := by
    show (Timeline.passTo t tl.settle.agenda tl.settle.world).2.boxes.get i = _
    rw [get_passTo]
    show gained i ((fire tl.now (tl.agenda.due tl.now) tl.world).boxes.get i)
      ((tl.agenda.later tl.now).due t) = gained i (tl.world.boxes.get i) (tl.agenda.due t)
    rw [get_fire, ← Agenda.due_append_later hle tl.agenda, gained_append]
  unfold pendingBy setBy
  rw [hbox, pending_gained, Agenda.actionsOf_filter t hord]

theorem asConsumer_ends {index : Nat}
    {f : Port (Switchboard n) → Routine Signal (Switchboard n) Answer}
    {tl : Timeline Signal (Switchboard n)} {Q : Answer → Timeline Signal (Switchboard n) → Prop}
    {E : Timeline Signal (Switchboard n) → Prop} (hf : ∀ i, (f (port i)).Ends tl Q E)
    (hnone : Q .noWaiter tl) : (asConsumer index f).Ends tl Q E := by
  unfold asConsumer Routine.Ends
  rw [Routine.bind_apply, Routine.world_apply]
  dsimp only
  cases tl.world.boxes.consumer? index with
  | some i => exact hf i
  | none => exact hnone

/-- Every step keeps an agenda ordered. -/
theorem perform_ordered (step : Step) {tl : Timeline Signal (Switchboard n)}
    (h : tl.agenda.Ordered) :
    (perform step).Ends tl (fun _ tl' => tl'.agenda.Ordered) fun tl' => tl'.agenda.Ordered := by
  cases step with
  | signal s => exact h
  | claim i => exact h
  | pending i => exact h
  | schedule ticks s => exact Timeline.schedule_ordered tl ticks s h
  | advance ticks =>
    show (tl.advance ticks).agenda.Ordered
    rw [Timeline.advance_eq_unattended, Timeline.unattended, Timeline.fst_passTo]
    exact Agenda.later_ordered _ (Timeline.settle_ordered tl h)
  | awaitAll index target timeout =>
    rw [perform]
    refine asConsumer_ends (fun i => Routine.ends_bind.mpr ?_) h
    have hnoted : Agenda.Ordered
      ({ tl with world := (port i).note (.waitStarted target) tl.world } :
        Timeline Signal (Switchboard n)).agenda := h
    exact Routine.await_ordered _ _ _ hnoted
  | awaitAny index target timeout =>
    rw [perform]
    refine asConsumer_ends (fun i => Routine.ends_bind.mpr ?_) h
    exact Routine.await_ordered _ _ _ h
  | take index target =>
    rw [perform]
    exact asConsumer_ends (fun i => Routine.ends_act h) h
  | putBack index events =>
    rw [perform]
    exact asConsumer_ends (fun i => h) h

/-! ## the waits -/

/-- The wait of the consumer at `i` on `target` from `tl` on returns at the instant `t`: it gives
what was pending of the target then, leaves the rest, and has let happen the batches up to `t`. -/
structure ReturnsAt (i : Fin n) (target : EventSet) (tl : Timeline Signal (Switchboard n)) (t : Nat)
    (v : EventSet) (tl' : Timeline Signal (Switchboard n)) : Prop where
  now_eq : tl'.now = t
  agenda_eq : tl'.agenda = tl.agenda.later t
  value_eq : v = pendingBy i tl t &&& target
  pending_eq : (tl'.world.boxes.get i).pending = pendingBy i tl t &&& ~~~target

/-- How the wait returns that needs `enough`: at once, or at the first instant at which enough is
pending, or at its deadline.  A deadline at the last tick or beyond it never rings. -/
inductive Returns (i : Fin n) (target : EventSet) (timeout : Nat)
    (tl : Timeline Signal (Switchboard n)) (enough : EventSet → Prop) (v : EventSet)
    (tl' : Timeline Signal (Switchboard n)) : Prop
  | atOnce : enough (tl.world.boxes.get i).pending → tl'.now = tl.now → tl'.agenda = tl.agenda →
    tl'.world.fired = tl.world.fired → v = (tl.world.boxes.get i).pending &&& target →
    (tl'.world.boxes.get i).pending = (tl.world.boxes.get i).pending &&& ~~~target →
    Returns i target timeout tl enough v tl'
  | inTime (t : Nat) : ¬ enough (tl.world.boxes.get i).pending → tl.now ≤ t →
    (tl.now + timeout < Clock.lastTick → t ≤ tl.now + timeout) → enough (pendingBy i tl t) →
    (∀ t', tl.now ≤ t' → t' < t → ¬ enough (pendingBy i tl t')) → ReturnsAt i target tl t v tl' →
    Returns i target timeout tl enough v tl'
  | late : ¬ enough (tl.world.boxes.get i).pending → tl.now + timeout < Clock.lastTick →
    (∀ t', tl.now ≤ t' → t' ≤ tl.now + timeout → ¬ enough (pendingBy i tl t')) →
    ReturnsAt i target tl (tl.now + timeout) v tl' → Returns i target timeout tl enough v tl'

/-- Neither is enough pending at any instant that the clock may reach, nor is the deadline such an
instant. -/
def NeverReturns (i : Fin n) (timeout : Nat) (tl : Timeline Signal (Switchboard n))
    (enough : EventSet → Prop) : Prop :=
  (tl.now + timeout < Clock.lastTick →
    Routine.mayReach tl.horizon (tl.now + timeout) = false) ∧
  ∀ t, tl.now ≤ t → Routine.mayReach tl.horizon t = true → ¬ enough (pendingBy i tl t)

section
variable {i : Fin n} {target : EventSet} {timeout : Nat} {tl : Timeline Signal (Switchboard n)}

def Took (i : Fin n) (target : EventSet) (v : EventSet) (u s : Switchboard n) : Prop :=
  v = (u.boxes.get i).pending &&& target ∧
    (s.boxes.get i).pending = (u.boxes.get i).pending &&& ~~~target

theorem took_take (i : Fin n) (target : EventSet) (u : Switchboard n) :
    Took i target ((port i).take target u).1 u ((port i).take target u).2 :=
  ⟨rfl, congrArg Mailbox.pending ((port i).mailbox_take target u)⟩

/-- The end of a wait, told by what is pending.  It comes too late if there is not enough. -/
theorem returns_of_pending {enough : EventSet → Prop} {v : EventSet}
    {tl' : Timeline Signal (Switchboard n)} (hnot : ¬ enough (tl.world.boxes.get i).pending)
    (hle : tl.now ≤ tl'.now)
    (hfirst : ∀ t, tl.now ≤ t → t < tl'.now → ¬ enough (pendingBy i tl t))
    (hat : ReturnsAt i target tl tl'.now v tl')
    (hend : (enough (pendingBy i tl tl'.now) ∧
        ∀ d, Clock.ring? (Clock.after? tl.now timeout) = some d → tl'.now ≤ d) ∨
      (¬ enough (pendingBy i tl tl'.now) ∧
        Clock.ring? (Clock.after? tl.now timeout) = some tl'.now)) :
    Returns i target timeout tl enough v tl' := by
  rcases hend with ⟨henough, hring⟩ | ⟨hnever, hring⟩
  · refine .inTime tl'.now hnot hle (fun hlt => ?_) henough hfirst hat
    exact hring _ (Clock.ring?_after? hlt)
  · obtain ⟨hnow, hlt⟩ := Clock.ring?_after?_eq_some_iff.mp hring
    rw [hnow] at hfirst hnever hat
    refine .late hnot hlt ?_ hat
    intro t ht hto
    rcases Nat.lt_or_eq_of_le hto with hto | rfl
    · exact hfirst t ht hto
    · exact hnever

/-- The end of a wait, read off the world that nobody attends to. -/
theorem returns_of_exact {enough : EventSet → Prop}
    {Q E : EventSet → Switchboard n → Switchboard n → Prop}
    {result : EStateM.Result Halt (Timeline Signal (Switchboard n)) EventSet}
    (hord : tl.agenda.Ordered)
    (hQ : ∀ v u s, Q v u s → Took i target v u s ∧ s.fired = u.fired)
    (hE : ∀ v u s, E v u s → Took i target v u s)
    (h : Routine.Exact tl (Clock.ring? (Clock.after? tl.now timeout))
      (fun u => enough (u.boxes.get i).pending) Q E result) :
    Routine.Ended (Returns i target timeout tl enough)
      (fun _ => NeverReturns i timeout tl enough) result := by
  rcases h with ⟨henough, v, s, rfl, hq⟩ | ⟨hnot, hontime⟩
  · obtain ⟨⟨hv, hleft⟩, hfired⟩ := hQ v tl.world s hq
    exact .atOnce henough rfl rfl hfired hv hleft
  have hpending : ∀ t, tl.now ≤ t →
      ((Timeline.passTo t tl.settle.agenda tl.settle.world).2.boxes.get i).pending
        = pendingBy i tl t := fun t ht => pending_unattended i hord ht
  refine hontime.imp ?_ ?_
  · intro v tl' h
    obtain ⟨hle, hagenda, hfirst, hend⟩ := h
    have hlater : tl'.agenda = tl.agenda.later tl'.now := by
      rw [hagenda, Timeline.fst_passTo]
      exact Agenda.later_later hle tl.agenda
    have hfirst' : ∀ t, tl.now ≤ t → t < tl'.now → ¬ enough (pendingBy i tl t) := by
      intro t ht hlt
      rw [← hpending t ht]
      exact hfirst t ht hlt
    dsimp only at hend
    rw [hpending _ hle] at hend
    have htook : Took i target v (Timeline.passTo tl'.now tl.settle.agenda tl.settle.world).2
        tl'.world := by
      rcases hend with ⟨_, hq, _⟩ | ⟨_, he, _⟩
      · exact (hQ v _ _ hq).1
      · exact hE v _ _ he
    unfold Took at htook
    rw [hpending _ hle] at htook
    refine returns_of_pending hnot hle hfirst' ⟨rfl, hlater, htook.1, htook.2⟩ ?_
    exact hend.imp (fun h => ⟨h.1, h.2.2⟩) fun h => ⟨h.1, h.2.2⟩
  · intro tl' h
    obtain ⟨hring, hnever⟩ := h
    refine ⟨fun hlt => hring _ (Clock.ring?_after? hlt), fun t ht hreach => ?_⟩
    rw [← hpending t ht]
    exact hnever t ht hreach

theorem Returns.of_noted {enough : EventSet → Prop} {e : LogEntry} {v : EventSet}
    {tl' : Timeline Signal (Switchboard n)}
    (h : Returns i target timeout { tl with world := (port i).note e tl.world } enough v tl') :
    Returns i target timeout tl enough v tl' := by
  cases h with
  | atOnce henough hnow hagenda hfired hv hleft =>
    exact .atOnce henough hnow hagenda hfired hv hleft
  | inTime t hnot hle hring henough hfirst hreturns =>
    obtain ⟨hnow, hagenda, hv, hleft⟩ := hreturns
    exact .inTime t hnot hle hring henough hfirst ⟨hnow, hagenda, hv, hleft⟩
  | late hnot hlt hnever hreturns =>
    obtain ⟨hnow, hagenda, hv, hleft⟩ := hreturns
    exact .late hnot hlt hnever ⟨hnow, hagenda, hv, hleft⟩

theorem deadline_le {d : Nat} (h : Clock.ring? (Clock.after? tl.now timeout) = some d) :
    tl.now ≤ d := by
  have hd := (Clock.ring?_after?_eq_some_iff.mp h).1
  omega

theorem gather_returns (hord : tl.agenda.Ordered) :
    Routine.Ended (Returns i target timeout tl fun pending => pending.Covers target)
      (fun _ => NeverReturns i timeout tl fun pending => pending.Covers target)
      (Routine.await ((port i).gather target) (Clock.after? tl.now timeout) EventSet.empty tl) := by
  have hstart : (EventSet.empty ||| ((port i).take target tl.world).1,
      ((port i).take target tl.world).2) = (port i).take target tl.world := by
    rw [EventSet.empty, BitVec.zero_or]
  refine returns_of_exact hord ?_ ?_ (Routine.await_exact
    (Port.gather_shadows (port_lawful i) target) hord (fun _ => deadline_le) hstart)
  · intro v u s h
    obtain ⟨rfl, rfl⟩ := Prod.mk.inj h
    exact ⟨took_take i target u, rfl⟩
  · intro v u s h
    obtain ⟨rfl, rfl⟩ := Prod.mk.inj h
    exact took_take i target u

theorem deliver_returns (hord : tl.agenda.Ordered) :
    Routine.Ended (Returns i target timeout tl fun pending => pending &&& target ≠ EventSet.empty)
      (fun _ => NeverReturns i timeout tl fun pending => pending &&& target ≠ EventSet.empty)
      (Routine.await ((port i).deliver target) (Clock.after? tl.now timeout) () tl) := by
  refine returns_of_exact hord ?_ ?_ (Routine.await_exact
    (Port.deliver_shadows (port_lawful i) target) hord (fun _ => deadline_le) rfl)
  · intro v u s h
    obtain ⟨rfl, rfl⟩ := Prod.mk.inj h
    exact ⟨took_take i target u, rfl⟩
  · intro v u s h
    obtain ⟨rfl, rfl⟩ := Prod.mk.inj h
    exact took_take i target u

theorem Returns.value_of_covers {v : EventSet} {tl' : Timeline Signal (Switchboard n)}
    (h : Returns i target timeout tl (fun pending => pending.Covers target) v tl')
    (hv : v ≠ target) :
    tl'.now = tl.now + timeout ∧ v = pendingBy i tl (tl.now + timeout) &&& target := by
  cases h with
  | atOnce henough _ _ _ hvalue _ => exact absurd (hvalue.trans henough) hv
  | inTime t _ _ _ henough _ hreturns => exact absurd (hreturns.value_eq.trans henough) hv
  | late _ _ _ hreturns => exact ⟨hreturns.now_eq, hreturns.value_eq⟩

theorem Returns.value_of_some {v : EventSet} {tl' : Timeline Signal (Switchboard n)}
    (h : Returns i target timeout tl (fun pending => pending &&& target ≠ EventSet.empty) v tl')
    (hv : v = EventSet.empty) :
    tl'.now = tl.now + timeout ∧
      pendingBy i tl (tl.now + timeout) &&& target = EventSet.empty := by
  cases h with
  | atOnce henough _ _ _ hvalue _ => exact absurd (hvalue.symm.trans hv) henough
  | inTime t _ _ _ henough _ hreturns =>
    exact absurd (hreturns.value_eq.symm.trans hv) henough
  | late _ _ _ hreturns => exact ⟨hreturns.now_eq, hreturns.value_eq.symm.trans hv⟩

end

/-- **The waits in virtual time.**  The wait for all of a target returns the target at the first
instant at which all of it was pending at the start or set since, at once if it was all there; and
otherwise what there was of it, at its deadline.  The wait for some event of a target returns, at
the first instant at which there is one, all those pending then, and nothing only at its deadline.
Either takes from the mailbox what it aims at and leaves the rest.  A wait that does not return has
neither enough nor a deadline at any instant that the clock may reach.  The agenda is ordered, as
every step keeps it. -/
theorem waits_are_exact (i : Fin n) (target : EventSet) (timeout : Nat)
    (tl : Timeline Signal (Switchboard n)) (hord : tl.agenda.Ordered) :
    ((port i).awaitAll target timeout).Ends tl
      (fun v tl' => Returns i target timeout tl (fun pending => pending.Covers target) v tl' ∧
        (v ≠ target →
          tl'.now = tl.now + timeout ∧ v = pendingBy i tl (tl.now + timeout) &&& target))
      (fun _ => NeverReturns i timeout tl fun pending => pending.Covers target) ∧
    ((port i).awaitAny target timeout).Ends tl
      (fun v tl' =>
        Returns i target timeout tl (fun pending => pending &&& target ≠ EventSet.empty) v tl' ∧
        (v = EventSet.empty → tl'.now = tl.now + timeout ∧
          pendingBy i tl (tl.now + timeout) &&& target = EventSet.empty))
      (fun _ => NeverReturns i timeout tl fun pending => pending &&& target ≠ EventSet.empty) := by
  unfold Routine.Ends
  rw [Port.awaitAll_apply, Port.awaitAny_apply]
  constructor
  · have hnoted : Agenda.Ordered
      ({ tl with world := (port i).note (.waitStarted target) tl.world } :
        Timeline Signal (Switchboard n)).agenda := hord
    refine (gather_returns hnoted).imp ?_ fun _ h => h
    intro v tl' h
    exact ⟨h.of_noted, h.of_noted.value_of_covers⟩
  · refine (deliver_returns hord).imp ?_ fun _ h => h
    intro v tl' h
    exact ⟨h, h.value_of_some⟩

def twoEvents : EventSet := EventSet.single .statusUpdated ||| EventSet.single .reconnectRequested

/-- A signal that is overdue and one that comes after four ticks. -/
def twoSignals : Timeline Signal (Switchboard 1) where
  now := 3
  agenda := [⟨1, [⟨0, EventSet.single .statusUpdated⟩]⟩,
    ⟨7, [⟨0, EventSet.single .reconnectRequested⟩]⟩]
  world := { boxes := Vector.replicate 1 { claimed := true } }

theorem two_signals_in_time :
    twoSignals.agenda.Ordered ∧ ∃ tl',
      (port 0).awaitAll twoEvents 10 twoSignals = .ok twoEvents tl' ∧ tl'.now = 7 ∧
      Returns 0 twoEvents 10 twoSignals (fun pending => pending.Covers twoEvents) twoEvents tl' := by
  have hord : twoSignals.agenda.Ordered := by simp [twoSignals, Agenda.Ordered]
  have hreturn : (port 0).awaitAll twoEvents 10 twoSignals = .ok twoEvents _ := rfl
  exact ⟨hord, _, hreturn, rfl,
    ((waits_are_exact 0 twoEvents 10 twoSignals hord).1.of_ok hreturn).1⟩

end Switchboard

end Uplink
