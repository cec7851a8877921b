import Uplink.Proofs.Accounts
import Uplink.Proofs.Modest

/-!
# A host at rest

With nothing on the agenda and a co-processor that reports nothing, a modest routine leaves its host
as it is, but for the log, the mailbox and the requests in the trace.

* `Coprocessor.All`               what every response of the co-processor is;
* `Coprocessor.Silent`            no response of the co-processor reports a status;
* `Host.Rests`                    interface, status and last snapshot stay, only requests are traced;
* `HostRoutine.Resting`           a routine that lets an idle, silent host rest;
* `HostRoutine.Modest.resting`    so do all modest routines;
* `HostRoutine.awaitAny_idle`     the wait for any event, where nothing more can happen.
-/

namespace Uplink

/-! ## all responses -/

/-- Every response, queued or standing, is as `P` says. -/
structure Feed.All {α : Type} (P : Response α → Prop) (f : Feed α) : Prop where
  queue : ∀ r ∈ f.queue, P r
  standing : ∀ n, P (f.standing n)

/-- Every response to any request is as `P` says. -/
structure Coprocessor.All (P : {α : Type} → Response α → Prop) (c : Coprocessor) : Prop where
  modes : c.modes.All P
  connections : c.connections.All P
  disconnections : c.disconnections.All P
  firmware : c.firmware.All P
  addresses : c.addresses.All P

theorem Feed.All.next {α : Type} {P : Response α → Prop} {f : Feed α} (hf : f.All P) :
    P f.next.1 ∧ f.next.2.All P := by
  have hqueue := hf.queue
  unfold Feed.next
  split
  · rename_i r rest hq
    rw [hq] at hqueue
    obtain ⟨hr, hrest⟩ := List.forall_mem_cons.mp hqueue
    exact ⟨hr, hrest, hf.standing⟩
  · exact ⟨hf.standing _, hf.queue, hf.standing⟩

theorem Coprocessor.Draws.all {P : {α : Type} → Response α → Prop} {α : Type}
    {draw : Coprocessor → Response α × Coprocessor} (hdraw : Draws draw) {c : Coprocessor}
    (hc : c.All P) : P (draw c).1 ∧ (draw c).2.All P := by
  cases hdraw with
  | mode => exact ⟨hc.modes.next.1, { hc with modes := hc.modes.next.2 }⟩
  | connection => exact ⟨hc.connections.next.1, { hc with connections := hc.connections.next.2 }⟩
  | disconnection =>
    exact ⟨hc.disconnections.next.1, { hc with disconnections := hc.disconnections.next.2 }⟩
  | firmware => exact ⟨hc.firmware.next.1, { hc with firmware := hc.firmware.next.2 }⟩
  | address => exact ⟨hc.addresses.next.1, { hc with addresses := hc.addresses.next.2 }⟩

theorem Feed.all_always {α : Type} {P : Response α → Prop} {a : α} (ha : P { outcome := .ok a }) :
    (always a).All P := ⟨fun _ hr => absurd hr List.not_mem_nil, fun _ => ha⟩

def Response.Silent {α : Type} (r : Response α) : Prop := r.early = [] ∧ r.late = []

/-- No response of the co-processor reports anything. -/
abbrev Coprocessor.Silent (c : Coprocessor) : Prop := c.All Response.Silent

/-! ## rest -/

def TraceEntry.IsRequest (e : TraceEntry) : Prop :=
  ∃ time request timeout, e = asked time request timeout

namespace Host

/-- Between two moments of a host nothing happened but requests: interface, cached status and the
snapshot last observed are what they were. -/
structure Rests (h h' : Host) : Prop where
  interface_eq : h'.interface = h.interface
  status_eq : h'.status = h.status
  seen_eq : h'.seen = h.seen
  trace : ∃ entries, h'.trace.toList = h.trace.toList ++ entries ∧ ∀ e ∈ entries, e.IsRequest

variable {h h₁ h' : Host}

/-- Nothing was traced. -/
theorem rests_of_trace (hi : h'.interface = h.interface) (hs : h'.status = h.status)
    (ho : h'.seen = h.seen) (ht : h'.trace = h.trace) : Rests h h' :=
  ⟨hi, hs, ho, [], by rw [ht, List.append_nil], fun e he => absurd he List.not_mem_nil⟩

theorem rests_refl (h : Host) : Rests h h := rests_of_trace rfl rfl rfl rfl

theorem Rests.trans (ha : Rests h h₁) (hb : Rests h₁ h') : Rests h h' := by
  obtain ⟨as, hta, hea⟩ := ha.trace
  obtain ⟨bs, htb, heb⟩ := hb.trace
  refine ⟨hb.interface_eq.trans ha.interface_eq, hb.status_eq.trans ha.status_eq,
    hb.seen_eq.trans ha.seen_eq, as ++ bs, ?_, ?_⟩
  · rw [htb, hta, List.append_assoc]
  · exact List.forall_mem_append.mpr ⟨hea, heb⟩

theorem Tends.rests (ht : Tends h h') : Rests h h' := by
  induction ht with
  | refl => exact rests_refl h
  | tail _ hs ih => cases hs <;> exact ih.trans (rests_of_trace rfl rfl rfl rfl)

theorem Tends.coprocessor (ht : Tends h h') : h'.coprocessor = h.coprocessor := by
  induction ht with
  | refl => rfl
  | tail _ hs ih => cases hs <;> exact ih

theorem rests_asked (h : Host) (coprocessor : Coprocessor) (now : Nat) (request : Request)
    (timeout : Nat) :
    Rests h ({ h with coprocessor }.record (.asked now request timeout)) := by
  refine ⟨rfl, rfl, rfl, [.asked now request timeout], Array.toList_push, ?_⟩
  intro e he
  exact ⟨now, request, timeout, List.mem_singleton.mp he⟩

/-- No call was made on the interface. -/
theorem Rests.callsSince (hr : Rests h h') : Host.callsSince h h' = [] := by
  obtain ⟨entries, ht, hasked⟩ := hr.trace
  unfold Host.callsSince
  rw [entriesSince_eq ht]
  refine List.filterMap_eq_nil_iff.mpr fun e he => ?_
  obtain ⟨time, request, timeout, rfl⟩ := hasked e he
  rfl

theorem acceptedIn_of_requests {entries : List TraceEntry} (h : ∀ e ∈ entries, e.IsRequest) :
    acceptedIn entries = EventSet.empty := by
  induction entries with
  | nil => rfl
  | cons e es ih =>
    obtain ⟨he, hes⟩ := List.forall_mem_cons.mp h
    obtain ⟨time, request, timeout, rfl⟩ := he
    show EventSet.empty ||| acceptedIn es = EventSet.empty
    rw [ih hes]
    rfl

/-- If the accounts are settled, the mailbox has what it had. -/
theorem Rests.pending_eq (hr : Rests h h') {rs : List Request}
    (hs : Since h EventSet.empty rs h') : h'.mailbox.pending = h.mailbox.pending := by
  obtain ⟨entries, ht, hasked⟩ := hr.trace
  obtain ⟨entries', hl, _⟩ := hs
  have hsame : entries' = entries := List.append_cancel_left (hl.trace_eq.symm.trans ht)
  have hpending := hl.pending_eq
  rw [hsame, acceptedIn_of_requests hasked, EventSet.empty, BitVec.or_zero, BitVec.or_zero]
    at hpending
  exact hpending

end Host

/-! ## routines at rest -/

namespace Timeline

/-- Nothing is on the agenda, and the co-processor is silent. -/
structure Idle (tl : Timeline Action Host) : Prop where
  agenda : tl.agenda = []
  silent : tl.world.coprocessor.Silent

/-- The way from one timeline to a later one at rest. -/
structure RestsTo (tl tl' : Timeline Action Host) : Prop where
  idle : tl'.Idle
  world : Host.Rests tl.world tl'.world

theorem RestsTo.trans {tl tl₁ tl' : Timeline Action Host} (ha : tl.RestsTo tl₁)
    (hb : tl₁.RestsTo tl') : tl.RestsTo tl' := ⟨hb.idle, ha.world.trans hb.world⟩

end Timeline

namespace HostRoutine

open Coprocessor Host

/-- Started where nothing is on the agenda and the co-processor is silent, the routine lets its host
rest, whether it returns or comes to a halt. -/
def Resting {β : Type} (x : HostRoutine β) : Prop :=
  ∀ tl : Timeline Action Host, tl.Idle → x.Ends tl (fun _ => tl.RestsTo) tl.RestsTo

variable {β γ : Type}

theorem Resting.bind {x : HostRoutine β} {f : β → HostRoutine γ} (hx : Resting x)
    (hf : ∀ b, Resting (f b)) : Resting (x >>= f) := by
  intro tl hidle
  refine Routine.ends_bind.mpr ((hx tl hidle).imp ?_ fun _ h => h)
  intro b tl₁ hrests
  exact (hf b tl₁ hrests.idle).imp (fun _ _ => hrests.trans) fun _ => hrests.trans

theorem resting_act {f : Nat → Host → β × Host} (hf : ∀ now h, Tends h (f now h).2) :
    Resting (Routine.act f) := by
  intro tl hidle
  have hsilent := hidle.silent
  rw [← (hf tl.now tl.world).coprocessor] at hsilent
  exact Routine.ends_act ⟨⟨hidle.agenda, hsilent⟩, (hf tl.now tl.world).rests⟩

theorem resting_await {ρ : Type} {w : Wait Host ρ β} (hlook : ∀ t r h, Tends h (w.look t r h).2)
    (hexpire : ∀ r h, Tends h (w.expire r h).2) (deadline : Option Nat) (r : ρ) :
    Resting (Routine.await w deadline r) := by
  intro tl hidle
  -- nothing has happened when the wait is over, as the agenda was empty
  have hover : Routine.Over (fun as _ h => as = [] → Tends tl.world h)
      (fun as (_ : ρ) h => as = [] → Tends tl.world h) tl.agenda []
      (Routine.await w deadline r tl) := by
    refine Routine.await_over (I := fun as _ h => as = [] → Tends tl.world h) ?_ ?_ ?_
      fun _ => .refl
    · intro as t r h hd
      have hl := fun hnone => (hd hnone).trans (hlook t r h)
      rcases hw : w.look t r h with ⟨v | r', h'⟩ <;> (rw [hw] at hl; exact hl)
    · intro past r h t as hd hnone
      obtain ⟨hpast, has⟩ := List.append_eq_nil_iff.mp hnone
      rw [has]
      exact hd hpast
    · intro as r h hd hnone
      exact (hd hnone).trans (hexpire r h)
  have hpassed : ∀ {tl' : Timeline Action Host},
      Routine.Passed tl.agenda [] (fun as h => as = [] → Tends tl.world h) tl' →
        tl.RestsTo tl' := by
    intro tl' hend
    obtain ⟨passed, hg, hd⟩ := hend
    rw [hidle.agenda] at hg
    obtain ⟨hnone, hagenda⟩ := List.append_eq_nil_iff.mp hg.symm
    have htends := hd (by rw [hnone]; rfl)
    have hsilent := hidle.silent
    rw [← htends.coprocessor] at hsilent
    exact ⟨⟨hagenda, hsilent⟩, htends.rests⟩
  refine hover.imp (fun _ _ => hpassed) ?_
  intro tl' hend
  obtain ⟨passed, hg, _, hd⟩ := hend
  exact hpassed ⟨passed, hg, hd⟩

theorem resting_pure (b : β) : Resting (pure b : HostRoutine β) :=
  resting_act (f := fun _ h => (b, h)) fun _ _ => .refl

theorem resting_sleep (ticks : Nat) : Resting (Routine.sleep ticks) := by
  intro tl hidle
  unfold Routine.Ends Routine.sleep
  split
  · exact resting_await (w := Routine.timer) (fun _ _ _ => .refl) (fun _ _ => .refl) _ () tl hidle
  · exact ⟨hidle, rests_refl _⟩

theorem resting_reportCodes {codes : List UInt8} (hnone : codes = []) :
    Resting (Routine.change (·.reportCodes codes)) := by
  rw [hnone]
  exact resting_act (f := fun _ h => ((), h)) fun _ _ => .refl

theorem resting_ask {α : Type} {draw : Coprocessor → Response α × Coprocessor} (request : Request)
    (timeout : Nat) (hdraw : Draws draw) : Resting (ask request draw timeout) := by
  intro tl hidle
  obtain ⟨⟨hearly, hlate⟩, hsilent⟩ := hdraw.all hidle.silent
  have hasked : tl.RestsTo { tl with
      world := { tl.world with coprocessor := (draw tl.world.coprocessor).2 }.record
        (.asked tl.now request timeout) } :=
    ⟨⟨hidle.agenda, hsilent⟩, rests_asked tl.world _ tl.now request timeout⟩
  have hanswer : Resting (do
      Routine.change (·.reportCodes (draw tl.world.coprocessor).1.late)
      return (draw tl.world.coprocessor).1.outcome : HostRoutine (Except TransportFault α)) :=
    (resting_reportCodes hlate).bind fun _ => resting_pure _
  unfold ask
  refine Routine.ends_bind.mpr (Routine.ends_act ?_)
  have hrest : Resting (do
      Routine.change (·.reportCodes (draw tl.world.coprocessor).1.early)
      if timeout < (draw tl.world.coprocessor).1.delay then
        Routine.sleep timeout
        return .error .timeout
      if 0 < (draw tl.world.coprocessor).1.delay then
        Routine.sleep (draw tl.world.coprocessor).1.delay
      Routine.change (·.reportCodes (draw tl.world.coprocessor).1.late)
      return (draw tl.world.coprocessor).1.outcome : HostRoutine (Except TransportFault α)) := by
    refine (resting_reportCodes hearly).bind fun _ => ?_
    split
    · exact (resting_sleep _).bind fun _ => resting_pure _
    · split
      · exact (resting_sleep _).bind fun _ => hanswer
      · exact hanswer
  exact (hrest _ hasked.idle).imp (fun _ _ => hasked.trans) fun _ => hasked.trans

/-- **What asks or waits lets the host rest.** -/
theorem Modest.resting {x : HostRoutine β} (hx : Modest x) : Resting x := by
  induction hx with
  | step hf => exact resting_act hf
  | await deadline r hlook hexpire => exact resting_await hlook hexpire deadline r
  | ask request timeout hdraw => exact resting_ask request timeout hdraw
  | bind _ _ ihx ihf => exact ihx.bind ihf

/-! ## the wait for any event -/

theorem diff_of_none {s target : EventSet} (hnone : s &&& target = EventSet.empty) :
    s &&& ~~~target = s := by
  have hboth := EventSet.diff_or_inter s target
  rwa [hnone, EventSet.empty, BitVec.or_zero] at hboth

theorem take_of_none {h : Host} {target : EventSet}
    (hnone : h.mailbox.pending &&& target = EventSet.empty) :
    port.take target h = (EventSet.empty, h) := by
  have hkept := diff_of_none hnone
  show (h.mailbox.pending &&& target,
    { h with mailbox := { h.mailbox with pending := h.mailbox.pending &&& ~~~target } }) = _
  rw [hnone, hkept]

/-- Events that are there are delivered at once. -/
theorem awaitAny_some {target : EventSet} {timeout : Nat} {tl : Timeline Action Host}
    (hsome : tl.world.mailbox.pending &&& target ≠ EventSet.empty) :
    awaitAny target timeout tl = .ok (tl.world.mailbox.pending &&& target)
      { tl with world := (port.take target tl.world).2 } :=
  Routine.await_of_done _ _ _ _ (if_neg hsome)

/-- How a wait that nothing can end any more goes on to its deadline. -/
def idleUntil (goal : Nat) (tl : Timeline Action Host) :
    EStateM.Result Halt (Timeline Action Host) EventSet :=
  if goal < Clock.lastTick then
    if Routine.mayReach tl.horizon goal then .ok EventSet.empty { tl with now := goal }
    else .error .limit { tl with now := tl.horizon.getD tl.now }
  else .error .blocked tl

/-- **A wait for any event where none is there and none can come** lasts exactly as long as it may:
to its deadline, and for ever if the clock does not reach that. -/
theorem awaitAny_idle {target : EventSet} {timeout : Nat} {tl : Timeline Action Host}
    (hagenda : tl.agenda = [])
    (hnone : tl.world.mailbox.pending &&& target = EventSet.empty) :
    awaitAny target timeout tl = idleUntil (tl.now + timeout) tl := by
  have hlook : ∀ t, (port.deliver target).look t () tl.world = (.pending (), tl.world) := by
    intro t
    unfold Port.deliver
    dsimp only
    rw [take_of_none hnone]
    rfl
  have hsettle : ({ tl with world := tl.world } : Timeline Action Host).settle = tl := by
    cases tl
    cases hagenda
    rfl
  unfold awaitAny
  rw [Port.awaitAny_apply]
  unfold Routine.await idleUntil
  rw [hlook]
  dsimp only
  rw [hsettle, hlook]
  dsimp only
  by_cases hring : tl.now + timeout < Clock.lastTick
  · rw [Clock.ring?_after? hring, if_pos hring, hagenda]
    split
    · rename_i hpassed
      have hle : tl.now + timeout ≤ tl.now := of_decide_eq_true hpassed
      have hzero : tl.now + timeout = tl.now := by omega
      rw [hzero]
      rfl
    · rfl
  · have hnever : Clock.ring? (Clock.after? tl.now timeout) = none :=
      Clock.ring?_after?_eq_none_iff.mpr (Nat.le_of_not_lt hring)
    cases tl
    cases hagenda
    rw [hnever, if_neg hring]
    rfl

/-- A wait at rest delivers what is pending when it begins, and that may be nothing. -/
theorem awaitAny_rests (target : EventSet) (timeout : Nat) {tl : Timeline Action Host}
    (hidle : tl.Idle) : (awaitAny target timeout).Ends tl
      (fun events tl' => tl.RestsTo tl' ∧ events = tl.world.mailbox.pending &&& target ∧
        tl'.world.mailbox.pending = tl.world.mailbox.pending &&& ~~~target) tl.RestsTo := by
  have hlater : ∀ t, tl.RestsTo { tl with now := t } :=
    fun t => ⟨⟨hidle.agenda, hidle.silent⟩, rests_refl _⟩
  by_cases hnone : tl.world.mailbox.pending &&& target = EventSet.empty
  · unfold Routine.Ends
    rw [awaitAny_idle hidle.agenda hnone]
    unfold idleUntil
    split
    · split
      · exact ⟨hlater _, hnone.symm, (diff_of_none hnone).symm⟩
      · exact hlater _
    · exact hlater tl.now
  · have hrests := (modest_awaitAny target timeout).resting tl hidle
    unfold Routine.Ends at hrests ⊢
    rw [awaitAny_some hnone] at hrests ⊢
    exact ⟨hrests, rfl, rfl⟩

end HostRoutine

end Uplink
