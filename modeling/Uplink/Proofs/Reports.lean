import Uplink.Proofs.Attempts
import Uplink.Proofs.Deliveries
import Uplink.Proofs.Drift

/-!
# Waiting for reports

An update in the mailbox stands for reports.  As long as only reports tell of updates, it is there
exactly if it was there before or a report came meanwhile, and so a wait for updates is a wait for
reports.

* `Host.Tells`                    what was reported between two moments of a host, by log and trace;
* `Host.Tells.update_iff`         an update stands for reports;
* `Batch.brings`                  a delivery with a report whose last status is accepted;
* `HostRoutine.awaitReport_reported` how a wait for a report ends;
* `HostRoutine.awaitReport_iff`   a wait for a report succeeds with an update that is there already,
                                  or with a delivery in time.
-/

namespace Uplink

open Host HostRoutine

/-! ## what is told of reports -/

namespace Host

/-- Between two moments of a host, `rs` was reported: the log and the status say so, and the trace
has an update exactly if there was a report. -/
structure Tells (rs : List RadioStatus) (h h' : Host) : Prop where
  claimed_eq : h'.mailbox.claimed = h.mailbox.claimed
  status_eq : h'.status = rs.getLast?.getD h.status
  reports_eq : h'.reports = h.reports ++ rs
  told : ∃ entries, h'.trace.toList = h.trace.toList ++ entries ∧
    ((acceptedIn entries).Has .statusUpdated ↔ rs ≠ [])

variable {h h₁ h' : Host} {rs rs' : List RadioStatus}

theorem tells_nothing (hm : h'.mailbox.claimed = h.mailbox.claimed) (hs : h'.status = h.status)
    (hr : h'.reports = h.reports) {entries : List TraceEntry}
    (ht : h'.trace.toList = h.trace.toList ++ entries) (he : acceptedIn entries = EventSet.empty) :
    Tells [] h h' := by
  refine ⟨hm, hs, ?_, entries, ht, ?_⟩
  · rw [hr, List.append_nil]
  · simp [he, EventSet.not_has_empty]

theorem tells_refl (h : Host) : Tells [] h h :=
  tells_nothing rfl rfl rfl (List.append_nil _).symm rfl

theorem Tells.trans (ha : Tells rs h h₁) (hb : Tells rs' h₁ h') : Tells (rs ++ rs') h h' := by
  obtain ⟨as, hta, hia⟩ := ha.told
  obtain ⟨bs, htb, hib⟩ := hb.told
  refine ⟨hb.claimed_eq.trans ha.claimed_eq, ?_, ?_, as ++ bs, ?_, ?_⟩
  · rw [hb.status_eq, ha.status_eq, List.getLast?_append]
    cases rs'.getLast? <;> rfl
  · rw [hb.reports_eq, ha.reports_eq, List.append_assoc]
  · rw [htb, hta, List.append_assoc]
  · have hne : rs ++ rs' ≠ [] ↔ rs ≠ [] ∨ rs' ≠ [] := by
      rw [ne_eq, List.append_eq_nil_iff, Classical.not_and_iff_not_or_not]
    rw [acceptedIn_append, EventSet.has_or, hia, hib, hne]

theorem tells_perform (a : Action) (hb : a.OnlyBridge) (hc : h.mailbox.claimed = true) :
    Tells a.reported?.toList h (a.perform h).2 := by
  obtain ⟨sets, ht, hannounces⟩ := a.told_perform h
  refine ⟨?_, ?_, ?_, sets.map TraceEntry.accepted, ?_, ?_⟩
  · rw [ht.claimed_eq, a.mailbox_alone]
  · rw [ht.status_eq, a.status_alone]
    cases a.reported? <;> rfl
  · rw [ht.reports_eq, a.reports_alone]
  · rw [ht.trace_eq, a.trace_alone]
  · rw [acceptedIn_accepted, hannounces hb hc]
    cases a.reported? <;> simp

theorem tells_react (now : Nat) (a : Action) (hb : a.OnlyBridge) (hc : h.mailbox.claimed = true) :
    Tells a.reported?.toList h (Reactive.react now a h) := by
  have hfired : Tells [] (a.perform h).2 (Reactive.react now a h) :=
    tells_nothing rfl rfl rfl Array.toList_push (acceptedIn_single _)
  exact List.append_nil a.reported?.toList ▸ (tells_perform a hb hc).trans hfired

theorem Stirs.tells (hs : Stirs Action.OnlyBridge h h') (hc : h.mailbox.claimed = true) :
    ∃ rs, Tells rs h h' := by
  cases hs with
  | note e he =>
    exact ⟨[], tells_nothing rfl rfl (reports_note_of_none h he) (List.append_nil _).symm rfl⟩
  | take target => exact ⟨[], tells_nothing rfl rfl rfl (List.append_nil _).symm rfl⟩
  | putBack events => exact ⟨[], tells_nothing rfl rfl rfl (List.append_nil _).symm rfl⟩
  | ask coprocessor now request timeout =>
    exact ⟨[], tells_nothing rfl rfl rfl Array.toList_push (acceptedIn_single _)⟩
  | report status => exact ⟨_, tells_perform (.report status) trivial hc⟩
  | react now a ha => exact ⟨_, tells_react now a ha hc⟩

/-- Log and trace agree on what was reported, however long the host drifted. -/
theorem Drifts.tells (hd : Drifts Action.OnlyBridge h h') (hc : h.mailbox.claimed = true) :
    ∃ rs, Tells rs h h' := by
  induction hd with
  | refl => exact ⟨[], tells_refl h⟩
  | tail _ hs ih =>
    obtain ⟨rs, ht⟩ := ih
    obtain ⟨rs', ht'⟩ := hs.tells (ht.claimed_eq.trans hc)
    exact ⟨rs ++ rs', ht.trans ht'⟩

/-- The statuses that actions report. -/
def reportsOf (as : List Action) : List RadioStatus := as.filterMap Action.reported?

theorem reportsOf_cons (a : Action) (as : List Action) :
    reportsOf (a :: as) = a.reported?.toList ++ reportsOf as := by
  unfold reportsOf
  cases hr : a.reported? with
  | none => exact List.filterMap_cons_none hr
  | some s => exact List.filterMap_cons_some hr

theorem tells_fire (t : Nat) {as : List Action} (has : ∀ a ∈ as, a.OnlyBridge)
    (hc : h.mailbox.claimed = true) : Tells (reportsOf as) h (fire t as h) := by
  induction as generalizing h with
  | nil => exact tells_refl h
  | cons a as ih =>
    obtain ⟨ha, has⟩ := List.forall_mem_cons.mp has
    have hone := tells_react t a ha hc
    rw [reportsOf_cons, fire_cons]
    exact hone.trans (ih has (hone.claimed_eq.trans hc))

/-- **An update stands for reports.** -/
theorem Tells.update_iff (ht : Tells rs h h') {requests : List Request}
    (hs : Since h EventSet.empty requests h') :
    h'.mailbox.pending.Has .statusUpdated ↔
      h.mailbox.pending.Has .statusUpdated ∨ rs ≠ [] := by
  obtain ⟨entries, htrace, hi⟩ := ht.told
  obtain ⟨entries', hleads, _⟩ := hs
  have hsame : entries' = entries :=
    List.append_cancel_left (hleads.trace_eq.symm.trans htrace)
  have hpending := hleads.pending_eq
  rw [EventSet.empty, BitVec.or_zero, hsame] at hpending
  rw [hpending, EventSet.has_or, hi]

/-- What was reported between two moments of a host. -/
def reportsSince (h h' : Host) : List RadioStatus := h'.reports.drop h.reports.length

theorem Tells.reportsSince_eq (ht : Tells rs h h') : reportsSince h h' = rs := by
  unfold reportsSince
  rw [ht.reports_eq, List.drop_left]

end Host

/-! ## waiting for a report -/

/-- The actions of a delivery report, and the last status that they report is accepted. -/
def Batch.brings (accept : RadioStatus → Bool) (b : Batch Action) : Bool :=
  (reportsOf b.actions).getLast?.any accept

theorem Batch.brings_of_none {accept : RadioStatus → Bool} {b : Batch Action}
    (hnone : reportsOf b.actions = []) : b.brings accept = false := by
  unfold brings
  rw [hnone]
  rfl

/-- The status after actions, if it was `s` before them: the last that they report. -/
def statusAfter (s : RadioStatus) (as : List Action) : RadioStatus := (reportsOf as).getLast?.getD s

theorem statusAfter_append (s : RadioStatus) (as bs : List Action) :
    statusAfter s (as ++ bs) = statusAfter (statusAfter s as) bs := by
  unfold statusAfter
  rw [reportsOf, List.filterMap_append, List.getLast?_append]
  show (Option.or (reportsOf bs).getLast? _).getD s = _
  cases (reportsOf bs).getLast? <;> rfl

/-- After a delivery with reports the status decides. -/
theorem Batch.brings_of_some {accept : RadioStatus → Bool} {b : Batch Action} {h h' : Host}
    (hsome : reportsOf b.actions ≠ []) (ht : Tells (reportsOf b.actions) h h') :
    b.brings accept = accept h'.status := by
  unfold brings
  rw [ht.status_eq, List.getLast?_eq_some_getLast hsome]
  rfl

namespace HostRoutine

theorem take_updates_eq_empty (h : Host) :
    (port.take updates h).1 = EventSet.empty ↔ ¬ h.mailbox.pending.Has .statusUpdated := by
  rw [take_updates]
  split
  · rename_i hhas
    exact ⟨fun he => absurd he (EventSet.single_ne_empty _), fun hnot => absurd hhas hnot⟩
  · rename_i hnot
    exact ⟨fun _ => hnot, fun _ => rfl⟩

theorem not_has_take_updates (h : Host) :
    ¬ (port.take updates h).2.mailbox.pending.Has .statusUpdated := by
  intro hhas
  exact (EventSet.has_diff h.mailbox.pending updates .statusUpdated).mp hhas |>.2 (by decide)

/-- One look for an update: it is over if there is one, and the status is accepted or the time has
passed. -/
theorem looked_watch (accept : RadioStatus → Bool) (deadline : Option Nat) (now : Nat)
    (taken : Bool) (h : Host) :
    Routine.Looked
      (fun v h' => h'.status = h.status ∧ h.mailbox.pending.Has .statusUpdated ∧
        v.2 = accept h.status ∧ (v.2 = false → Clock.passed deadline now = true))
      (fun _ h' => h'.status = h.status ∧ h'.mailbox.claimed = h.mailbox.claimed ∧
        ¬ h'.mailbox.pending.Has .statusUpdated ∧
        (h.mailbox.pending.Has .statusUpdated →
          accept h.status = false ∧ Clock.passed deadline now = false))
      ((watch accept deadline).look now taken h) := by
  have hgone := not_has_take_updates h
  unfold watch
  dsimp only
  split
  · rename_i hnone
    refine ⟨rfl, rfl, hgone, fun hhas => ?_⟩
    exact absurd hhas ((take_updates_eq_empty h).mp hnone)
  · rename_i hsome
    have hhas : h.mailbox.pending.Has .statusUpdated :=
      Decidable.not_not.mp (mt (take_updates_eq_empty h).mpr hsome)
    split
    · rename_i haccept
      exact ⟨rfl, hhas, haccept.symm, fun hfalse => nomatch hfalse⟩
    · rename_i hreject
      have hfalse : accept h.status = false := Bool.eq_false_iff.mpr hreject
      split
      · rename_i hpassed
        exact ⟨rfl, hhas, hfalse.symm, fun _ => hpassed⟩
      · rename_i hnot
        exact ⟨rfl, rfl, hgone, fun _ => ⟨hfalse, Bool.eq_false_iff.mpr hnot⟩⟩

section
variable {accept : RadioStatus → Bool} {initial : RadioStatus} {start timeout : Nat}

/-- While a wait goes on: no update is left, no delivery has brought an accepted report, and reports
came only while there was time. -/
structure NoneBrought (accept : RadioStatus → Bool) (initial : RadioStatus) (start timeout : Nat)
    (seen : Agenda Action) (h : Host) : Prop where
  claimed : h.mailbox.claimed = true
  gone : ¬ h.mailbox.pending.Has .statusUpdated
  status_eq : h.status = statusAfter initial (Routine.actionsOf seen)
  in_time : ∀ b ∈ seen, b.time ≤ start + timeout
  brings_none : ∀ b ∈ seen, b.brings accept = false
  not_passed : ∀ b ∈ seen, reportsOf b.actions ≠ [] →
    Clock.passed (Clock.after? start timeout) b.time = false

/-- A wait is over because its last delivery has brought an accepted report in time. -/
def BroughtLast (accept : RadioStatus → Bool) (start timeout : Nat) (seen : Agenda Action)
    (now : Nat) : Prop :=
  ∃ before b, seen = before ++ [b] ∧ b.time = now ∧ now ≤ start + timeout ∧
    b.brings accept = true ∧ ∀ c ∈ before, c.brings accept = false

/-- A wait is over because its time is, and nothing has brought an accepted report.  At the last
tick, where no deadline rings, that takes a report. -/
structure RanOut (accept : RadioStatus → Bool) (start timeout : Nat) (seen : Agenda Action)
    (now : Nat) : Prop where
  brings_none : ∀ b ∈ seen, b.brings accept = false
  now_eq : now = start + timeout
  now_le : now ≤ Clock.lastTick
  reported : now = Clock.lastTick → ∃ b ∈ seen, b.time = now ∧ reportsOf b.actions ≠ []

/-- When a wait is over: whether one of its deliveries has brought an accepted report. -/
structure Answered (accept : RadioStatus → Bool) (initial : RadioStatus) (start timeout : Nat)
    (seen : Agenda Action) (now : Nat) (accepted : Bool) (h : Host) : Prop where
  status_eq : h.status = statusAfter initial (Routine.actionsOf seen)
  in_time : ∀ b ∈ seen, b.time ≤ start + timeout
  brought : accepted = true → BroughtLast accept start timeout seen now
  ranOut : accepted = false → RanOut accept start timeout seen now

/-- What a delivery of a wait that began at `start` may be. -/
def Deliverable (start : Nat) (b : Batch Action) : Prop :=
  (b.time ≤ start ∨ b.time ≤ Clock.lastTick) ∧ ∀ a ∈ b.actions, a.OnlyBridge

/-- Deliveries come no later than a deadline that rings, and so one for which the time has passed
comes at its end. -/
theorem eq_of_passed {t : Nat} (hpassed : Clock.passed (Clock.after? start timeout) t = true)
    (hring : ∀ d, Clock.ring? (Clock.after? start timeout) = some d → t ≤ d)
    (ht : t ≤ start ∨ t ≤ Clock.lastTick) : t = start + timeout ∧ t ≤ Clock.lastTick := by
  obtain ⟨d, hd, hle⟩ := Clock.passed_iff.mp hpassed
  obtain ⟨rfl, hlast⟩ := Clock.after?_eq_some_iff.mp hd
  have hge := Clock.le_of_before_ring hring ht
  omega

theorem watch_attends : Routine.Attends (watch accept (Clock.after? start timeout))
    (Clock.ring? (Clock.after? start timeout)) (Deliverable start)
    (fun seen _ h => NoneBrought accept initial start timeout seen h)
    (fun seen now v h => Answered accept initial start timeout seen now v.2 h) := by
  constructor
  · intro seen b taken h hj hb hring
    obtain ⟨htime, hbridge⟩ := hb
    have ht := tells_fire b.time hbridge hj.claimed
    have hupdate := ht.update_iff ((since_refl h).fire b.time b.actions)
    have hreports : (fire b.time b.actions h).mailbox.pending.Has .statusUpdated →
        reportsOf b.actions ≠ [] := fun hhas => (hupdate.mp hhas).resolve_left hj.gone
    have hstatus : (fire b.time b.actions h).status
        = statusAfter initial (Routine.actionsOf (seen ++ [b])) := by
      rw [ht.status_eq, hj.status_eq, Routine.actionsOf_concat, statusAfter_append]
      rfl
    have hin : ∀ c ∈ seen ++ [b], c.time ≤ start + timeout :=
      List.forall_mem_append.mpr ⟨hj.in_time,
        List.forall_mem_singleton.mpr (Clock.le_of_before_ring hring htime)⟩
    have hl := looked_watch accept (Clock.after? start timeout) b.time taken
      (fire b.time b.actions h)
    rcases hw : (watch accept (Clock.after? start timeout)).look b.time taken
      (fire b.time b.actions h) with ⟨v | r, h'⟩
    · rw [hw] at hl
      obtain ⟨hkept, hhas, haccept, hpassed⟩ := hl
      have hbrings : b.brings accept = accept (fire b.time b.actions h).status :=
        Batch.brings_of_some (hreports hhas) ht
      rw [← hbrings] at haccept
      refine ⟨hkept.trans hstatus, hin, fun htrue => ?_, fun hfalse => ?_⟩
      · exact ⟨seen, b, rfl, rfl, Clock.le_of_before_ring hring htime, haccept ▸ htrue,
          hj.brings_none⟩
      · obtain ⟨hnow, hlast⟩ := eq_of_passed (hpassed hfalse) hring htime
        refine ⟨List.forall_mem_append.mpr ⟨hj.brings_none, ?_⟩, hnow, hlast, fun _ => ?_⟩
        · exact List.forall_mem_singleton.mpr (haccept ▸ hfalse)
        · exact ⟨b, List.mem_append_right _ (List.mem_singleton_self b), rfl, hreports hhas⟩
    · rw [hw] at hl
      obtain ⟨hkept, hclaimed, hgone, hreject⟩ := hl
      have hnone : reportsOf b.actions = [] ∨ (b.brings accept = false ∧
          Clock.passed (Clock.after? start timeout) b.time = false) := by
        by_cases hnil : reportsOf b.actions = []
        · exact Or.inl hnil
        · rw [Batch.brings_of_some hnil ht]
          exact Or.inr (hreject (hupdate.mpr (Or.inr hnil)))
      refine ⟨?_, hgone, hkept.trans hstatus, hin, ?_, ?_⟩
      · rw [hclaimed, ht.claimed_eq, hj.claimed]
      · refine List.forall_mem_append.mpr ⟨hj.brings_none, List.forall_mem_singleton.mpr ?_⟩
        exact hnone.elim Batch.brings_of_none And.left
      · refine List.forall_mem_append.mpr ⟨hj.not_passed, List.forall_mem_singleton.mpr ?_⟩
        exact fun hsome => (hnone.resolve_left hsome).2
  · intro seen t taken h hj hring
    obtain ⟨rfl, hlt⟩ := Clock.ring?_after?_eq_some_iff.mp hring
    refine ⟨hj.status_eq, hj.in_time, fun htrue => absurd htrue Bool.false_ne_true, fun _ => ?_⟩
    exact ⟨hj.brings_none, rfl, Nat.le_of_lt hlt, fun heq => absurd heq (Nat.ne_of_lt hlt)⟩

/-- A delivery in time brings an accepted report. -/
def Brought (accept : RadioStatus → Bool) (timeout : Nat) (tl : Timeline Action Host) : Prop :=
  ∃ b ∈ tl.deliveries, b.time ≤ tl.now + timeout ∧ b.brings accept = true

/-- A wait that is over has its answer from all deliveries in time. -/
theorem brought_of_answered {tl tl' : Timeline Action Host} {accepted : Bool}
    {seen : Agenda Action} (hseen : tl.deliveries = seen ++ tl'.agenda)
    (hlater : ∀ b ∈ tl'.agenda, tl'.now < b.time)
    (ha : Answered accept initial tl.now timeout seen tl'.now accepted tl'.world) :
    accepted = true ↔ Brought accept timeout tl := by
  constructor
  · intro htrue
    obtain ⟨before, b, rfl, htime, hle, hbrings, _⟩ := ha.brought htrue
    refine ⟨b, ?_, htime ▸ hle, hbrings⟩
    rw [hseen]
    exact List.mem_append_left _ (List.mem_append_right _ (List.mem_singleton_self b))
  · intro hend
    obtain ⟨b, hb, htime, hbrings⟩ := hend
    apply eq_true_of_ne_false
    intro hfalse
    have hout := ha.ranOut hfalse
    rw [hseen] at hb
    rcases List.mem_append.mp hb with hb | hb
    · rw [hout.brings_none b hb] at hbrings
      exact Bool.false_ne_true hbrings
    · have hlt := hlater b hb
      have hnow := hout.now_eq
      omega

/-- The deadline of a wait with some time is not over when the wait begins. -/
theorem not_passed_after (htimeout : 0 < timeout) :
    Clock.passed (Clock.after? start timeout) start = false := by
  apply Bool.eq_false_iff.mpr
  intro hpassed
  obtain ⟨d, hd, hle⟩ := Clock.passed_iff.mp hpassed
  obtain ⟨rfl, _⟩ := Clock.after?_eq_some_iff.mp hd
  omega

variable {tl tl' : Timeline Action Host}

/-- How a wait for a report is over: at once, with an update that is there already, or after some of
its deliveries. -/
inductive Reported (accept : RadioStatus → Bool) (timeout : Nat) (tl : Timeline Action Host)
    (accepted : Bool) (tl' : Timeline Action Host) : Prop where
  | atOnce (there : tl.world.mailbox.pending.Has .statusUpdated)
    (haccept : accept tl.world.status = true) (result : accepted = true)
    (now_eq : tl'.now = tl.now) (agenda_eq : tl'.agenda = tl.agenda)
    (status_eq : tl'.world.status = tl.world.status) : Reported accept timeout tl accepted tl'
  | attended (seen : Agenda Action)
    (reject : tl.world.mailbox.pending.Has .statusUpdated → accept tl.world.status = false)
    (deliveries_eq : tl.deliveries = seen ++ tl'.agenda)
    (later : ∀ b ∈ tl'.agenda, tl'.now < b.time)
    (answered : Answered accept tl.world.status tl.now timeout seen tl'.now accepted tl'.world) :
    Reported accept timeout tl accepted tl'

/-- A wait for a report that comes to a halt: it would have to go beyond the horizon. -/
def Unreported (accept : RadioStatus → Bool) (timeout : Nat) (tl : Timeline Action Host) : Prop :=
  (tl.world.mailbox.pending.Has .statusUpdated → accept tl.world.status = false) ∧
    Routine.Stalled (ρ := Bool) (Clock.ring? (Clock.after? tl.now timeout)) tl.horizon []
      tl.deliveries fun seen _ h => NoneBrought accept tl.world.status tl.now timeout seen h

theorem ring_ge {d : Nat} (hd : Clock.ring? (Clock.after? start timeout) = some d) : start ≤ d := by
  obtain ⟨rfl, _⟩ := Clock.ring?_after?_eq_some_iff.mp hd
  exact Nat.le_add_right _ _

theorem watch_reported (accept : RadioStatus → Bool) (tl : Timeline Action Host)
    (htimeout : 0 < timeout) (hclaimed : tl.world.mailbox.claimed = true) (hord : tl.Orderly)
    (hbridge : tl.Within Action.OnlyBridge) :
    (Routine.await (watch accept (Clock.after? tl.now timeout)) (Clock.after? tl.now timeout)
      false).Ends tl (fun v tl' => Reported accept timeout tl v.2 tl')
      fun _ => Unreported accept timeout tl := by
  have hl := looked_watch accept (Clock.after? tl.now timeout) tl.now false tl.world
  rcases hw : (watch accept (Clock.after? tl.now timeout)).look tl.now false tl.world
    with ⟨v | r, h⟩
  · -- over at once, and so accepted
    rw [hw] at hl
    obtain ⟨hkept, hhas, haccept, hpassed⟩ := hl
    have htrue : v.2 = true := by
      apply eq_true_of_ne_false
      intro hfalse
      rw [not_passed_after htimeout] at hpassed
      exact Bool.false_ne_true (hpassed hfalse)
    unfold Routine.Ends
    rw [Routine.await_of_done _ _ _ _ hw]
    exact .atOnce hhas (haccept ▸ htrue) htrue rfl rfl hkept
  · rw [hw] at hl
    obtain ⟨hkept, hclaimed', hgone, hreject⟩ := hl
    have hfirst : tl.world.mailbox.pending.Has .statusUpdated → accept tl.world.status = false :=
      fun hhas => (hreject hhas).1
    have hdeliverable : ∀ b ∈ tl.deliveries, Deliverable tl.now b :=
      Timeline.forall_deliveries (T := fun t => t ≤ tl.now ∨ t ≤ Clock.lastTick)
        (Or.inl (Nat.le_refl _)) (fun b hb => Or.inr (hord.time_le b hb)) hbridge
    have hnone : NoneBrought accept tl.world.status tl.now timeout [] h :=
      ⟨hclaimed'.trans hclaimed, hgone, hkept, fun b hb => absurd hb List.not_mem_nil,
        fun b hb => absurd hb List.not_mem_nil, fun b hb => absurd hb List.not_mem_nil⟩
    have hend := Routine.await_attended watch_attends hord.ordered (fun _ => ring_ge) hdeliverable
      hw hnone
    refine hend.imp ?_ fun _ hstalled => ⟨hfirst, hstalled⟩
    intro v tl' hover
    obtain ⟨seen, hseen, hlater, hanswered⟩ := hover
    exact .attended seen hfirst hseen hlater hanswered

/-- **The end of a wait for a report.** -/
theorem awaitReport_reported (htimeout : 0 < timeout) (hclaimed : tl.world.mailbox.claimed = true)
    (hord : tl.Orderly) (hbridge : tl.Within Action.OnlyBridge) :
    (awaitReport accept timeout).Ends tl (Reported accept timeout tl)
      fun _ => Unreported accept timeout tl := by
  have hwatch := watch_reported accept { tl with world := tl.world.note (.waitStarted updates) }
    htimeout hclaimed ⟨hord.ordered, hord.time_le⟩ hbridge
  unfold awaitReport
  refine Routine.ends_bind.mpr ?_
  show Routine.Ends (if Clock.passed (Clock.after? tl.now timeout) tl.now then _ else _) tl _ _
  rw [not_passed_after htimeout, if_neg Bool.false_ne_true]
  refine Routine.ends_bind.mpr (Routine.ends_bind.mpr (hwatch.imp ?_ fun _ h => h))
  intro v tl₁ hreported
  obtain ⟨taken, accepted⟩ := v
  -- putting the update back changes the mailbox only
  cases hreported with
  | atOnce hthere haccept hresult hnow hagenda hstatus =>
    cases taken <;> exact .atOnce hthere haccept hresult hnow hagenda hstatus
  | attended seen hreject hseen hlater hanswered =>
    cases taken <;> exact .attended seen hreject hseen hlater
      ⟨hanswered.status_eq, hanswered.in_time, hanswered.brought, hanswered.ranOut⟩

theorem Reported.iff_brought {up : Bool} (hr : Reported accept timeout tl up tl') :
    up = true ↔ (tl.world.mailbox.pending.Has .statusUpdated ∧ accept tl.world.status = true) ∨
      Brought accept timeout tl := by
  cases hr with
  | atOnce hthere haccept hresult => exact ⟨fun _ => Or.inl ⟨hthere, haccept⟩, fun _ => hresult⟩
  | attended seen hreject hseen hlater hanswered =>
    rw [brought_of_answered hseen hlater hanswered]
    constructor
    · exact Or.inr
    · intro hend
      refine hend.resolve_left fun hthere => ?_
      rw [hreject hthere.1] at hthere
      exact Bool.false_ne_true hthere.2

/-- **A wait for a report** succeeds if there is an update when it begins and the status is accepted,
or if a delivery in time brings an accepted report. -/
theorem awaitReport_iff {up : Bool} (hreturn : awaitReport accept timeout tl = .ok up tl')
    (htimeout : 0 < timeout) (hclaimed : tl.world.mailbox.claimed = true) (hord : tl.Orderly)
    (hbridge : tl.Within Action.OnlyBridge) :
    up = true ↔ (tl.world.mailbox.pending.Has .statusUpdated ∧ accept tl.world.status = true) ∨
      Brought accept timeout tl :=
  ((awaitReport_reported htimeout hclaimed hord hbridge).of_ok hreturn).iff_brought

end

end HostRoutine

end Uplink
