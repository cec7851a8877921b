import Uplink.Bench.Host
import Uplink.Proofs.StatusLoops

/-!
# The waits for a status in virtual time

When a wait for a status returns, and what, can be read off the agenda: the status at an instant is
the last reported by then, and updates are taken and put back without an effect on it.

* `Timeline.statusAt`          the status at an instant, if only the agenda changes it;
* `Timeline.ReportsAt`         a delivery at an instant reports;
* `HostRoutine.Returns`        at once, at the first instant that is good enough, or at the deadline;
* `HostRoutine.NeverReturns`   no such instant, and no deadline, is within the horizon;
* `status_waits_are_exact`     both waits for a status end so, and agree where the status is not
                               accepted from the start.
-/

namespace Uplink

open Host HostRoutine

/-! ## the status at an instant -/

namespace Agenda

variable {α : Type}

/-- What is due of an agenda that is cut at an instant. -/
theorem due_append {t : Nat} {passed rest : Agenda α} (hpassed : ∀ b ∈ passed, b.time ≤ t)
    (hrest : ∀ b ∈ rest, t < b.time) : (passed ++ rest).due t = Routine.actionsOf passed := by
  induction passed with
  | nil =>
    cases rest with
    | nil => rfl
    | cons b rest => exact due_cons_of_lt rest (hrest b List.mem_cons_self)
  | cons b passed ih =>
    obtain ⟨hb, hpassed⟩ := List.forall_mem_cons.mp hpassed
    rw [List.cons_append, due_cons_of_le _ hb, ih hpassed, Routine.actionsOf_cons]

theorem later_append {t : Nat} {passed rest : Agenda α} (hpassed : ∀ b ∈ passed, b.time ≤ t)
    (hrest : ∀ b ∈ rest, t < b.time) : (passed ++ rest).later t = rest := by
  induction passed with
  | nil =>
    cases rest with
    | nil => rfl
    | cons b rest => exact later_cons_of_lt rest (hrest b List.mem_cons_self)
  | cons b passed ih =>
    obtain ⟨hb, hpassed⟩ := List.forall_mem_cons.mp hpassed
    rw [List.cons_append, later_cons_of_le _ hb, ih hpassed]

end Agenda

namespace Host

theorem status_react (t : Nat) (a : Action) (h : Host) :
    (Reactive.react t a h).status = a.reported?.getD h.status := by
  obtain ⟨sets, ht, _⟩ := a.told_perform h
  exact ht.status_eq.trans (a.status_alone h)

theorem status_fire (t : Nat) (as : List Action) (h : Host) :
    (fire t as h).status = statusAfter h.status as := by
  induction as generalizing h with
  | nil => rfl
  | cons a as ih =>
    have hsplit : statusAfter h.status (a :: as) = statusAfter (statusAfter h.status [a]) as :=
      statusAfter_append h.status [a] as
    have hone : statusAfter h.status [a] = a.reported?.getD h.status := by
      unfold statusAfter
      rw [reportsOf_cons]
      cases a.reported? <;> rfl
    rw [fire_cons, ih, status_react, hsplit, hone]

theorem status_passTo (t : Nat) (g : Agenda Action) (h : Host) :
    (Timeline.passTo t g h).2.status = statusAfter h.status (g.due t) := by
  induction g generalizing h with
  | nil => rfl
  | cons b rest ih =>
    by_cases hb : b.time ≤ t
    · rw [Timeline.passTo_cons_of_le rest h hb, ih, status_fire, Agenda.due_cons_of_le rest hb,
        statusAfter_append]
    · rw [Timeline.passTo, if_neg hb, Agenda.due_cons_of_lt rest (Nat.lt_of_not_le hb)]
      rfl

end Host

namespace Timeline

variable {tl : Timeline Action Host}

/-- The status at the instant `t`, if only the agenda changes the world. -/
def statusAt (tl : Timeline Action Host) (t : Nat) : RadioStatus := (tl.unattended t).world.status

/-- Somebody who blocks now is told at the instant `t` that a status was reported. -/
def ReportsAt (tl : Timeline Action Host) (t : Nat) : Prop :=
  ∃ b ∈ tl.deliveries, b.time = t ∧ reportsOf b.actions ≠ []

theorem due_deliveries {t : Nat} (hle : tl.now ≤ t) : tl.deliveries.due t = tl.agenda.due t := by
  rw [deliveries, Agenda.due_cons_of_le _ hle]
  exact Agenda.due_append_later hle tl.agenda

theorem later_deliveries {t : Nat} (hle : tl.now ≤ t) :
    tl.deliveries.later t = tl.agenda.later t := by
  rw [deliveries, Agenda.later_cons_of_le _ hle]
  exact Agenda.later_later hle tl.agenda

theorem deliveries_ordered (hord : tl.agenda.Ordered) : tl.deliveries.Ordered :=
  Agenda.ordered_cons.mpr
    ⟨fun _ hb => Agenda.lt_of_mem_later hord hb, Agenda.later_ordered tl.now hord⟩

theorem le_of_mem_deliveries (hord : tl.agenda.Ordered) {b : Batch Action}
    (hb : b ∈ tl.deliveries) : tl.now ≤ b.time := by
  rcases List.mem_cons.mp hb with rfl | hb
  · exact Nat.le_refl _
  · exact Nat.le_of_lt (Agenda.lt_of_mem_later hord hb)

theorem statusAt_eq {t : Nat} (hle : tl.now ≤ t) :
    tl.statusAt t = statusAfter tl.world.status (tl.deliveries.due t) := by
  show (passTo t (tl.agenda.later tl.now) (fire tl.now (tl.agenda.due tl.now) tl.world)).2.status = _
  rw [status_passTo, status_fire, due_deliveries hle, ← statusAfter_append,
    Agenda.due_append_later hle]

end Timeline

/-! ## accepted reports -/

section
variable {accept : RadioStatus → Bool} {s : RadioStatus} {g : Agenda Action}
  {tl : Timeline Action Host}

/-- A batch of actions leaves an accepted status only if it brings an accepted report. -/
theorem accept_of_brings_none {b : Batch Action} (hs : accept s = false)
    (hb : b.brings accept = false) : accept (statusAfter s b.actions) = false := by
  unfold Batch.brings at hb
  unfold statusAfter
  cases hlast : (reportsOf b.actions).getLast? with
  | none => exact hs
  | some last =>
    rw [hlast] at hb
    exact hb

theorem accept_of_none_brings (hs : accept s = false) (hg : ∀ b ∈ g, b.brings accept = false) :
    accept (statusAfter s (Routine.actionsOf g)) = false := by
  induction g generalizing s with
  | nil => exact hs
  | cons b rest ih =>
    obtain ⟨hb, hrest⟩ := List.forall_mem_cons.mp hg
    rw [Routine.actionsOf_cons, statusAfter_append]
    exact ih (accept_of_brings_none hs hb) hrest

theorem accept_of_brings {b : Batch Action} (hb : b.brings accept = true) :
    reportsOf b.actions ≠ [] ∧ accept (statusAfter s b.actions) = true := by
  unfold Batch.brings at hb
  unfold statusAfter
  cases hlast : (reportsOf b.actions).getLast? with
  | none =>
    rw [hlast] at hb
    exact absurd hb Bool.false_ne_true
  | some last =>
    rw [hlast] at hb
    refine ⟨fun hnil => ?_, hb⟩
    rw [hnil] at hlast
    cases hlast

/-- An accepted status that was not there from the start comes with a delivery. -/
theorem exists_brings (hs : accept tl.world.status = false) {t : Nat} (hle : tl.now ≤ t)
    (ht : accept (tl.statusAt t) = true) :
    ∃ b ∈ tl.deliveries, b.time ≤ t ∧ b.brings accept = true := by
  rw [Timeline.statusAt_eq hle] at ht
  apply Classical.byContradiction
  intro hnone
  have hdue := accept_of_none_brings hs
    (g := tl.deliveries.takeWhile fun b => decide (b.time ≤ t)) fun b hb => by
      refine Bool.eq_false_iff.mpr fun hbrings => hnone ⟨b, ?_, ?_, hbrings⟩
      · exact (List.takeWhile_prefix _).subset hb
      · exact of_decide_eq_true (List.all_eq_true.mp List.all_takeWhile b hb)
  exact Bool.false_ne_true (hdue.symm.trans ht)

/-- The status at the instant of a delivery that reports is the last of its reports. -/
theorem accept_statusAt (hord : tl.agenda.Ordered) {b : Batch Action} (hb : b ∈ tl.deliveries)
    (hreports : reportsOf b.actions ≠ []) :
    accept (tl.statusAt b.time) = b.brings accept := by
  obtain ⟨before, rest, hsplit⟩ := List.append_of_mem hb
  have hordered := Timeline.deliveries_ordered hord
  rw [hsplit, Agenda.Ordered, List.pairwise_append] at hordered
  obtain ⟨_, hrest, hbefore⟩ := hordered
  have hdue : tl.deliveries.due b.time = Routine.actionsOf before ++ b.actions := by
    rw [hsplit, List.append_cons, ← Routine.actionsOf_concat]
    refine Agenda.due_append ?_ (List.pairwise_cons.mp hrest).1
    intro c hc
    rcases List.mem_append.mp hc with hc | hc
    · exact Nat.le_of_lt (hbefore c hc b List.mem_cons_self)
    · exact Nat.le_of_eq (congrArg Batch.time (List.mem_singleton.mp hc))
  rw [Timeline.statusAt_eq (Timeline.le_of_mem_deliveries hord hb), hdue, statusAfter_append]
  unfold statusAfter Batch.brings
  rw [List.getLast?_eq_some_getLast hreports]
  rfl

/-- At the instant `t` a wait for a report finds what it waits for. -/
def Timeline.AcceptedReportAt (accept : RadioStatus → Bool) (tl : Timeline Action Host) (t : Nat) :
    Prop :=
  tl.ReportsAt t ∧ accept (tl.statusAt t) = true

theorem acceptedReportAt_iff (hord : tl.agenda.Ordered) {t : Nat} :
    tl.AcceptedReportAt accept t ↔ ∃ b ∈ tl.deliveries, b.time = t ∧ b.brings accept = true := by
  constructor
  · intro h
    obtain ⟨⟨b, hb, rfl, hreports⟩, haccept⟩ := h
    exact ⟨b, hb, rfl, (accept_statusAt hord hb hreports).symm.trans haccept⟩
  · intro h
    obtain ⟨b, hb, rfl, hbrings⟩ := h
    have hreports := (accept_of_brings (s := tl.world.status) hbrings).1
    exact ⟨⟨b, hb, rfl, hreports⟩, (accept_statusAt hord hb hreports).trans hbrings⟩

end

/-! ## how the waits end -/

namespace HostRoutine

/-- How a status wait returns: at once if what it waits for is `there`, otherwise at the first
instant that is `good`, and otherwise at its deadline.  A deadline beyond the last tick is none; one
at the last tick does not ring, and counts only once a report comes there. -/
inductive Returns (there : Prop) (good : Nat → Prop) (timeout : Nat) (tl : Timeline Action Host)
    (accepted : Bool) (tl' : Timeline Action Host) : Prop
  | atOnce (hthere : there) (result : accepted = true) (now_eq : tl'.now = tl.now)
    (agenda_eq : tl'.agenda = tl.agenda) : Returns there good timeout tl accepted tl'
  | inTime (hnot : ¬ there) (result : accepted = true) (now_ge : tl.now ≤ tl'.now)
    (now_le : tl'.now ≤ tl.now + timeout) (now_good : good tl'.now)
    (first : ∀ t, tl.now ≤ t → t < tl'.now → ¬ good t)
    (agenda_eq : tl'.agenda = tl.agenda.later tl'.now) : Returns there good timeout tl accepted tl'
  | late (hnot : ¬ there) (result : accepted = false) (now_eq : tl'.now = tl.now + timeout)
    (now_le : tl'.now ≤ Clock.lastTick)
    (lastTick : tl'.now = Clock.lastTick → tl.ReportsAt Clock.lastTick)
    (none : ∀ t, tl.now ≤ t → t ≤ tl'.now → ¬ good t)
    (agenda_eq : tl'.agenda = tl.agenda.later tl'.now) : Returns there good timeout tl accepted tl'

/-- No instant that the clock may reach is good, and none of them is the deadline. -/
structure NeverReturns (there : Prop) (good : Nat → Prop) (timeout : Nat)
    (tl : Timeline Action Host) : Prop where
  hnot : ¬ there
  deadline : tl.now + timeout < Clock.lastTick →
    Routine.mayReach tl.horizon (tl.now + timeout) = false
  lastTick : tl.now + timeout = Clock.lastTick →
    Routine.mayReach tl.horizon Clock.lastTick = true → ¬ tl.ReportsAt Clock.lastTick
  none : ∀ t, tl.now ≤ t → Routine.mayReach tl.horizon t = true → ¬ good t

variable {accept : RadioStatus → Bool} {there : Prop} {good : Nat → Prop} {timeout : Nat}
  {accepted : Bool} {tl tl' : Timeline Action Host}

/-- A wait succeeds if what it waits for is there, or comes in time. -/
theorem Returns.iff (h : Returns there good timeout tl accepted tl') :
    accepted = true ↔ there ∨ ∃ t, tl.now ≤ t ∧ t ≤ tl.now + timeout ∧ good t := by
  cases h with
  | atOnce hthere hresult => exact ⟨fun _ => Or.inl hthere, fun _ => hresult⟩
  | inTime hnot hresult hge hle hgood =>
    exact ⟨fun _ => Or.inr ⟨tl'.now, hge, hle, hgood⟩, fun _ => hresult⟩
  | late hnot hresult hnow _ _ hnone =>
    constructor
    · intro htrue
      exact absurd (hresult.symm.trans htrue) Bool.false_ne_true
    · rintro (hthere | ⟨t, hge, hle, hgood⟩)
      · exact absurd hthere hnot
      · exact absurd hgood (hnone t hge (hnow ▸ hle))

/-- Of two waits that look for the same, neither of which is over at once, one ends as the other. -/
theorem Returns.imp {there' : Prop} {good' : Nat → Prop}
    (h : Returns there good timeout tl accepted tl') (hthere : ¬ there) (hthere' : ¬ there')
    (hgood : ∀ t, good t → good' t)
    (hfirst : ∀ t, tl.now ≤ t → good' t → ∃ t', tl.now ≤ t' ∧ t' ≤ t ∧ good t') :
    Returns there' good' timeout tl accepted tl' := by
  cases h with
  | atOnce h => exact absurd h hthere
  | inTime _ hresult hge hle hnow hbefore hagenda =>
    refine .inTime hthere' hresult hge hle (hgood _ hnow) ?_ hagenda
    intro t hnow' hlt hgood'
    obtain ⟨t', hge', hle', h⟩ := hfirst t hnow' hgood'
    exact hbefore t' hge' (Nat.lt_of_le_of_lt hle' hlt) h
  | late _ hresult hnow hle hlast hnone hagenda =>
    refine .late hthere' hresult hnow hle hlast ?_ hagenda
    intro t hnow' hle' hgood'
    obtain ⟨t', hge', hle'', h⟩ := hfirst t hnow' hgood'
    exact hnone t' hge' (Nat.le_trans hle'' hle') h

theorem NeverReturns.imp {there' : Prop} {good' : Nat → Prop}
    (h : NeverReturns there good timeout tl) (hthere' : ¬ there')
    (hfirst : ∀ t, tl.now ≤ t → good' t → ∃ t', tl.now ≤ t' ∧ t' ≤ t ∧ good t') :
    NeverReturns there' good' timeout tl := by
  refine ⟨hthere', h.deadline, h.lastTick, ?_⟩
  intro t hge hreach hgood'
  obtain ⟨t', hge', hle, hgood⟩ := hfirst t hge hgood'
  exact h.none t' hge' (Routine.mayReach_of_le hreach hle) hgood

/-- What a wait for a report looks for is there from the start. -/
def ReportThere (accept : RadioStatus → Bool) (h : Host) : Prop :=
  h.mailbox.pending.Has .statusUpdated ∧ accept h.status = true

theorem not_reportThere {h : Host}
    (hreject : h.mailbox.pending.Has .statusUpdated → accept h.status = false) :
    ¬ ReportThere accept h := by
  intro hthere
  obtain ⟨hhas, haccept⟩ := hthere
  exact Bool.false_ne_true ((hreject hhas).symm.trans haccept)

theorem Reported.returns (hord : tl.Orderly) (hr : Reported accept timeout tl accepted tl') :
    Returns (ReportThere accept tl.world) (tl.AcceptedReportAt accept) timeout tl accepted tl' := by
  cases hr with
  | atOnce hthere haccept hresult hnow hagenda => exact .atOnce ⟨hthere, haccept⟩ hresult hnow hagenda
  | attended seen hreject hseen hlater hanswered =>
    have hnot := not_reportThere hreject
    have hordered := Timeline.deliveries_ordered hord.ordered
    -- what was seen is what came by then
    have hagenda : tl.now ≤ tl'.now → (∀ b ∈ seen, b.time ≤ tl'.now) →
        tl'.agenda = tl.agenda.later tl'.now := by
      intro hle hpast
      rw [← Timeline.later_deliveries hle, hseen, Agenda.later_append hpast hlater]
    cases accepted with
    | true =>
      obtain ⟨before, b, rfl, htime, hle, hbrings, hnone⟩ := hanswered.brought rfl
      have hb : b ∈ tl.deliveries := by
        rw [hseen]
        exact List.mem_append_left _ (List.mem_append_right _ (List.mem_singleton_self b))
      have hge : tl.now ≤ tl'.now := htime ▸ Timeline.le_of_mem_deliveries hord.ordered hb
      rw [hseen, Agenda.Ordered, List.pairwise_append, List.pairwise_append] at hordered
      have hbefore : ∀ c ∈ before, c.time < tl'.now := fun c hc =>
        htime ▸ hordered.1.2.2 c hc b (List.mem_singleton_self b)
      refine .inTime hnot rfl hge hle ((acceptedReportAt_iff hord.ordered).mpr
        ⟨b, hb, htime, hbrings⟩) ?_ (hagenda hge ?_)
      · intro t _ hlt hgood
        obtain ⟨c, hc, rfl, hbrings'⟩ := (acceptedReportAt_iff hord.ordered).mp hgood
        rw [hseen, List.append_assoc] at hc
        rcases List.mem_append.mp hc with hc | hc
        · exact Bool.false_ne_true ((hnone c hc).symm.trans hbrings')
        · rcases List.mem_cons.mp hc with rfl | hc
          · omega
          · have := hlater c hc
            omega
      · intro c hc
        rcases List.mem_append.mp hc with hc | hc
        · exact Nat.le_of_lt (hbefore c hc)
        · exact Nat.le_of_eq ((congrArg Batch.time (List.mem_singleton.mp hc)).trans htime)
    | false =>
      have hout := hanswered.ranOut rfl
      have hpast : ∀ b ∈ seen, b.time ≤ tl'.now := hout.now_eq ▸ hanswered.in_time
      refine .late hnot rfl hout.now_eq hout.now_le ?_ ?_ (hagenda (by rw [hout.now_eq]; omega) hpast)
      · intro hlast
        obtain ⟨b, hb, htime, hreports⟩ := hout.reported hlast
        refine ⟨b, ?_, htime.trans hlast, hreports⟩
        rw [hseen]
        exact List.mem_append_left _ hb
      · intro t _ hle hgood
        obtain ⟨c, hc, rfl, hbrings⟩ := (acceptedReportAt_iff hord.ordered).mp hgood
        rw [hseen] at hc
        rcases List.mem_append.mp hc with hc | hc
        · exact Bool.false_ne_true ((hout.brings_none c hc).symm.trans hbrings)
        · have := hlater c hc
          omega

theorem Unreported.neverReturns (hord : tl.Orderly) (hu : Unreported accept timeout tl) :
    NeverReturns (ReportThere accept tl.world) (tl.AcceptedReportAt accept) timeout tl := by
  obtain ⟨hreject, hring, more, rest, hsplit, hbeyond, _, h, hnone⟩ := hu
  have hunseen : ∀ c ∈ tl.deliveries, Routine.mayReach tl.horizon c.time = true → c ∈ more := by
    intro c hc hreach
    rw [hsplit] at hc
    rcases List.mem_append.mp hc with hc | hc
    · exact hc
    · exact absurd ((hbeyond c hc).symm.trans hreach) Bool.false_ne_true
  refine ⟨not_reportThere hreject, ?_, ?_, ?_⟩
  · intro hlt
    exact hring _ (Clock.ring?_after? hlt)
  · intro hlast hreach hreports
    obtain ⟨b, hb, htime, hsome⟩ := hreports
    have hnot := hnone.not_passed b (hunseen b hb (htime ▸ hreach)) hsome
    have hpassed : Clock.passed (Clock.after? tl.now timeout) b.time = true :=
      Clock.passed_iff.mpr ⟨Clock.lastTick,
        Clock.after?_eq_some_iff.mpr ⟨hlast.symm, Nat.le_refl _⟩, htime ▸ Nat.le_refl _⟩
    exact Bool.false_ne_true (hnot.symm.trans hpassed)
  · intro t _ hreach hgood
    obtain ⟨b, hb, rfl, hbrings⟩ := (acceptedReportAt_iff hord.ordered).mp hgood
    exact Bool.false_ne_true ((hnone.brings_none b (hunseen b hb hreach)).symm.trans hbrings)

/-- At the end of a wait for a report the status is accepted if the wait has succeeded, and only
then if it was not accepted from the start. -/
theorem Reported.accept_status (hreject : accept tl.world.status = false)
    (hr : Reported accept timeout tl accepted tl') : accept tl'.world.status = accepted := by
  cases hr with
  | atOnce _ haccept => exact absurd (hreject.symm.trans haccept) Bool.false_ne_true
  | attended seen _ _ _ hanswered =>
    rw [hanswered.status_eq]
    cases accepted with
    | true =>
      obtain ⟨before, b, rfl, _, _, hbrings, _⟩ := hanswered.brought rfl
      rw [Routine.actionsOf_concat, statusAfter_append]
      exact (accept_of_brings hbrings).2
    | false => exact accept_of_none_brings hreject (hanswered.ranOut rfl).brings_none

/-- Where the status is not accepted from the start, the two waits are the same. -/
theorem awaitStatus_eq_awaitReport (htimeout : 0 < timeout)
    (hclaimed : tl.world.mailbox.claimed = true) (hord : tl.Orderly)
    (hbridge : tl.Within Action.OnlyBridge) (hreject : accept tl.world.status = false) :
    awaitStatus accept timeout tl = awaitReport accept timeout tl := by
  have hends : (awaitReport accept timeout).Ends tl _ _ :=
    awaitReport_reported htimeout hclaimed hord hbridge
  have hsplit : awaitStatus accept timeout tl
      = Routine.resume (fun _ => do return accept (← status)) (awaitReport accept timeout tl) := by
    show (if accept tl.world.status then _ else _ : HostRoutine Bool) tl = _
    rw [hreject, if_neg Bool.false_ne_true]
    exact Routine.bind_eq_resume (awaitReport accept timeout) _ tl
  rw [hsplit]
  cases hreturn : awaitReport accept timeout tl with
  | error e tl' => rfl
  | ok accepted tl' =>
    show EStateM.Result.ok (accept tl'.world.status) tl' = _
    rw [(hends.of_ok hreturn).accept_status hreject]

/-- An accepted status from the start ends a wait for a status at once. -/
theorem awaitStatus_of_accepted (timeout : Nat) (haccept : accept tl.world.status = true) :
    awaitStatus accept timeout tl = .ok true tl := by
  show (if accept tl.world.status then _ else _ : HostRoutine Bool) tl = _
  rw [haccept, if_pos rfl]
  rfl

/-- How a wait for an accepted status returns. -/
abbrev StatusReturns (accept : RadioStatus → Bool) (timeout : Nat) (tl : Timeline Action Host) :
    Bool → Timeline Action Host → Prop :=
  Returns (accept tl.world.status = true) (fun t => accept (tl.statusAt t) = true) timeout tl

/-- How a wait for an accepted report returns. -/
abbrev ReportReturns (accept : RadioStatus → Bool) (timeout : Nat) (tl : Timeline Action Host) :
    Bool → Timeline Action Host → Prop :=
  Returns (ReportThere accept tl.world) (tl.AcceptedReportAt accept) timeout tl

theorem awaitReport_returns (htimeout : 0 < timeout) (hclaimed : tl.world.mailbox.claimed = true)
    (hord : tl.Orderly) (hbridge : tl.Within Action.OnlyBridge) :
    (awaitReport accept timeout).Ends tl (ReportReturns accept timeout tl) fun _ =>
      NeverReturns (ReportThere accept tl.world) (tl.AcceptedReportAt accept) timeout tl :=
  (awaitReport_reported htimeout hclaimed hord hbridge).imp (fun _ _ h => h.returns hord)
    fun _ h => h.neverReturns hord

theorem awaitStatus_returns (htimeout : 0 < timeout) (hclaimed : tl.world.mailbox.claimed = true)
    (hord : tl.Orderly) (hbridge : tl.Within Action.OnlyBridge) :
    (awaitStatus accept timeout).Ends tl (StatusReturns accept timeout tl) fun _ =>
      NeverReturns (accept tl.world.status = true) (fun t => accept (tl.statusAt t) = true) timeout
        tl := by
  by_cases haccept : accept tl.world.status = true
  · unfold Routine.Ends
    rw [awaitStatus_of_accepted timeout haccept]
    exact .atOnce haccept rfl rfl rfl
  -- a status that is accepted by some instant comes with a report by then
  have hreject := Bool.eq_false_iff.mpr haccept
  have hfirst : ∀ t, tl.now ≤ t → accept (tl.statusAt t) = true →
      ∃ t', tl.now ≤ t' ∧ t' ≤ t ∧ tl.AcceptedReportAt accept t' := by
    intro t hle ht
    obtain ⟨b, hb, htime, hbrings⟩ := exists_brings hreject hle ht
    exact ⟨b.time, Timeline.le_of_mem_deliveries hord.ordered hb, htime,
      (acceptedReportAt_iff hord.ordered).mpr ⟨b, hb, rfl, hbrings⟩⟩
  have hthere : ¬ ReportThere accept tl.world := fun hthere => haccept hthere.2
  unfold Routine.Ends
  rw [awaitStatus_eq_awaitReport htimeout hclaimed hord hbridge hreject]
  refine (awaitReport_returns htimeout hclaimed hord hbridge).imp ?_ ?_
  · intro accepted tl' hreturns
    exact hreturns.imp hthere haccept (fun t h => h.2) hfirst
  · intro tl' hnever
    exact hnever.imp haccept hfirst

/-- A deadline beyond the end of the clock is none, and such a wait never gives up. -/
theorem Returns.of_endless (h : Returns there good timeout tl accepted tl')
    (hendless : Clock.lastTick < tl.now + timeout) : accepted = true := by
  cases h with
  | atOnce _ hresult => exact hresult
  | inTime _ hresult => exact hresult
  | late _ _ hnow hle => omega

end HostRoutine

/-- **The waits for a status in virtual time.**  With some time to wait, a claimed mailbox, and
updates told by reports only: the wait for a status succeeds exactly if the status is accepted when
it begins or at some instant up to its deadline, and returns at the first such instant; the wait for
a report succeeds exactly if an update is pending when it begins and the status is accepted then, or
if at some instant up to its deadline a status is reported and the status is accepted after it, and
returns at the first such moment.  Otherwise they fail, at the deadline, which no report puts off.
A deadline beyond the last tick is none, and they do not fail; where it is the last tick itself they
fail only after a report at that tick.  They do not return only where neither such an instant nor
the deadline is within the horizon.  Where the status is not accepted from the start both end in the
same way, in the same timeline.  Both are the loops that wait for one update after another. -/
theorem status_waits_are_exact (accept : RadioStatus → Bool) {timeout : Nat}
    {tl : Timeline Action Host} (htimeout : 0 < timeout)
    (hclaimed : tl.world.mailbox.claimed = true) (hord : tl.Orderly)
    (hbridge : tl.Within Action.OnlyBridge) :
    (awaitStatus accept timeout).Ends tl
      (fun accepted tl' => StatusReturns accept timeout tl accepted tl' ∧
        (accepted = true ↔ accept tl.world.status = true ∨
          ∃ t, tl.now ≤ t ∧ t ≤ tl.now + timeout ∧ accept (tl.statusAt t) = true) ∧
        (Clock.lastTick < tl.now + timeout → accepted = true))
      (fun _ => NeverReturns (accept tl.world.status = true)
        (fun t => accept (tl.statusAt t) = true) timeout tl) ∧
    (awaitReport accept timeout).Ends tl
      (fun accepted tl' => ReportReturns accept timeout tl accepted tl' ∧
        (accepted = true ↔ ReportThere accept tl.world ∨
          ∃ t, tl.now ≤ t ∧ t ≤ tl.now + timeout ∧ tl.AcceptedReportAt accept t) ∧
        (Clock.lastTick < tl.now + timeout → accepted = true))
      (fun _ => NeverReturns (ReportThere accept tl.world) (tl.AcceptedReportAt accept) timeout tl) ∧
    (accept tl.world.status = false →
      awaitStatus accept timeout tl = awaitReport accept timeout tl) ∧
    ∀ rounds, tl.agenda.length + 3 ≤ rounds →
      awaitStatus accept timeout tl = statusLoop accept timeout rounds tl ∧
      awaitReport accept timeout tl = reportLoop accept timeout rounds tl := by
  refine ⟨?_, ?_, ?_, ?_⟩
  · refine (awaitStatus_returns htimeout hclaimed hord hbridge).imp ?_ fun _ h => h
    intro accepted tl' hreturns
    exact ⟨hreturns, hreturns.iff, hreturns.of_endless⟩
  · refine (awaitReport_returns htimeout hclaimed hord hbridge).imp ?_ fun _ h => h
    intro accepted tl' hreturns
    exact ⟨hreturns, hreturns.iff, hreturns.of_endless⟩
  · exact awaitStatus_eq_awaitReport htimeout hclaimed hord hbridge
  · intro rounds hrounds
    exact ⟨awaitStatus_eq_statusLoop accept timeout hord.ordered hrounds,
      awaitReport_eq_reportLoop accept timeout hord.ordered hrounds⟩

/-- An update is pending from before; a rejected report comes after two ticks, and after five, which
is the deadline, one that is rejected and one that is accepted, at one instant. -/
def upAtDeadline : Timeline Action Host where
  now := 0
  agenda := [⟨2, [.report .stationDown]⟩, ⟨5, [.report .apDown, .report .stationUp]⟩]
  world := { ({} : HostSetup).host with mailbox := { claimed := true, pending := updates } }

theorem station_up_at_deadline :
    0 < 5 ∧ upAtDeadline.world.mailbox.claimed = true ∧ upAtDeadline.Orderly ∧
      upAtDeadline.Within Action.OnlyBridge ∧
      ∃ tl', awaitReport RadioStatus.isAssociated 5 upAtDeadline = .ok true tl' ∧ tl'.now = 5 ∧
        ReportReturns RadioStatus.isAssociated 5 upAtDeadline true tl' := by
  have htimeout : 0 < 5 := by decide
  have hord : upAtDeadline.Orderly := by
    constructor
    · simp [upAtDeadline, Agenda.Ordered]
    · simp [upAtDeadline, Clock.lastTick]
  have hbridge : upAtDeadline.Within Action.OnlyBridge := by
    simp [upAtDeadline, Timeline.Within, Action.OnlyBridge]
  have hreturn : awaitReport RadioStatus.isAssociated 5 upAtDeadline = .ok true _ := rfl
  exact ⟨htimeout, rfl, hord, hbridge, _, hreturn, rfl,
    ((status_waits_are_exact RadioStatus.isAssociated htimeout rfl hord hbridge).2.1.of_ok
      hreturn).1⟩

/-- A rejected report at the last tick of the clock, ten ticks from now. -/
def downAtLastTick : Timeline Action Host where
  now := Clock.lastTick - 10
  agenda := [⟨Clock.lastTick, [.report .apDown]⟩]
  world := { ({} : HostSetup).host with mailbox := { claimed := true } }

/-- A deadline at the last tick never rings, and yet a rejected report there ends both waits. -/
theorem rejected_at_last_tick :
    Clock.ring? (Clock.after? downAtLastTick.now 10) = none ∧
      downAtLastTick.world.mailbox.claimed = true ∧ downAtLastTick.Orderly ∧
      downAtLastTick.Within Action.OnlyBridge ∧
      (∃ tl', awaitReport RadioStatus.isAssociated 10 downAtLastTick = .ok false tl') ∧
      ∃ tl', awaitStatus RadioStatus.isAssociated 10 downAtLastTick = .ok false tl' := by
  refine ⟨by decide, rfl, ?_, ?_, Routine.value?_eq_some_iff.mp (by decide +kernel),
    Routine.value?_eq_some_iff.mp (by decide +kernel)⟩
  · constructor
    · exact List.pairwise_singleton _ _
    · simp [downAtLastTick]
  · simp [downAtLastTick, Timeline.Within, Action.OnlyBridge]

end Uplink
