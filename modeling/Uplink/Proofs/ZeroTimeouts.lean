import Uplink.Proofs.FreshReports
import Uplink.Proofs.StatusWaits

/-!
# Waits without any time

A wait that is given no time looks once at what is there.  That is so for the waits on a mailbox and
for the wait for a status.  The wait for a report is the exception: it asks for its time first, and
without any it does not look at all, so that an attempt to associate that is given no time for the
report does not see the one that is there already.

* `Polled`                                    a wait that has looked and taken what was there;
* `Port.awaitAll_zero`, `Port.awaitAny_zero`  the waits on a mailbox;
* `awaitReport_zero`, `awaitStatus_zero`      the waits for a report and for a status;
* `Connects.associate_of_reported`            an attempt during whose request a report came;
* `zero_timeouts`                             all of them;
* `unseen_report`                             a report that is not seen.
-/

namespace Uplink

open Host HostRoutine

/-! ## the waits on a mailbox -/

section
variable {α σ ρ β : Type} [Reactive α σ]

/-- With nothing due, a wait whose deadline is now looks twice and gives up. -/
theorem Routine.await_expired {w : Wait σ ρ β} {deadline : Option Nat} {r r₁ r₂ : ρ} {s₁ s₂ : σ}
    {tl : Timeline α σ} (hidle : ∀ b ∈ tl.agenda, tl.now < b.time)
    (hring : Clock.ring? deadline = some tl.now) (hreach : mayReach tl.horizon tl.now = true)
    (hfirst : w.look tl.now r tl.world = (.pending r₁, s₁))
    (hsecond : w.look tl.now r₁ s₁ = (.pending r₂, s₂)) :
    await w deadline r tl = .ok (w.expire r₂ s₂).1 { tl with world := (w.expire r₂ s₂).2 } := by
  have hsettle : ({ tl with world := s₁ } : Timeline α σ).settle = { tl with world := s₁ } :=
    Timeline.settle_of_idle hidle
  have hpassed : Clock.passed (some tl.now) tl.now = true := decide_eq_true (Nat.le_refl _)
  unfold await
  rw [hfirst]
  dsimp only
  rw [hsettle]
  dsimp only
  rw [hsecond]
  dsimp only
  rw [hring, hpassed, if_pos rfl]
  unfold ringAt
  dsimp only
  rw [hreach, if_pos rfl]

/-- A wait that has let nothing happen, and has taken what there was of its target. -/
def Polled (p : Port σ) (target : EventSet) (tl : Timeline α σ)
    (result : EStateM.Result Halt (Timeline α σ) EventSet) : Prop :=
  ∃ s, result = .ok ((p.mailbox tl.world).pending &&& target) { tl with world := s } ∧
    p.mailbox s = ((p.mailbox tl.world).take target).2

/-- What was taken is gone. -/
theorem Mailbox.take_take_fst (m : Mailbox) (target : EventSet) :
    ((m.take target).2.take target).1 = EventSet.empty := by
  show (m.pending &&& ~~~target) &&& target = 0#32
  rw [BitVec.and_assoc, BitVec.and_comm (~~~target), BitVec.and_not_self]
  exact BitVec.and_zero

theorem Mailbox.take_take_snd (m : Mailbox) (target : EventSet) :
    ((m.take target).2.take target).2 = (m.take target).2 := by
  have hkept : (m.pending &&& ~~~target) &&& ~~~target = m.pending &&& ~~~target := by
    rw [BitVec.and_assoc, BitVec.and_self]
  exact congrArg (Mailbox.mk · m.claimed) hkept

namespace Port

section
variable (p : Port σ) (target : EventSet) (s : σ)

theorem take_take_fst : (p.take target (p.take target s).2).1 = EventSet.empty := by
  rw [p.take_fst, p.mailbox_take]
  exact (p.mailbox s).take_take_fst target

theorem mailbox_take_take :
    p.mailbox (p.take target (p.take target s).2).2 = ((p.mailbox s).take target).2 := by
  rw [p.mailbox_take, p.mailbox_take, Mailbox.take_take_snd]

/-- A look for all of a target that has seen some of it. -/
theorem look_gather_eq (now : Nat) (seen : EventSet) :
    (p.gather target).look now seen s
      = if (seen ||| (p.take target s).1).Covers target
        then (.done (target &&& (seen ||| (p.take target s).1)), (p.take target s).2)
        else (.pending (seen ||| (p.take target s).1), (p.take target s).2) := rfl

theorem look_deliver_eq (now : Nat) :
    (p.deliver target).look now () s
      = if (p.take target s).1 = EventSet.empty then (.pending (), (p.take target s).2)
        else (.done (p.take target s).1, (p.take target s).2) := rfl

end

variable (p : Port σ) (target : EventSet) {tl : Timeline α σ}
  (hidle : ∀ b ∈ tl.agenda, tl.now < b.time)
  (hreach : Routine.mayReach tl.horizon tl.now = true)
include hidle hreach

/-- Given no time, the wait for all of a target returns what there is of it. -/
theorem awaitAll_zero
    (hring : tl.now < Clock.lastTick ∨ (p.mailbox tl.world).pending.Covers target) :
    Polled p target tl (p.awaitAll target 0 tl) := by
  have hmailbox := p.mailbox_note (.waitStarted target) tl.world
  have hvalue : target &&& ((p.mailbox tl.world).pending &&& target)
      = (p.mailbox tl.world).pending &&& target := by
    rw [BitVec.and_comm target, BitVec.and_assoc, BitVec.and_self]
  have hcovers : ((p.mailbox tl.world).pending &&& target).Covers target
      ↔ (p.mailbox tl.world).pending.Covers target := by
    show _ &&& target &&& target = target ↔ _ &&& target = target
    rw [BitVec.and_assoc, BitVec.and_self]
  rw [p.awaitAll_apply]
  generalize hnoted : p.note (.waitStarted target) tl.world = noted at hmailbox ⊢
  have htaken : EventSet.empty ||| (p.take target noted).1
      = (p.mailbox tl.world).pending &&& target := by
    rw [EventSet.empty, BitVec.zero_or, p.take_fst, hmailbox]
  by_cases hall : (p.mailbox tl.world).pending.Covers target
  · have hlook : (p.gather target).look tl.now EventSet.empty noted = _ :=
      (p.look_gather_eq target noted tl.now EventSet.empty).trans
        (if_pos (htaken ▸ hcovers.mpr hall))
    have hover : Routine.await (p.gather target) (Clock.after? tl.now 0) EventSet.empty
        { tl with world := noted } = _ := Routine.await_of_done _ _ _ _ hlook
    rw [hover, htaken, hvalue]
    exact ⟨_, rfl, (p.mailbox_take target noted).trans (by rw [hmailbox])⟩
  · have hlook : (p.gather target).look tl.now EventSet.empty noted = _ :=
      (p.look_gather_eq target noted tl.now EventSet.empty).trans
        (if_neg (htaken ▸ mt hcovers.mp hall))
    rw [htaken] at hlook
    have hsame : (p.mailbox tl.world).pending &&& target
          ||| (p.take target (p.take target noted).2).1
        = (p.mailbox tl.world).pending &&& target := by
      rw [p.take_take_fst, EventSet.empty, BitVec.or_zero]
    have hagain : (p.gather target).look tl.now ((p.mailbox tl.world).pending &&& target)
        (p.take target noted).2 = _ :=
      (p.look_gather_eq target _ tl.now _).trans
        (if_neg (by rw [hsame]; exact mt hcovers.mp hall))
    rw [hsame] at hagain
    have hover : Routine.await (p.gather target) (Clock.after? tl.now 0) EventSet.empty
        { tl with world := noted } = _ :=
      Routine.await_expired hidle (Clock.ring?_after? (hring.resolve_right hall)) hreach hlook hagain
    rw [hover]
    refine ⟨_, congrArg (EStateM.Result.ok · _) hvalue, ?_⟩
    exact (p.mailbox_note _ _).trans ((p.mailbox_take_take target noted).trans (by rw [hmailbox]))

/-- Given no time, the wait for some of a target returns what there is of it. -/
theorem awaitAny_zero
    (hring : tl.now < Clock.lastTick ∨ (p.mailbox tl.world).pending &&& target ≠ EventSet.empty) :
    Polled p target tl (p.awaitAny target 0 tl) := by
  have htaken := p.take_fst target tl.world
  rw [p.awaitAny_apply]
  by_cases hnone : (p.mailbox tl.world).pending &&& target = EventSet.empty
  · have hlook := (p.look_deliver_eq target tl.world tl.now).trans (if_pos (htaken.trans hnone))
    have hagain := (p.look_deliver_eq target (p.take target tl.world).2 tl.now).trans
      (if_pos (p.take_take_fst target tl.world))
    have hsome : ¬ (p.mailbox tl.world).pending &&& target ≠ EventSet.empty := fun h => h hnone
    rw [Routine.await_expired hidle (Clock.ring?_after? (hring.resolve_right hsome)) hreach hlook
      hagain]
    exact ⟨_, congrArg (EStateM.Result.ok · _) hnone.symm, p.mailbox_take_take target tl.world⟩
  · have hlook := (p.look_deliver_eq target tl.world tl.now).trans
      (if_neg (fun h => hnone (htaken.symm.trans h)))
    rw [Routine.await_of_done _ _ _ _ hlook]
    exact ⟨_, rfl, p.mailbox_take target tl.world⟩

end Port

end

/-! ## the waits for a status -/

namespace HostRoutine

variable {accept : RadioStatus → Bool} {timeout : Nat} {tl : Timeline Action Host}

/-- Given no time, the wait for a report does not look. -/
theorem awaitReport_zero (accept : RadioStatus → Bool) (hnow : tl.now ≤ Clock.lastTick) :
    awaitReport accept 0 tl = .ok false tl := by
  have hpassed : Clock.passed (Clock.after? tl.now 0) tl.now = true :=
    Clock.passed_iff.mpr
      ⟨tl.now, Clock.after?_eq_some_iff.mpr ⟨rfl, hnow⟩, Nat.le_refl _⟩
  show (if Clock.passed (Clock.after? tl.now 0) tl.now then _ else _ : HostRoutine Bool) tl = _
  rw [hpassed, if_pos rfl]
  rfl

theorem awaitStatus_zero (accept : RadioStatus → Bool) (hnow : tl.now ≤ Clock.lastTick) :
    awaitStatus accept 0 tl = .ok (accept tl.world.status) tl := by
  show (if accept tl.world.status then _ else _ : HostRoutine Bool) tl = _
  split
  · rename_i haccept
    rw [haccept]
    rfl
  · rw [Routine.bind_apply, awaitReport_zero accept hnow]
    rfl

/-- Given some time, however little, the wait for a report sees at once the one that is there. -/
theorem awaitReport_of_there (htimeout : 0 < timeout)
    (hthere : tl.world.mailbox.pending.Has .statusUpdated)
    (haccept : accept tl.world.status = true) :
    ∃ s, awaitReport accept timeout tl = .ok true { tl with world := s } ∧
      s.mailbox = tl.world.mailbox := by
  have hlook : (watch accept (Clock.after? tl.now timeout)).look tl.now false
      (tl.world.note (.waitStarted updates))
        = (.done (true, true), (port.take updates (tl.world.note (.waitStarted updates))).2) := by
    rw [look_watch]
    exact (if_pos hthere).trans (if_pos haccept)
  have hwatch : Routine.await (watch accept (Clock.after? tl.now timeout))
      (Clock.after? tl.now timeout) false { tl with world := tl.world.note (.waitStarted updates) }
        = _ := Routine.await_of_done _ _ _ _ hlook
  rw [awaitReport_eq_watched, watched_of_not_passed (not_passed_after htimeout), hwatch]
  refine ⟨_, rfl, ?_⟩
  have htaken : (tl.world.mailbox.take updates).1 = updates :=
    (EventSet.inter_single _ _).trans (if_pos hthere)
  have hback := Mailbox.putBack_take tl.world.mailbox updates
  rw [htaken] at hback
  exact hback

end HostRoutine

/-! ## reports during a request -/

namespace Host

/-- Between two moments of a host, `rs` was reported, and if that is anything the mailbox has
accepted an update. -/
structure Heard (rs : List RadioStatus) (h h' : Host) : Prop where
  claimed_eq : h'.mailbox.claimed = h.mailbox.claimed
  reports_eq : h'.reports = h.reports ++ rs
  told : ∃ entries, h'.trace.toList = h.trace.toList ++ entries ∧
    (rs ≠ [] → (acceptedIn entries).Has .statusUpdated)

variable {h h₁ h' : Host} {rs rs' : List RadioStatus} {A : Action → Prop}

theorem Tells.heard (ht : Tells rs h h') : Heard rs h h' := by
  obtain ⟨entries, htrace, htold⟩ := ht.told
  exact ⟨ht.claimed_eq, ht.reports_eq, entries, htrace, htold.mpr⟩

theorem Heard.trans (ha : Heard rs h h₁) (hb : Heard rs' h₁ h') : Heard (rs ++ rs') h h' := by
  obtain ⟨as, hta, hia⟩ := ha.told
  obtain ⟨bs, htb, hib⟩ := hb.told
  refine ⟨hb.claimed_eq.trans ha.claimed_eq, ?_, as ++ bs, ?_, fun hsome => ?_⟩
  · rw [hb.reports_eq, ha.reports_eq, List.append_assoc]
  · rw [htb, hta, List.append_assoc]
  · rw [acceptedIn_append, EventSet.has_or]
    by_cases hrs : rs = []
    · refine Or.inr (hib fun hrs' => hsome ?_)
      rw [hrs, hrs', List.append_nil]
    · exact Or.inl (hia hrs)

/-- What others do may tell of an update without a report, but not of a report without an update. -/
theorem heard_react (now : Nat) (a : Action) (hc : h.mailbox.claimed = true) :
    Heard a.reported?.toList h (Reactive.react now a h) := by
  by_cases hb : a.OnlyBridge
  · exact (tells_react now a hb hc).heard
  · have hnone : a.reported? = none := by
      cases a with
      | signal events => rfl
      | _ => exact absurd trivial hb
    obtain ⟨sets, ht, _⟩ := a.told_perform h
    refine ⟨?_, ?_, sets.map TraceEntry.accepted ++ [.fired now a (a.perform h).1], ?_,
      fun hsome => ?_⟩
    · exact ht.claimed_eq.trans (congrArg Mailbox.claimed (a.mailbox_alone h))
    · exact ht.reports_eq.trans (a.reports_alone h)
    · show ((a.perform h).2.trace.push _).toList = _
      rw [Array.toList_push, ht.trace_eq, a.trace_alone, List.append_assoc]
    · rw [hnone] at hsome
      exact absurd rfl hsome

theorem Stirs.heard (hs : Stirs A h h') (hc : h.mailbox.claimed = true) : ∃ rs, Heard rs h h' := by
  have hbridge : ∀ {h' : Host}, Stirs Action.OnlyBridge h h' → ∃ rs, Heard rs h h' := by
    intro h' hs
    obtain ⟨rs, ht⟩ := hs.tells hc
    exact ⟨rs, ht.heard⟩
  cases hs with
  | note e he => exact hbridge (.note e he)
  | take target => exact hbridge (.take target)
  | putBack events => exact hbridge (.putBack events)
  | ask coprocessor now request timeout => exact hbridge (.ask coprocessor now request timeout)
  | report status => exact hbridge (.report status)
  | react now a _ => exact ⟨_, heard_react now a hc⟩

theorem Drifts.heard (hd : Drifts A h h') (hc : h.mailbox.claimed = true) :
    ∃ rs, Heard rs h h' := by
  induction hd with
  | refl => exact ⟨[], (tells_refl h).heard⟩
  | tail _ hs ih =>
    obtain ⟨rs, ht⟩ := ih
    obtain ⟨rs', ht'⟩ := hs.heard (ht.claimed_eq.trans hc)
    exact ⟨rs ++ rs', ht.trans ht'⟩

end Host

namespace Association

variable {a : Association} {tl before after : Timeline Action Host}

theorem Reaches.claimed {c : Credentials} (hr : a.Reaches tl c before)
    (hclaimed : tl.world.mailbox.claimed = true) : before.world.mailbox.claimed = true := by
  have hdrifts := hr.driftsTo (A := fun _ => True) fun _ _ _ _ => trivial
  obtain ⟨_, hheard⟩ := hdrifts.world.heard hclaimed
  exact hheard.claimed_eq.trans hclaimed

/-- A status that was reported during the request left an update. -/
theorem Connects.has_update (hc : a.Connects tl before after)
    (hclaimed : tl.world.mailbox.claimed = true)
    (hreports : reportsSince before.world after.world ≠ []) :
    after.world.mailbox.pending.Has .statusUpdated := by
  obtain ⟨c, hreaches, hconnect⟩ := hc
  have hdrifts := (drifting_ask (A := fun _ => True) _ _ _ before fun _ _ _ _ => trivial).of_ok
    hconnect
  obtain ⟨rs, hheard⟩ := hdrifts.world.heard (hreaches.claimed hclaimed)
  obtain ⟨entries, htrace, htold⟩ := hheard.told
  obtain ⟨_, _, entries', hleads, _⟩ := (asks_ask _ _ _ before (since_refl before.world)).of_ok
    hconnect
  have hsame : entries' = entries :=
    List.append_cancel_left (hleads.trace_eq.symm.trans htrace)
  have hrs : rs ≠ [] := by
    unfold reportsSince at hreports
    rw [hheard.reports_eq, List.drop_left] at hreports
    exact hreports
  have hpending := hleads.pending_eq
  rw [EventSet.empty, BitVec.or_zero, hsame] at hpending
  rw [hpending, EventSet.has_or]
  exact Or.inr (htold hrs)

/-- Once connected, an attempt returns as its wait for a report does. -/
theorem Connects.returns {up : Bool} {waited : Timeline Action Host}
    (hc : a.Connects tl before after)
    (hawait : awaitReport RadioStatus.isAssociated a.settings.stationUpTimeout after
      = .ok up waited) :
    ∃ tl', a.attempt tl = .ok (.ok (if up then .stationUp else .pending)) tl' := by
  obtain ⟨c, ⟨selected, hmode, hstore, rfl⟩, hconnect⟩ := hc
  have hends : a.attempt.Ends tl (fun r _ => r = .ok (if up then .stationUp else .pending))
      fun _ => False := by
    unfold Routine.Ends
    rw [attempt_of_selected hmode, hstore]
    refine Routine.ends_bind.mpr (Routine.ends_bind.mpr (Routine.ends_bind.mpr ?_))
    refine (Routine.ends_of_ok hconnect).mpr (Routine.ends_bind.mpr ?_)
    refine (Routine.ends_of_ok hawait).mpr (Routine.ends_bind.mpr ?_)
    cases up <;> rfl
  obtain ⟨_, tl', hreturn, rfl⟩ := hends.exists_ok
  exact ⟨tl', hreturn⟩

/-- An attempt during whose request an associated status was reported hangs on whether it has any
time for the report. -/
theorem Connects.associate_of_reported {a : Association}
    (hc : ({ a with attempts := a.attempts + 1 } : Association).Connects tl before after)
    (hclaimed : tl.world.mailbox.claimed = true)
    (hreports : reportsSince before.world after.world ≠ [])
    (hup : after.world.status.isAssociated = true) (hnow : after.now ≤ Clock.lastTick) :
    ∃ tl', a.associate tl = .ok ({ a with attempts := a.attempts + 1 },
      .ok (if a.settings.stationUpTimeout = 0 then .pending else .stationUp)) tl' := by
  have hattempt : ∃ tl', ({ a with attempts := a.attempts + 1 } : Association).attempt tl
      = .ok (.ok (if a.settings.stationUpTimeout = 0 then .pending else .stationUp)) tl' := by
    by_cases hzero : a.settings.stationUpTimeout = 0
    · have hawait := awaitReport_zero RadioStatus.isAssociated hnow
      rw [← hzero] at hawait
      rw [if_pos hzero]
      exact hc.returns hawait
    · obtain ⟨s, hawait, _⟩ := awaitReport_of_there (Nat.pos_of_ne_zero hzero)
        (hc.has_update hclaimed hreports) hup
      rw [if_neg hzero]
      exact hc.returns hawait
  obtain ⟨tl', hreturn⟩ := hattempt
  refine ⟨tl', ?_⟩
  unfold associate
  rw [Routine.bind_apply, hreturn]
  rfl

end Association

/-- **Waits without any time.**  With nothing due, the waits on a mailbox return what there is of
their target and take it, and the wait for a status returns whether it is accepted: each is a look
at what is there.  (At the last tick, where no deadline rings, the former do so if there is enough.)
The wait for a report fails without a look, whatever is pending and whatever the status; given any
time at all it sees at once the report that is there.  So an attempt during whose request an
associated status was reported is confirmed, whatever its time for the report, unless it has none:
then it is pending. -/
theorem zero_timeouts {α σ : Type} [Reactive α σ] (p : Port σ) (target : EventSet)
    {shared : Timeline α σ} (hidle : ∀ b ∈ shared.agenda, shared.now < b.time)
    (hreach : Routine.mayReach shared.horizon shared.now = true) (accept : RadioStatus → Bool)
    {tl : Timeline Action Host} (hnow : tl.now ≤ Clock.lastTick) :
    (shared.now < Clock.lastTick ∨ (p.mailbox shared.world).pending.Covers target →
      Polled p target shared (p.awaitAll target 0 shared)) ∧
    (shared.now < Clock.lastTick ∨ (p.mailbox shared.world).pending &&& target ≠ EventSet.empty →
      Polled p target shared (p.awaitAny target 0 shared)) ∧
    awaitStatus accept 0 tl = .ok (accept tl.world.status) tl ∧
    awaitReport accept 0 tl = .ok false tl ∧
    (∀ timeout, 0 < timeout → ReportThere accept tl.world →
      ∃ s, awaitReport accept timeout tl = .ok true { tl with world := s } ∧
        s.mailbox = tl.world.mailbox) ∧
    ∀ (a : Association) (before after : Timeline Action Host),
      ({ a with attempts := a.attempts + 1 } : Association).Connects tl before after →
      tl.world.mailbox.claimed = true → reportsSince before.world after.world ≠ [] →
      after.world.status.isAssociated = true → after.now ≤ Clock.lastTick →
      ∃ tl', a.associate tl = .ok ({ a with attempts := a.attempts + 1 },
        .ok (if a.settings.stationUpTimeout = 0 then .pending else .stationUp)) tl' := by
  refine ⟨?_, ?_, ?_, ?_, ?_, ?_⟩
  · exact p.awaitAll_zero target hidle hreach
  · exact p.awaitAny_zero target hidle hreach
  · exact awaitStatus_zero accept hnow
  · exact awaitReport_zero accept hnow
  · intro timeout htimeout hthere
    exact awaitReport_of_there htimeout hthere.1 hthere.2
  · intro a before after hc hclaimed hreports hup hafter
    exact hc.associate_of_reported hclaimed hreports hup hafter

/-- A co-processor that reports that the station is up before it answers the request to connect. -/
def promptSetup : HostSetup where
  feeds := { connections := some [{ early := [2], outcome := .ok () }] }

def prompt : Timeline Action Host where
  now := 0
  world := { promptSetup.host with mailbox := { claimed := true } }

/-- An association that has no time for the report. -/
def hurried : Association := { settings := { stationUpTimeout := 0 } }

theorem hurried_connects :
    ∃ before after, ({ hurried with attempts := hurried.attempts + 1 } : Association).Connects
      prompt before after ∧ reportsSince before.world after.world ≠ [] ∧
        after.world.status.isAssociated = true ∧ after.now ≤ Clock.lastTick :=
  ⟨_, _, ⟨_, ⟨_, rfl, rfl, rfl⟩, rfl⟩, by decide, by decide, by decide⟩

theorem hurried_is_pending :
    (∀ b ∈ prompt.agenda, prompt.now < b.time) ∧
      Routine.mayReach prompt.horizon prompt.now = true ∧ prompt.now ≤ Clock.lastTick ∧
      ∃ tl', hurried.associate prompt
        = .ok ({ hurried with attempts := hurried.attempts + 1 }, .ok .pending) tl' := by
  have hidle : ∀ b ∈ prompt.agenda, prompt.now < b.time := fun b hb => nomatch hb
  have hclock : prompt.now ≤ Clock.lastTick := by decide
  obtain ⟨before, after, hc, hreports, hup, hnow⟩ := hurried_connects
  obtain ⟨_, _, _, _, _, hassociate⟩ :=
    zero_timeouts port updates hidle rfl RadioStatus.isAssociated hclock
  exact ⟨hidle, rfl, hclock, hassociate hurried before after hc rfl hreports hup hnow⟩

/-- The station is up, and the update about it is pending. -/
def upAlready : Timeline Action Host where
  now := 0
  world := { ({} : HostSetup).host with
    status := .stationUp
    mailbox := { claimed := true, pending := updates } }

/-- A report that is there is not seen without time for it, and so an association that connects and
is told so is pending. -/
theorem unseen_report :
    (upAlready.agenda = [] ∧ ReportThere RadioStatus.isAssociated upAlready.world ∧
      awaitReport RadioStatus.isAssociated 0 upAlready = .ok false upAlready) ∧
    ∃ before after tl', ({ hurried with attempts := hurried.attempts + 1 } : Association).Connects
        prompt before after ∧ reportsSince before.world after.world ≠ [] ∧
      after.world.status.isAssociated = true ∧ ∃ a, hurried.associate prompt
        = .ok (a, .ok .pending) tl' := by
  obtain ⟨before, after, hc, hreports, hup, _⟩ := hurried_connects
  exact ⟨⟨rfl, ⟨by decide, rfl⟩, rfl⟩, before, after, _, hc, hreports, hup, _, rfl⟩

end Uplink
