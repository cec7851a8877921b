import Uplink.Bench.Host
import Uplink.Proofs.Reports

/-!
# Fresh reports

An attempt takes the update out of the mailbox before it asks to connect, and so an update that it
finds afterwards was reported since.  Nothing else confirms it.

* `Association.Connects`           an attempt gets as far as the connection;
* `Association.Refused`            an attempt fails before that, or with it;
* `Association.Confirmed`          a report made after the request confirms the attempt;
* `only_fresh_reports_confirm`     every attempt, whatever was reported before it.
-/

namespace Uplink

open Host HostRoutine

/-! ## attempts -/

namespace Association

variable {a : Association} {tl tl' before after : Timeline Action Host}

/-- The attempt has selected the mode of a station and read the credentials `c`.  At `before` it is
about to ask to connect, with the updates that were pending set aside. -/
def Reaches (a : Association) (tl : Timeline Action Host) (c : Credentials)
    (before : Timeline Action Host) : Prop :=
  ∃ selected, selectMode .station a.settings.modeTimeout tl = .ok (.ok ()) selected ∧
    Credentials.ofStore selected.world.store = .ok c ∧
    before = { selected with
      world := (port.take updates (selected.world.note (.connecting c.ssid a.attempts))).2 }

/-- Mode, credentials and connection all succeeded.  The request to connect was made at `before`
and its response came at `after`. -/
def Connects (a : Association) (tl before after : Timeline Action Host) : Prop :=
  ∃ c, a.Reaches tl c before ∧
    requestConnect c a.settings.connectTimeout before = .ok (.ok ()) after

/-- The mode could not be selected, or the credentials were not there, or the request to connect
failed. -/
inductive Refused (a : Association) (tl : Timeline Action Host) : AttemptFault → Prop
  | mode {e : TransportFault} {selected : Timeline Action Host} :
    selectMode .station a.settings.modeTimeout tl = .ok (.error e) selected →
      Refused a tl (.transport e)
  | credentials {e : AttemptFault} {selected : Timeline Action Host} :
    selectMode .station a.settings.modeTimeout tl = .ok (.ok ()) selected →
      Credentials.ofStore selected.world.store = .error e → Refused a tl e
  | connection {c : Credentials} {e : TransportFault} {before after : Timeline Action Host} :
    a.Reaches tl c before →
      requestConnect c a.settings.connectTimeout before = .ok (.error e) after →
        Refused a tl (.transport e)

/-- A report made after the request: one that came before its response, if the status is then that
of an associated station, or one that a delivery brings in time. -/
def Confirmed (timeout : Nat) (before after : Timeline Action Host) : Prop :=
  (reportsSince before.world after.world ≠ [] ∧ after.world.status.isAssociated = true) ∨
    Brought RadioStatus.isAssociated timeout after

/-! ### the ways of an attempt -/

/-- Once the mode is selected, an attempt hangs on the credentials. -/
theorem attempt_of_selected {selected : Timeline Action Host}
    (hmode : selectMode .station a.settings.modeTimeout tl = .ok (.ok ()) selected) :
    a.attempt tl = (match Credentials.ofStore selected.world.store with
      | .error e => do
        note (.credentialsUnavailable e)
        return .error e
      | .ok c => do
        note (.connecting c.ssid a.attempts)
        a.request c : HostRoutine (Except AttemptFault AttemptOutcome)) selected := by
  unfold attempt
  rw [Routine.bind_apply, hmode]
  rfl

section
variable {r : Except AttemptFault AttemptOutcome} (hreturn : a.attempt tl = .ok r tl')
include hreturn

/-- Once the credentials are read, an attempt hangs on the connection; and once it is connected, on
a wait for a report. -/
theorem Reaches.answered {c : Credentials} (hr : a.Reaches tl c before) :
    ∃ answer after, requestConnect c a.settings.connectTimeout before = .ok answer after ∧
      (∀ e, answer = .error e → r = .error (.transport e)) ∧
      (answer = .ok () → ∃ up waited,
        awaitReport RadioStatus.isAssociated a.settings.stationUpTimeout after = .ok up waited ∧
          r = .ok (if up then .stationUp else .pending)) := by
  obtain ⟨selected, hmode, hstore, rfl⟩ := hr
  rw [attempt_of_selected hmode, hstore] at hreturn
  obtain ⟨_, noted, hnoted, hreturn⟩ := Routine.bind_eq_ok.mp hreturn
  cases hnoted
  obtain ⟨stale, taken, htaken, hreturn⟩ := Routine.bind_eq_ok.mp hreturn
  cases htaken
  obtain ⟨answer, after, hconnect, hreturn⟩ := Routine.bind_eq_ok.mp hreturn
  refine ⟨answer, after, hconnect, ?_, ?_⟩
  · intro e herror
    rw [herror] at hreturn
    cases hreturn
    rfl
  · intro hok
    rw [hok] at hreturn
    obtain ⟨up, waited, hawait, hreturn⟩ := Routine.bind_eq_ok.mp hreturn
    refine ⟨up, waited, hawait, ?_⟩
    cases up <;> (cases hreturn; rfl)

theorem connects_or_refused :
    (∃ before after, a.Connects tl before after) ∨ ∃ e, a.Refused tl e := by
  obtain ⟨answer, selected, hmode, _⟩ := Routine.bind_eq_ok.mp hreturn
  cases answer with
  | error e => exact Or.inr ⟨_, .mode hmode⟩
  | ok _ =>
    cases hstore : Credentials.ofStore selected.world.store with
    | error e => exact Or.inr ⟨_, .credentials hmode hstore⟩
    | ok c =>
      have hreaches : a.Reaches tl c _ := ⟨selected, hmode, hstore, rfl⟩
      obtain ⟨connected, after, hconnect, _⟩ := hreaches.answered hreturn
      cases connected with
      | error e => exact Or.inr ⟨_, .connection hreaches hconnect⟩
      | ok _ => exact Or.inl ⟨_, after, c, hreaches, hconnect⟩

theorem Refused.returned {e : AttemptFault} (hr : a.Refused tl e) : r = .error e := by
  cases hr with
  | mode hmode =>
    unfold attempt at hreturn
    rw [Routine.bind_apply, hmode] at hreturn
    cases hreturn
    rfl
  | credentials hmode hstore =>
    rw [attempt_of_selected hmode, hstore] at hreturn
    cases hreturn
    rfl
  | connection hreaches hconnect =>
    obtain ⟨answer, after, hanswer, hrefused, _⟩ := hreaches.answered hreturn
    cases hconnect.symm.trans hanswer
    exact hrefused _ rfl

/-- Once connected, an attempt waits for a report, and that decides. -/
theorem Connects.returned (hc : a.Connects tl before after) :
    ∃ up waited,
      awaitReport RadioStatus.isAssociated a.settings.stationUpTimeout after = .ok up waited ∧
        r = .ok (if up then .stationUp else .pending) := by
  obtain ⟨c, hreaches, hconnect⟩ := hc
  obtain ⟨answer, after', hanswer, _, hwaits⟩ := hreaches.answered hreturn
  cases hconnect.symm.trans hanswer
  exact hwaits rfl

end

/-! ### confirmation -/

theorem Reaches.driftsTo {c : Credentials} (hr : a.Reaches tl c before) {A : Action → Prop}
    (hin : tl.Within A) : tl.DriftsTo A before := by
  obtain ⟨selected, hmode, _, rfl⟩ := hr
  have hselected := (drifting_ask _ _ _ tl hin).of_ok hmode
  exact hselected.trans (.of_world ((Drifts.note .refl rfl).take updates) rfl)

/-- At the request no update is left, and so an update at the response tells of a report. -/
theorem Connects.confirmed_iff (hc : a.Connects tl before after) {timeout : Nat} {up : Bool}
    {waited : Timeline Action Host}
    (hawait : awaitReport RadioStatus.isAssociated timeout after = .ok up waited)
    (htimeout : 0 < timeout) (hclaimed : tl.world.mailbox.claimed = true) (hord : tl.Orderly)
    (hbridge : tl.Within Action.OnlyBridge) : up = true ↔ Confirmed timeout before after := by
  obtain ⟨c, hreaches, hconnect⟩ := hc
  have hbefore := hreaches.driftsTo hbridge
  have hafter := (drifting_ask _ _ _ before (hbefore.within hbridge)).of_ok hconnect
  obtain ⟨_, htells⟩ := hbefore.world.tells hclaimed
  have hclaimed' := htells.claimed_eq.trans hclaimed
  obtain ⟨rs, htells'⟩ := hafter.world.tells hclaimed'
  obtain ⟨_, _, hsince⟩ := (asks_ask _ _ _ before (since_refl before.world)).of_ok hconnect
  have hgone : ¬ before.world.mailbox.pending.Has .statusUpdated := by
    obtain ⟨selected, _, _, rfl⟩ := hreaches
    exact not_has_take_updates _
  have hupdate : after.world.mailbox.pending.Has .statusUpdated ↔
      reportsSince before.world after.world ≠ [] := by
    rw [htells'.update_iff hsince, htells'.reportsSince_eq]
    exact ⟨fun h => h.resolve_left hgone, Or.inr⟩
  have horderly := hord.of_suffix (hbefore.trans hafter).agenda
  have hiff := awaitReport_iff hawait htimeout (htells'.claimed_eq.trans hclaimed') horderly
    (hafter.within (hbefore.within hbridge))
  rw [hupdate] at hiff
  exact hiff

section
variable {r : Except AttemptFault AttemptOutcome} (hreturn : a.attempt tl = .ok r tl')
include hreturn

theorem Connects.outcome (hc : a.Connects tl before after)
    (htimeout : 0 < a.settings.stationUpTimeout) (hclaimed : tl.world.mailbox.claimed = true)
    (hord : tl.Orderly) (hbridge : tl.Within Action.OnlyBridge) :
    (r = .ok .stationUp ↔ Confirmed a.settings.stationUpTimeout before after) ∧
      (r = .ok .pending ↔ ¬ Confirmed a.settings.stationUpTimeout before after) := by
  obtain ⟨up, waited, hawait, rfl⟩ := hc.returned hreturn
  rw [← hc.confirmed_iff hawait htimeout hclaimed hord hbridge]
  cases up <;> decide

theorem connects_of_ok {o : AttemptOutcome} (hok : r = .ok o) :
    ∃ before after, a.Connects tl before after := by
  rcases connects_or_refused hreturn with hc | ⟨e, he⟩
  · exact hc
  · cases hok.symm.trans (he.returned hreturn)

theorem refused_iff (e : AttemptFault) : r = .error e ↔ a.Refused tl e := by
  constructor
  · intro herror
    rcases connects_or_refused hreturn with ⟨before, after, hc⟩ | ⟨e', he⟩
    · obtain ⟨up, _, _, hok⟩ := hc.returned hreturn
      cases herror.symm.trans hok
    · cases herror.symm.trans (he.returned hreturn)
      exact he
  · intro he
    exact he.returned hreturn

end

end Association

/-- **Only a fresh report confirms an association.**  Whenever an attempt returns, it has failed
exactly if the mode could not be selected, the credentials were not there or the request to connect
was refused.  Otherwise it is confirmed exactly if a status was reported after the request was made:
before its response, and the status was then that of an associated station, or in a delivery no
later than the time allowed after the response, whose last report was such a status.  Without such
a report it is pending.  Statuses and updates from before the request do not count. -/
theorem only_fresh_reports_confirm (a : Association) {tl tl' : Timeline Action Host}
    {r : Association × Except AttemptFault AttemptOutcome}
    (htimeout : 0 < a.settings.stationUpTimeout) (hclaimed : tl.world.mailbox.claimed = true)
    (hord : tl.Orderly) (hbridge : tl.Within Action.OnlyBridge)
    (hreturn : a.associate tl = .ok r tl') :
    r.1 = { a with attempts := a.attempts + 1 } ∧
    (r.2 = .ok .stationUp ↔ ∃ before after, r.1.Connects tl before after ∧
      Association.Confirmed a.settings.stationUpTimeout before after) ∧
    (r.2 = .ok .pending ↔ ∃ before after, r.1.Connects tl before after ∧
      ¬ Association.Confirmed a.settings.stationUpTimeout before after) ∧
    (∀ e, r.2 = .error e ↔ r.1.Refused tl e) := by
  obtain ⟨outcome, tl₁, hattempt, hpure⟩ := Routine.bind_eq_ok.mp hreturn
  cases hpure
  have houtcome : ∀ {before after : Timeline Action Host},
      Association.Connects { a with attempts := a.attempts + 1 } tl before after →
        (outcome = .ok .stationUp ↔
          Association.Confirmed a.settings.stationUpTimeout before after) ∧
        (outcome = .ok .pending ↔
          ¬ Association.Confirmed a.settings.stationUpTimeout before after) := by
    intro before after hc
    have hboth := hc.outcome hattempt htimeout hclaimed hord hbridge
    exact hboth
  refine ⟨rfl, ⟨fun hup => ?_, fun hend => ?_⟩, ⟨fun hpending => ?_, fun hend => ?_⟩,
    Association.refused_iff hattempt⟩
  · obtain ⟨before, after, hc⟩ := Association.connects_of_ok hattempt hup
    exact ⟨before, after, hc, (houtcome hc).1.mp hup⟩
  · obtain ⟨before, after, hc, hconfirmed⟩ := hend
    exact (houtcome hc).1.mpr hconfirmed
  · obtain ⟨before, after, hc⟩ := Association.connects_of_ok hattempt hpending
    exact ⟨before, after, hc, (houtcome hc).2.mp hpending⟩
  · obtain ⟨before, after, hc, hnot⟩ := hend
    exact (houtcome hc).2.mpr hnot

/-- A co-processor that takes two seconds to connect and first reports that the station is down. -/
def lateSetup : HostSetup where
  feeds := { connections := some [{ early := [1], delay := 2 * second, outcome := .ok () }] }

/-- The station was up before, and the update about it is still pending; four seconds after the
connection is made, two statuses are reported at one instant. -/
def upBefore : Timeline Action Host where
  now := 0
  agenda := [⟨6 * second, [.report .apDown, .report .stationGotIp]⟩]
  world := { lateSetup.host with
    status := .stationUp
    mailbox := { claimed := true, pending := updates } }

theorem late_report_confirms :
    0 < ({} : Association).settings.stationUpTimeout ∧ upBefore.world.mailbox.claimed = true ∧
      upBefore.Orderly ∧ upBefore.Within Action.OnlyBridge ∧
      ∃ r tl', ({} : Association).associate upBefore = .ok r tl' ∧ r.2 = .ok .stationUp ∧
        tl'.now = 6 * second ∧
        ∃ before after, r.1.Connects upBefore before after ∧
          Association.Confirmed (5 * second) before after := by
  have htimeout : 0 < ({} : Association).settings.stationUpTimeout := by decide
  have hord : upBefore.Orderly := by
    constructor
    · exact List.pairwise_singleton _ _
    · intro b hb
      rw [List.mem_singleton.mp hb]
      decide
  have hbridge : upBefore.Within Action.OnlyBridge := by
    intro b hb a ha
    rw [List.mem_singleton.mp hb] at ha
    rcases List.mem_cons.mp ha with rfl | ha
    · trivial
    · rw [List.mem_singleton.mp ha]
      trivial
  have hreturn : ({} : Association).associate upBefore = .ok _ _ := rfl
  have hup := (only_fresh_reports_confirm {} htimeout rfl hord hbridge hreturn).2.1.mp rfl
  exact ⟨htimeout, rfl, hord, hbridge, _, _, hreturn, rfl, rfl, hup⟩

end Uplink
