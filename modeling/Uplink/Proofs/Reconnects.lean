import Uplink.Proofs.MainLoop

/-!
# Reconnect requests are served

A run of the manager is a list of stretches: what others do and startup, and the cycles of the main
loop.  A request for a reconnect may be accepted at any moment of it.

* `Run`                    the runs, with the trace of each stretch;
* `sinceHeard`             what was written since the main wait last returned: a request is pending
                           exactly if it was accepted there;
* `Serves`                 what a cycle owes the requests accepted before its main wait returned;
* `reconnects_are_served`  every run keeps this: no request is lost, no disconnect is spurious.
-/

namespace Uplink

open Host HostRoutine

/-! ## counting -/

def Requested (entries : List TraceEntry) : Prop :=
  ∃ events, .accepted events ∈ entries ∧ events.Has .reconnectRequested

def TraceEntry.isReconnect (e : TraceEntry) : Bool := decide (e.accepts.Has .reconnectRequested)

def reconnects (entries : List TraceEntry) : Nat := entries.countP TraceEntry.isReconnect

def disconnects (entries : List TraceEntry) : Nat := (requestsIn entries).count .disconnect

def Reconnected (entries : List TraceEntry) : Prop :=
  List.Sublist [.disconnect, .selectMode .station] (requestsIn entries)

theorem requested_iff (entries : List TraceEntry) :
    Requested entries ↔ (acceptedIn entries).Has .reconnectRequested :=
  (has_acceptedIn entries .reconnectRequested).symm

theorem requested_append (as bs : List TraceEntry) :
    Requested (as ++ bs) ↔ Requested as ∨ Requested bs := by
  rw [requested_iff, requested_iff, requested_iff, acceptedIn_append, EventSet.has_or]

theorem reconnects_append (as bs : List TraceEntry) :
    reconnects (as ++ bs) = reconnects as + reconnects bs := List.countP_append

theorem reconnects_pos {entries : List TraceEntry} (h : Requested entries) :
    0 < reconnects entries := by
  obtain ⟨events, hmem, hhas⟩ := h
  exact List.countP_pos_iff.mpr ⟨.accepted events, hmem, decide_eq_true hhas⟩

theorem disconnects_append (as bs : List TraceEntry) :
    disconnects (as ++ bs) = disconnects as + disconnects bs := by
  unfold disconnects
  rw [requestsIn_append, List.count_append]

theorem disconnects_of_tame {entries : List TraceEntry} (h : Tame (requestsIn entries)) :
    disconnects entries = 0 := List.count_eq_zero.mpr h

theorem disconnects_of_begins {entries : List TraceEntry}
    (h : BeginsToRenew (requestsIn entries)) : disconnects entries = 1 := by
  obtain ⟨more, hr, hm⟩ := h
  have hzero : more.count Request.disconnect = 0 := List.count_eq_zero.mpr hm
  unfold disconnects
  rw [hr, List.count_cons_self, hzero]

/-- The disconnects of an answer, finished or not. -/
theorem disconnects_of_answers {entries : List TraceEntry} {events : EventSet}
    (h : Manager.Answers BeginsToRenew events (requestsIn entries)) :
    disconnects entries = if events.Has .reconnectRequested then 1 else 0 := by
  unfold Manager.Answers at h
  split at h
  · rw [if_pos (by assumption)]
    exact disconnects_of_begins h
  · rw [if_neg (by assumption)]
    exact disconnects_of_tame (by rw [h]; exact tame_nil)

theorem Reconnected.append_right {as : List TraceEntry} (h : Reconnected as)
    (bs : List TraceEntry) : Reconnected (as ++ bs) := by
  unfold Reconnected
  rw [requestsIn_append]
  exact h.trans (List.sublist_append_left _ _)

theorem Reconnected.append_left {bs : List TraceEntry} (h : Reconnected bs)
    (as : List TraceEntry) : Reconnected (as ++ bs) := by
  unfold Reconnected
  rw [requestsIn_append]
  exact h.trans (List.sublist_append_right _ _)

theorem reconnected_of_renews {entries : List TraceEntry} (h : Renews (requestsIn entries)) :
    Reconnected entries := by
  obtain ⟨_, hr, more, rfl, _⟩ := h
  unfold Reconnected
  rw [hr]
  exact ((List.nil_sublist more).cons_cons _).cons_cons _

theorem reconnected_of_answers {entries : List TraceEntry} {events : EventSet}
    (h : Manager.Answers Renews events (requestsIn entries))
    (hhas : events.Has .reconnectRequested) : Reconnected entries := by
  unfold Manager.Answers at h
  rw [if_pos hhas] at h
  exact reconnected_of_renews h

/-! ## runs -/

/-- One part of a run, with what it wrote to the trace. -/
inductive Stretch where
  | aside (entries : List TraceEntry)
  /-- A cycle, with the entries before its main wait returned and those after it. -/
  | lap (before after : List TraceEntry) (report : CycleReport)

def Stretch.entries : Stretch → List TraceEntry
  | aside entries => entries
  | lap before after _ => before ++ after

def entriesOf (ss : List Stretch) : List TraceEntry := ss.flatMap Stretch.entries

/-- What was written since the main wait last returned, after `entries` and one more stretch. -/
def Stretch.carry (entries : List TraceEntry) : Stretch → List TraceEntry
  | aside further => entries ++ further
  | lap _ after _ => after

/-- What was written since the main wait last returned. -/
def sinceHeard (ss : List Stretch) : List TraceEntry := ss.foldl Stretch.carry []

def written (tl tl' : Timeline Action Host) : List TraceEntry :=
  tl'.world.trace.toList.drop tl.world.trace.size

/-- The runs of a manager from `tl₀` on.  Others may act at any moment between the operations of
the manager, and while it waits what was scheduled happens. -/
inductive Run (tl₀ : Timeline Action Host) : List Stretch → Manager → Timeline Action Host → Prop
  | begin (m : Manager) : Run tl₀ [] m tl₀
  | others {ss : List Stretch} {m : Manager} {tl tl' : Timeline Action Host} {answer : HostAnswer}
      (s : HostStep) : Run tl₀ ss m tl → s.perform tl = .ok answer tl' →
      Run tl₀ (ss ++ [.aside (written tl tl')]) m tl'
  | start {ss : List Stretch} {m : Manager} {tl tl' : Timeline Action Host}
      {r : Manager × Except StartFault Unit} (rounds : Nat) : Run tl₀ ss m tl →
      m.start rounds tl = .ok r tl' → Run tl₀ (ss ++ [.aside (written tl tl')]) r.1 tl'
  | cycle {ss : List Stretch} {m : Manager} {tl tl₁ tl' : Timeline Action Host}
      {heard : Manager × Option (Except AttemptFault AttemptOutcome) × EventSet}
      {r : Manager × CycleReport} : Run tl₀ ss m tl → m.hear tl = .ok heard tl₁ →
      m.cycle tl = .ok r tl' →
      Run tl₀ (ss ++ [.lap (written tl tl₁) (written tl₁ tl') r.2]) r.1 tl'

theorem entriesOf_concat (ss : List Stretch) (s : Stretch) :
    entriesOf (ss ++ [s]) = entriesOf ss ++ s.entries := by
  unfold entriesOf
  rw [List.flatMap_append, List.flatMap_singleton]

theorem sinceHeard_concat (ss : List Stretch) (s : Stretch) :
    sinceHeard (ss ++ [s]) = s.carry (sinceHeard ss) := by
  unfold sinceHeard
  rw [List.foldl_append]
  rfl

theorem written_eq {tl tl' : Timeline Action Host} {entries : List TraceEntry}
    (h : tl'.world.trace.toList = tl.world.trace.toList ++ entries) : written tl tl' = entries := by
  unfold written
  rw [h, ← Array.length_toList, List.drop_left]

/-! ## what a run keeps -/

/-- What a cycle does for the requests, after the stretches `ss`. -/
structure Serves (ss : List Stretch) (before after : List TraceEntry) (report : CycleReport) :
    Prop where
  /-- Its wait delivers a request exactly if one was accepted since the wait before. -/
  heard : report.events.Has .reconnectRequested ↔ Requested (sinceHeard ss ++ before)
  /-- After each request accepted before its wait returned, there is a disconnect and then the mode
  of a station. -/
  served : ∀ earlier events later,
    entriesOf ss ++ before = earlier ++ .accepted events :: later →
    events.Has .reconnectRequested →
    Reconnected (later ++ after)
  disconnects_before : disconnects before = 0
  /-- It asks for one disconnect if its wait delivered a request, and for none otherwise. -/
  disconnects_after :
    disconnects after = if report.events.Has .reconnectRequested then 1 else 0

def Stretch.Sound (ss : List Stretch) : Stretch → Prop
  | aside entries => disconnects entries = 0
  | lap before after report => Serves ss before after report

/-- What every run keeps.  A request that was accepted is served or still pending, and those that
are pending are not among those that the disconnects are owed to. -/
structure Kept (tl₀ : Timeline Action Host) (ss : List Stretch) (tl : Timeline Action Host) :
    Prop where
  trace_eq : tl.world.trace.toList = tl₀.world.trace.toList ++ entriesOf ss
  claimed : tl.world.mailbox.claimed = true
  pending_iff : tl.world.mailbox.pending.Has .reconnectRequested ↔ Requested (sinceHeard ss)
  served_or_pending : ∀ earlier events later,
    entriesOf ss = earlier ++ .accepted events :: later → events.Has .reconnectRequested →
    Reconnected later ∨ Requested (sinceHeard ss)
  counted : disconnects (entriesOf ss) + reconnects (sinceHeard ss) ≤ reconnects (entriesOf ss)
  sound : ∀ before s after, ss = before ++ s :: after → s.Sound before

theorem split_append {α : Type} {as bs us vs : List α} {x : α} (h : as ++ bs = us ++ x :: vs) :
    (∃ ws, as = us ++ x :: ws ∧ vs = ws ++ bs) ∨ x ∈ bs := by
  rcases List.append_eq_append_iff.mp h with ⟨ws, hus, hbs⟩ | ⟨ws, has, hvs⟩
  · right
    rw [hbs]
    exact List.mem_append_right _ List.mem_cons_self
  · cases ws with
    | nil =>
      right
      rw [List.nil_append] at hvs
      rw [← hvs]
      exact List.mem_cons_self
    | cons y ws =>
      rw [List.cons_append] at hvs
      obtain ⟨rfl, hrest⟩ := List.cons.inj hvs
      exact Or.inl ⟨ws, has, hrest⟩

section
variable {tl₀ tl tl' : Timeline Action Host} {ss : List Stretch}

theorem kept_begin (hclaimed : tl₀.world.mailbox.claimed = true)
    (hnone : ¬ tl₀.world.mailbox.pending.Has .reconnectRequested) : Kept tl₀ [] tl₀ where
  trace_eq := (List.append_nil _).symm
  claimed := hclaimed
  pending_iff := by
    constructor
    · exact fun h => absurd h hnone
    · intro hend
      obtain ⟨_, hmem, _⟩ := hend
      cases hmem
  served_or_pending := by
    intro earlier events later h
    exact absurd h (by simp [entriesOf])
  counted := Nat.le_refl 0
  sound := by
    intro before s after h
    exact absurd h (by simp)

theorem Kept.sound_concat (h : Kept tl₀ ss tl) {s : Stretch} (hs : s.Sound ss) :
    ∀ before t after, ss ++ [s] = before ++ t :: after → t.Sound before := by
  intro before t after heq
  rcases List.eq_nil_or_concat after with rfl | ⟨after', x, rfl⟩
  · obtain ⟨rfl, hlast⟩ := List.append_inj' heq rfl
    obtain ⟨rfl, _⟩ := List.cons.inj hlast
    exact hs
  · rw [List.concat_eq_append, ← List.cons_append, ← List.append_assoc] at heq
    obtain ⟨hss, _⟩ := List.append_inj' heq rfl
    exact h.sound before t after' hss

theorem pending_iff_of_leads {h h' : Host} {entries : List TraceEntry} {owed : EventSet}
    (hl : Leads entries owed h h') (howed : ¬ owed.Has .reconnectRequested) :
    h'.mailbox.pending.Has .reconnectRequested ↔
      h.mailbox.pending.Has .reconnectRequested ∨ Requested entries := by
  rw [requested_iff, ← EventSet.has_or, ← hl.pending_eq, EventSet.has_or, or_iff_left howed]

theorem Kept.aside (hk : Kept tl₀ ss tl) {entries : List TraceEntry} {owed : EventSet}
    (hl : Leads entries owed tl.world tl'.world) (howed : ¬ owed.Has .reconnectRequested)
    (htame : Tame (requestsIn entries)) : Kept tl₀ (ss ++ [.aside entries]) tl' where
  trace_eq := by
    rw [hl.trace_eq, hk.trace_eq, entriesOf_concat, List.append_assoc]
    rfl
  claimed := by rw [hl.claimed_eq, hk.claimed]
  pending_iff := by
    rw [pending_iff_of_leads hl howed, hk.pending_iff, ← requested_append, sinceHeard_concat]
    rfl
  served_or_pending := by
    intro earlier events later heq hhas
    rw [sinceHeard_concat]
    show _ ∨ Requested (sinceHeard ss ++ entries)
    rw [entriesOf_concat] at heq
    rw [requested_append]
    rcases split_append heq with ⟨further, hss, rfl⟩ | hmem
    · rcases hk.served_or_pending earlier events further hss hhas with hserved | hpending
      · exact Or.inl (hserved.append_right _)
      · exact Or.inr (Or.inl hpending)
    · exact Or.inr (Or.inr ⟨events, hmem, hhas⟩)
  counted := by
    have hd := disconnects_of_tame htame
    have hc := hk.counted
    rw [entriesOf_concat, sinceHeard_concat, disconnects_append, reconnects_append]
    show _ + disconnects entries + reconnects (sinceHeard ss ++ entries)
      ≤ _ + reconnects entries
    rw [reconnects_append]
    omega
  sound := hk.sound_concat (disconnects_of_tame htame)

section
variable {h : Host} {events : EventSet} {before after : List TraceEntry} {tl₁ : Timeline Action Host}

/-- The main wait delivers every request accepted since it last returned, and keeps none back. -/
theorem Kept.heard_iff (hk : Kept tl₀ ss tl) (hbefore : Leads before EventSet.empty tl.world h)
    (htake : (events, tl₁.world) = port.take EventSet.known h) :
    (events.Has .reconnectRequested ↔ Requested (sinceHeard ss ++ before)) ∧
      ¬ tl₁.world.mailbox.pending.Has .reconnectRequested := by
  have hknown : EventSet.known.Has .reconnectRequested := by decide
  have hevents : events = h.mailbox.pending &&& EventSet.known := congrArg Prod.fst htake
  have hleft : tl₁.world.mailbox.pending = h.mailbox.pending &&& ~~~EventSet.known :=
    congrArg (fun r => r.2.mailbox.pending) htake
  constructor
  · rw [hevents, EventSet.has_and, and_iff_left hknown,
      pending_iff_of_leads hbefore (EventSet.not_has_empty _), hk.pending_iff, requested_append]
  · rw [hleft, EventSet.has_diff]
    exact fun h => h.2 hknown

theorem Kept.room (hk : Kept tl₀ ss tl)
    (hheard : events.Has .reconnectRequested ↔ Requested (sinceHeard ss ++ before)) :
    disconnects (entriesOf ss) + (if events.Has .reconnectRequested then 1 else 0)
      ≤ reconnects (entriesOf ss ++ before) := by
  have hc := hk.counted
  rw [reconnects_append]
  split
  · have hpos := reconnects_pos (hheard.mp (by assumption))
    rw [reconnects_append] at hpos
    omega
  · omega

theorem Kept.serves (hk : Kept tl₀ ss tl) {report : CycleReport}
    (hbefore : Leads before EventSet.empty tl.world h) (htame : Tame (requestsIn before))
    (htake : (report.events, tl₁.world) = port.take EventSet.known h)
    (hanswer : Manager.Answers Renews report.events (requestsIn after)) :
    Serves ss before after report where
  heard := (hk.heard_iff hbefore htake).1
  served := by
    intro earlier events later heq hhas
    have hheard := (hk.heard_iff hbefore htake).1
    have hreconnected : Requested (sinceHeard ss) ∨ Requested before → Reconnected after := by
      intro hrequested
      rw [← requested_append, ← hheard] at hrequested
      exact reconnected_of_answers hanswer hrequested
    rcases split_append heq with ⟨further, hss, rfl⟩ | hmem
    · rcases hk.served_or_pending earlier events further hss hhas with hserved | hpending
      · exact (hserved.append_right before).append_right after
      · exact (hreconnected (Or.inl hpending)).append_left _
    · exact (hreconnected (Or.inr ⟨events, hmem, hhas⟩)).append_left _
  disconnects_before := disconnects_of_tame htame
  disconnects_after := disconnects_of_answers (hanswer.imp fun _ h => h.begins)

theorem Kept.lap (hk : Kept tl₀ ss tl) {report : CycleReport}
    (hbefore : Leads before EventSet.empty tl.world h)
    (htake : (report.events, tl₁.world) = port.take EventSet.known h)
    (hafter : Leads after EventSet.empty tl₁.world tl'.world)
    (hserves : Serves ss before after report) : Kept tl₀ (ss ++ [.lap before after report]) tl' where
  trace_eq := by
    have htook : tl₁.world.trace.toList = h.trace.toList :=
      congrArg (fun r => r.2.trace.toList) htake
    rw [hafter.trace_eq, htook, hbefore.trace_eq, hk.trace_eq, entriesOf_concat]
    show _ = _ ++ (entriesOf ss ++ (before ++ after))
    simp only [List.append_assoc]
  claimed := by
    have htook : tl₁.world.mailbox.claimed = h.mailbox.claimed :=
      congrArg (fun r => r.2.mailbox.claimed) htake
    rw [hafter.claimed_eq, htook, hbefore.claimed_eq, hk.claimed]
  pending_iff := by
    rw [pending_iff_of_leads hafter (EventSet.not_has_empty _), sinceHeard_concat]
    exact or_iff_right (hk.heard_iff hbefore htake).2
  served_or_pending := by
    intro earlier events later heq hhas
    rw [sinceHeard_concat]
    show _ ∨ Requested after
    rw [entriesOf_concat, Stretch.entries, ← List.append_assoc] at heq
    rcases split_append heq with ⟨further, hss, rfl⟩ | hmem
    · exact Or.inl (hserves.served earlier events further hss hhas)
    · exact Or.inr ⟨events, hmem, hhas⟩
  counted := by
    -- the requests of `before` and those carried over pay for the one disconnect in `after`
    have hroom := hk.room hserves.heard
    have hquiet := hserves.disconnects_before
    have hanswer := hserves.disconnects_after
    rw [reconnects_append] at hroom
    rw [entriesOf_concat, sinceHeard_concat]
    show disconnects (entriesOf ss ++ (before ++ after)) + reconnects after
      ≤ reconnects (entriesOf ss ++ (before ++ after))
    rw [disconnects_append, disconnects_append, reconnects_append, reconnects_append]
    omega
  sound := hk.sound_concat hserves

end

end

/-! ## every run -/

/-- What an operation of the manager wrote that came to a halt on `tl'`, after the stretches `ss`:
still no more disconnects than requests, and one of its own only after its main wait delivered a
request. -/
structure Interrupted (ss : List Stretch) (m : Manager) (tl tl' : Timeline Action Host) : Prop where
  trace_eq : tl'.world.trace.toList = tl.world.trace.toList ++ written tl tl'
  disconnects_le :
    disconnects (entriesOf ss ++ written tl tl') ≤ reconnects (entriesOf ss ++ written tl tl')
  heard : disconnects (written tl tl') ≠ 0 →
    ∃ heard tl₁, m.hear tl = .ok heard tl₁ ∧ heard.2.2.Has .reconnectRequested

section
variable {tl₀ tl tl' : Timeline Action Host} {ss : List Stretch} {m : Manager}

theorem Kept.interrupted_tame (hk : Kept tl₀ ss tl) {rs : List Request}
    (hgrown : Grown tl.world rs tl'.world) (htame : Tame rs) : Interrupted ss m tl tl' := by
  obtain ⟨entries, htrace, rfl⟩ := hgrown
  have hnone := disconnects_of_tame htame
  have hc := hk.counted
  refine ⟨?_, ?_, ?_⟩ <;> rw [written_eq htrace]
  · exact htrace
  · rw [disconnects_append, reconnects_append]
    omega
  · exact fun h => absurd hnone h

/-- A cycle that comes to a halt does so before its main wait returns or after. -/
theorem Kept.interrupted_cycle (hk : Kept tl₀ ss tl) {e : Halt}
    (hcycle : m.cycle tl = .error e tl') : Interrupted ss m tl tl' := by
  rcases Manager.cycle_eq_error hcycle with hhear | ⟨heard, tl₁, hhear, hanswer⟩
  · obtain ⟨rs, htame, hgrown⟩ := (m.hear_ends tl).of_error hhear
    exact hk.interrupted_tame hgrown htame
  · obtain ⟨h, _, htame, ⟨before, hbefore, rfl⟩, htake⟩ := (m.hear_ends tl).of_ok hhear
    obtain ⟨more, hmore, after, hafter, hreq⟩ :=
      (heard.1.answer_asks _ _ tl₁ (since_refl tl₁.world)).of_error hanswer
    rw [List.nil_append] at hreq
    rw [← hreq] at hmore
    have hroom := hk.room (hk.heard_iff hbefore htake).1
    have hbeforeNone := disconnects_of_tame htame
    have hafterCount := disconnects_of_answers hmore
    have htrace : tl'.world.trace.toList = tl.world.trace.toList ++ (before ++ after) := by
      have htook : tl₁.world.trace.toList = h.trace.toList :=
        congrArg (fun r => r.2.trace.toList) htake
      rw [hafter, htook, hbefore.trace_eq, List.append_assoc]
    refine ⟨?_, ?_, ?_⟩ <;> rw [written_eq htrace]
    · exact htrace
    · rw [← List.append_assoc, disconnects_append, disconnects_append, reconnects_append]
      omega
    · intro hsome
      rw [disconnects_append, hbeforeNone, hafterCount, Nat.zero_add] at hsome
      refine ⟨heard, tl₁, hhear, Decidable.byContradiction fun hnone => ?_⟩
      exact hsome (if_neg hnone)

end

theorem Run.kept {tl₀ tl : Timeline Action Host} {ss : List Stretch} {m : Manager}
    (hrun : Run tl₀ ss m tl) (hclaimed : tl₀.world.mailbox.claimed = true)
    (hnone : ¬ tl₀.world.mailbox.pending.Has .reconnectRequested) : Kept tl₀ ss tl := by
  induction hrun with
  | begin m => exact kept_begin hclaimed hnone
  | @others ss m tl tl' answer s hrun hs ih =>
    obtain ⟨entries, hlead, hnothing⟩ :=
      (s.perform_ends ih.claimed (since_refl tl.world)).of_ok hs
    rw [written_eq hlead.trace_eq]
    refine ih.aside hlead (EventSet.not_has_empty _) ?_
    rw [hnothing]
    exact tame_nil
  | @start ss m tl tl' r rounds hrun hs ih =>
    obtain ⟨owed, rs, howed, htame, entries, hlead, rfl⟩ := (m.start_ends rounds tl).of_ok hs
    rw [written_eq hlead.trace_eq]
    exact ih.aside hlead howed htame
  | @cycle ss m tl tl₁ tl' heard r hrun hhear hcycle ih =>
    -- the cycle is cut where the run tells what was heard
    rw [Manager.cycle_eq] at hcycle
    obtain ⟨heard', tl₁', hhear', hanswer⟩ := Routine.bind_eq_ok.mp hcycle
    rw [hhear] at hhear'
    cases hhear'
    obtain ⟨h, rs, htame, ⟨before, hbefore, rfl⟩, htake⟩ := (m.hear_ends tl).of_ok hhear
    obtain ⟨more, hmore, after, hafter, hreq⟩ :=
      (heard.1.answer_asks _ _ tl₁ (since_refl tl₁.world)).of_ok hanswer
    have hevents := (heard.1.answer_events _ _ tl₁).of_ok hanswer
    have htrace : tl₁.world.trace.toList = h.trace.toList :=
      congrArg (fun r => r.2.trace.toList) htake
    rw [written_eq (htrace.trans hbefore.trace_eq), written_eq hafter.trace_eq]
    rw [List.nil_append] at hreq
    rw [← hevents] at htake hmore
    rw [← hreq] at hmore
    exact ih.lap hbefore htake hafter (ih.serves hbefore htame htake hmore)

/-- **No request for a reconnect is lost, and no disconnect is spurious.**  In a run from a claimed
mailbox without a request, a request is pending exactly if it was accepted since the main wait last
returned.  Every cycle serves all requests accepted before its main wait returned, with one
disconnect and an attempt after it, and asks for no disconnect if there were none; startup and
others ask for none at all.  So there are no more disconnects than accepted requests, also when the
manager comes to a halt in the middle of an operation. -/
theorem reconnects_are_served {tl₀ tl : Timeline Action Host} {ss : List Stretch} {m : Manager}
    (hrun : Run tl₀ ss m tl) (hclaimed : tl₀.world.mailbox.claimed = true)
    (hnone : ¬ tl₀.world.mailbox.pending.Has .reconnectRequested) :
    tl.world.trace.toList = tl₀.world.trace.toList ++ entriesOf ss ∧
    (tl.world.mailbox.pending.Has .reconnectRequested ↔ Requested (sinceHeard ss)) ∧
    (∀ before s after, ss = before ++ s :: after → s.Sound before) ∧
    disconnects (entriesOf ss) ≤ reconnects (entriesOf ss) ∧
    (∀ e tl', m.cycle tl = .error e tl' ∨ (∃ rounds, m.start rounds tl = .error e tl') →
      Interrupted ss m tl tl') := by
  have hk := hrun.kept hclaimed hnone
  refine ⟨hk.trace_eq, hk.pending_iff, hk.sound, ?_, ?_⟩
  · have hc := hk.counted
    omega
  · intro e tl' h
    obtain hcycle | ⟨rounds, hstart⟩ := h
    · exact hk.interrupted_cycle hcycle
    · obtain ⟨rs, htame, hgrown⟩ := (m.start_ends rounds tl).of_error hstart
      exact hk.interrupted_tame hgrown htame

/-- A request before the first cycle brings one disconnect. -/
theorem one_reconnect_is_served :
    ∃ ss m tl, Run slowToDisconnect ss m tl ∧ disconnects (entriesOf ss) = 1 ∧
      (∀ before s after, ss = before ++ s :: after → s.Sound before) ∧
      disconnects (entriesOf ss) ≤ reconnects (entriesOf ss) := by
  have hrun : Run slowToDisconnect _ _ _ :=
    ((Run.begin {}).others (.act .requestReconnect) rfl).cycle rfl rfl
  obtain ⟨_, _, hsound, hle, _⟩ := reconnects_are_served hrun rfl (by decide)
  exact ⟨_, _, _, hrun, rfl, hsound, hle⟩

end Uplink
