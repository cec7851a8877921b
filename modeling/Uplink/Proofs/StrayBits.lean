import Mathlib.Data.List.Forall2
import Uplink.Bench.Manager
import Uplink.Proofs.MainLoop
import Uplink.Proofs.Tandem

/-!
# Stray bits

Two sessions of a manager that are alike except for stray bits: in the events that producers set, in
the flags of the snapshots that are observed, and in the flags that the interface gets.  The manager
does the same in both.

* `ManagerBench.Step.plain`       a step without stray bits;
* `ManagerBench.changes`          the changes of the interface by others in the course of a step;
* `ManagerBench.perform_plain_eq` steps with one plain form leave one plain form;
* `ManagerBench.hoards_perform`   no step loses a stray event;
* `Manager.covers_cycle_events`   nor does a cycle hear of one;
* `Entry.SameButStray`            two entries differ in stray bits only;
* `ManagerBench.drive_plain_eq_of_current`
                                  two sessions whose observer misses nothing;
* `stray_bits_are_inert`          two sessions with the same callbacks, entry by entry;
* `unseen_rise_is_told_by_a_stray_bit`
                                  two sessions that part at a callback which only one of them has.
-/

namespace Uplink

open Host HostRoutine Routine

/-! ## steps on the host -/

namespace HostStep

def plain : HostStep → HostStep
  | act a => act a.plain
  | schedule ticks a => schedule ticks a.plain
  | s => s

theorem heedless_claimMailbox : Host.Heedless fun _ h => claimMailbox h := by
  refine ⟨fun _ h => ?_, fun _ h => ?_⟩
  · have hsame : h.plain.mailbox.claimed = h.mailbox.claimed := rfl
    unfold claimMailbox Mailbox.claim
    rw [hsame]
    cases h.mailbox.claimed <;> rfl
  · unfold claimMailbox Mailbox.claim
    cases h.mailbox.claimed with
    | true => exact .refl
    | false => exact .single .claim

/-- Whatever is not done at once runs in tandem. -/
theorem tandem {s s' : HostStep} (hs : s.plain = s'.plain) (hact : ∀ a, s ≠ act a) :
    Tandem s.perform s'.perform := by
  have hanswer (b : HostAnswer) : Tandem (pure b) (pure b) := (Heedless.pure b).tandem
  cases s with
  | act a => exact absurd rfl (hact a)
  | schedule ticks a =>
    cases s' with
    | schedule ticks' a' =>
      obtain ⟨rfl, ha⟩ := HostStep.schedule.inj hs
      exact (tandem_schedule ticks ha).bind fun _ => hanswer _
    | _ => cases hs
  | advance ticks =>
    cases s' <;> cases hs
    exact (tandem_advance ticks).bind fun _ => hanswer _
  | claim =>
    cases s' <;> cases hs
    exact (heedless_act heedless_claimMailbox).tandem.bind fun _ => hanswer _

end HostStep

/-! ## steps on a manager -/

namespace ManagerBench

def Step.plain : Step → Step
  | host s => host s.plain
  | s => s

/-- The changes of the interface by others in the course of a step.  What is done as a step of its
own does not go to the trace. -/
def changes (rounds : Nat) (m : Manager) : Step → Reading Action Host Change
  | .host (.act a) => fun tl => (a.change? tl.world.scene).toList
  | s => fun tl => changesTo tl.world (perform rounds m s tl)

variable (rounds : Nat) (m : Manager)

theorem heedless_perform {s : Step} (hs : ∀ t, s ≠ .host t) : Heedless (perform rounds m s) := by
  cases s with
  | host t => exact absurd rfl (hs t)
  | awaitStack => exact Manager.heedless_awaitStack.bind fun _ => .pure _
  | start => exact (m.heedless_start rounds).bind fun _ => .pure _
  | establish => exact (m.heedless_establish rounds).bind fun _ => .pure _
  | cycle => exact m.heedless_cycle.bind fun _ => .pure _
  | renew => exact m.heedless_renew.bind fun _ => .pure _
  | mirrorStatus => exact m.heedless_mirrorStatus.bind fun _ => .pure _
  | reconcileAddress => exact m.heedless_reconcile.bind fun _ => .pure _
  | phase =>
    refine .read (fun h => ?_) fun h => .pure _
    rw [m.phase_plain]
  | moduleIdentity => exact .pure _
  | requestReconnect =>
    refine (heedless_act ⟨fun _ h => ?_, fun _ h => .single .request⟩).bind fun _ => .pure _
    have hplain := h.plain_signalAccepted (.single .reconnectRequested)
    rwa [EventSet.plain_single] at hplain
  | run ticks => exact (Heedless.limit ticks).bind fun _ => (m.heedless_run _).bind nofun

/-- Whatever is not done at once runs in tandem. -/
theorem tandem_perform {s s' : Step} (hs : s.plain = s'.plain)
    (hact : ∀ a, s ≠ .host (.act a)) : Tandem (perform rounds m s) (perform rounds m s') := by
  by_cases hhost : ∃ t, s = .host t
  · obtain ⟨t, rfl⟩ := hhost
    cases s' with
    | host t' =>
      refine (HostStep.tandem (Step.host.inj hs) fun a ha => hact a (congrArg Step.host ha)).bind ?_
      exact fun b => (Heedless.pure (m, Answer.host b)).tandem
    | _ => cases hs
  · have hsame : s = s' := by
      cases s with
      | host t => exact absurd ⟨t, rfl⟩ hhost
      | _ => cases s' <;> first | exact hs | cases hs
    subst hsame
    exact (heedless_perform rounds m fun t ht => hhost ⟨t, ht⟩).tandem

theorem changes_eq {s : Step} (hact : ∀ a, s ≠ .host (.act a)) (tl : Timeline Action Host) :
    changes rounds m s tl = changesTo tl.world (perform rounds m s tl) := by
  unfold changes
  split
  · rename_i a
    exact absurd rfl (hact a)
  · rfl

/-- **A step**, up to the plain form of what it leaves. -/
theorem perform_plain_eq {s s' : Step} (hs : s.plain = s'.plain) {tl tl' : Timeline Action Host}
    (heq : tl.plain = tl'.plain) :
    Matches (changes rounds m s tl) (changes rounds m s' tl')
      (plainResult (perform rounds m s tl) = plainResult (perform rounds m s' tl')) := by
  by_cases hact : ∃ a, s = .host (.act a)
  · obtain ⟨a, rfl⟩ := hact
    obtain ⟨a', rfl, ha⟩ : ∃ a', s' = .host (.act a') ∧ a.plain = a'.plain := by
      cases s' with
      | host t' =>
        cases t' with
        | act a' => exact ⟨a', rfl, HostStep.act.inj (Step.host.inj hs)⟩
        | _ => cases hs
      | _ => cases hs
    obtain ⟨hnow, hhorizon, hagenda, hworld⟩ := timeline_plain_eq_iff.mp heq
    refine (Host.perform_plain_eq ha hworld).imp fun hboth => ?_
    obtain ⟨hanswer, hleft⟩ := hboth
    show EStateM.Result.ok (m, Answer.host (.action (a.perform tl.world).1)) _
      = EStateM.Result.ok (m, Answer.host (.action (a'.perform tl'.world).1)) _
    rw [hanswer]
    exact congrArg (EStateM.Result.ok _)
      (timeline_plain_eq_iff.mpr ⟨hnow, hhorizon, hagenda, hleft⟩)
  · have hact' : ∀ a, s' ≠ .host (.act a) := by
      rintro a' rfl
      cases s with
      | host t =>
        cases t with
        | act a => exact hact ⟨a, rfl⟩
        | _ => cases hs
      | _ => cases hs
    have hsnot : ∀ a, s ≠ .host (.act a) := fun a ha => hact ⟨a, ha⟩
    rw [changes_eq rounds m hsnot, changes_eq rounds m hact']
    exact (tandem_perform rounds m hs hsnot tl tl' heq).same

theorem moves_perform {s : Step} (hact : ∀ a, s ≠ .host (.act a)) (tl : Timeline Action Host) :
    Moves tl.world (left (perform rounds m s tl)).world :=
  (tandem_perform rounds m rfl hact tl tl rfl).moves

/-- **No step loses a stray event.** -/
theorem hoards_perform (s : Step) (tl : Timeline Action Host) :
    Hoards tl.world (left (perform rounds m s tl)).world := by
  by_cases hact : ∃ a, s = .host (.act a)
  · obtain ⟨a, rfl⟩ := hact
    exact hoards_of_since ((since_refl tl.world).perform a)
  · exact (moves_perform rounds m (fun a ha => hact ⟨a, ha⟩) tl).hoards

end ManagerBench

/-- **A cycle hears of no stray event.** -/
theorem Manager.covers_cycle_events {m : Manager} {tl tl' : Timeline Action Host}
    {r : Manager × CycleReport} (hcycle : m.cycle tl = .ok r tl') :
    EventSet.known.Covers r.2.events := by
  rw [m.cycle_eq] at hcycle
  obtain ⟨heard, tl₁, hheard, hanswer⟩ := bind_eq_ok.mp hcycle
  obtain ⟨h, _, _, _, htake⟩ := (m.hear_ends tl).of_ok hheard
  have hevents := (heard.1.answer_events heard.2.1 heard.2.2 tl₁).of_ok hanswer
  have hheld : heard.2.2 = h.mailbox.pending &&& EventSet.known := congrArg Prod.fst htake
  rw [hevents, hheld, EventSet.covers_iff]
  intro i hi
  rw [BitVec.getLsbD_and, Bool.and_eq_true] at hi
  exact hi.2

/-! ## sessions -/

/-- The entry tells of a request to the co-processor or of a call on the interface. -/
def TraceEntry.isMade : TraceEntry → Bool
  | asked _ _ _ => true
  | called _ _ => true
  | _ => false

/-- The requests and calls of a host, each with its instant. -/
def Host.made (h : Host) : List TraceEntry := h.trace.toList.filter TraceEntry.isMade

theorem Host.made_plain (h : Host) : h.plain.made = h.made := by
  have hkind (e : TraceEntry) : e.plain.isMade = e.isMade := by cases e <;> rfl
  have hsame : ∀ e ∈ h.made, e.plain = e := by
    intro e he
    have hmade := (List.mem_filter.mp he).2
    cases e with
    | asked time request timeout => rfl
    | called time call => rfl
    | fired time a result => cases hmade
    | accepted events => cases hmade
  show (h.trace.map TraceEntry.plain).toList.filter TraceEntry.isMade = h.made
  rw [Array.toList_map, List.filter_map, show TraceEntry.isMade ∘ TraceEntry.plain
    = TraceEntry.isMade from funext hkind]
  exact (List.map_congr_left hsame).trans (List.map_id _)

theorem Manager.view_plain (m : Manager) (h : Host) : m.view h.plain = m.view h := by
  unfold view
  rw [m.phase_plain, show h.plain.interface.snapshot = h.interface.snapshot.plain from rfl,
    Snapshot.hasLink_plain]
  rfl

theorem EventSet.has_plain (s : EventSet) (e : Event) : s.plain.Has e ↔ s.Has e := by
  rw [plain, has_and]
  exact and_iff_left ((covers_single known e).mp (covers_known_single e))

section
variable {τ ρ : Type}

/-- The same answer, or halt, at the same time, after the same requests and calls.  Any manager
shows the same, and what is left differs in stray bits only. -/
structure Entry.SameButStray (e e' : Entry Action Host τ ρ) : Prop where
  outcome : e.outcome = e'.outcome
  now : e.after.now = e'.after.now
  made : e.after.world.made = e'.after.world.made
  status : e.after.world.status = e'.after.world.status
  phase : ∀ m : Manager, m.phase e.after.world = m.phase e'.after.world
  view : ∀ m : Manager, m.view e.after.world = m.view e'.after.world
  pending : ∀ ev, e.after.world.mailbox.pending.Has ev ↔ e'.after.world.mailbox.pending.Has ev
  left : e.after.plain = e'.after.plain

theorem Entry.sameButStray_of_plain_eq {e e' : Entry Action Host τ ρ}
    (houtcome : e.outcome = e'.outcome) (hleft : e.after.plain = e'.after.plain) :
    e.SameButStray e' := by
  obtain ⟨hnow, _, _, hworld⟩ := timeline_plain_eq_iff.mp hleft
  have hstatus : e.after.world.plain.status = e'.after.world.plain.status :=
    congrArg Host.status hworld
  have hpending : e.after.world.mailbox.pending.plain = e'.after.world.mailbox.pending.plain :=
    congrArg (fun h => h.mailbox.pending) hworld
  refine
    { outcome := houtcome
      now := hnow
      made := ?_
      status := hstatus
      phase := fun m => ?_
      view := fun m => ?_
      pending := fun ev => ?_
      left := hleft }
  · rw [← made_plain, hworld, made_plain]
  · rw [← m.phase_plain, hworld, m.phase_plain]
  · rw [← m.view_plain, hworld, m.view_plain]
  · rw [← EventSet.has_plain, hpending, EventSet.has_plain]

/-- In a session that begins at a host, no step loses a stray event: what is pending before the step
or accepted in its course stays pending. -/
def KeepsStray : Host → List (Entry Action Host τ ρ) → Prop
  | _, [] => True
  | h, e :: es => Hoards h e.after.world ∧ KeepsStray e.after.world.clear es

end

namespace ManagerBench

variable (rounds : Nat)

/-- Induction on the steps: each begins where the one before has left the two timelines. -/
theorem drive_plain_eq {steps steps' : List Step}
    (hsteps : steps.map Step.plain = steps'.map Step.plain) (m : Manager)
    {tl tl' : Timeline Action Host} (heq : tl.plain = tl'.plain)
    (hcalls : Agree Change.Fits
      (Session.reads (perform rounds) Host.clear (changes rounds) m steps tl)
      (Session.reads (perform rounds) Host.clear (changes rounds) m steps' tl')) :
    List.Forall₂ Entry.SameButStray (Session.drive (perform rounds) Host.clear m tl steps).1
      (Session.drive (perform rounds) Host.clear m tl' steps').1 := by
  induction steps generalizing steps' m tl tl' with
  | nil =>
    obtain rfl : steps' = [] := List.map_eq_nil_iff.mp hsteps.symm
    exact .nil
  | cons s steps ih =>
    obtain _ | ⟨s', steps'⟩ := steps'
    · cases hsteps
    obtain ⟨hs, hsteps⟩ := List.cons.inj hsteps
    obtain ⟨hresult, hlen⟩ := perform_plain_eq rounds m hs heq hcalls.left
    have hlater := hcalls.right hlen
    unfold Reading.after at hlater
    unfold Session.drive
    obtain ⟨r, tl₁, tl₁', hx, hy, heq₁⟩ | ⟨e, tl₁, tl₁', hx, hy, heq₁⟩ :=
      cases_of_plainResult_eq hresult
    · rw [hx, hy] at hlater ⊢
      refine .cons (Entry.sameButStray_of_plain_eq rfl heq₁) (ih hsteps r.1 ?_ hlater)
      obtain ⟨hnow, hhorizon, hagenda, hworld⟩ := timeline_plain_eq_iff.mp heq₁
      refine timeline_plain_eq_iff.mpr ⟨hnow, hhorizon, hagenda, ?_⟩
      rw [plain_clear, hworld, plain_clear]
    · rw [hx, hy]
      exact .cons (Entry.sameButStray_of_plain_eq rfl heq₁) .nil

theorem keepsStray_drive (steps : List Step) (m : Manager) (tl : Timeline Action Host) :
    KeepsStray tl.world (Session.drive (perform rounds) Host.clear m tl steps).1 := by
  induction steps generalizing m tl with
  | nil => trivial
  | cons s steps ih =>
    have hstep := hoards_perform rounds m s tl
    unfold Session.drive
    cases hx : perform rounds m s tl with
    | ok r tl₁ =>
      rw [hx] at hstep
      exact ⟨hstep, ih r.1 { tl₁ with world := tl₁.world.clear }⟩
    | error e tl₁ =>
      rw [hx] at hstep
      exact ⟨hstep, trivial⟩

/-! ### an observer that misses nothing -/

/-- Somebody calls the observer past the stack, as a step of its own. -/
def Step.Bypasses (s : Step) : Prop := ∃ snapshot, s = .host (.act (.observe snapshot))

theorem current_perform (m : Manager) {s : Step} (hs : ¬ s.Bypasses) {tl : Timeline Action Host}
    (hcurrent : tl.world.scene.Current)
    (htrace : ∀ e ∈ (left (perform rounds m s tl)).world.trace.toList, ¬ e.Bypasses) :
    (left (perform rounds m s tl)).world.scene.Current ∧
      ∀ c ∈ changes rounds m s tl, c.before.UpToDate := by
  by_cases hact : ∃ a, s = .host (.act a)
  · obtain ⟨a, rfl⟩ := hact
    have hone : ∀ e ∈ [TraceEntry.fired 0 a .nothing], ¬ e.Bypasses := by
      intro e he hbypass
      obtain rfl := List.mem_singleton.mp he
      obtain ⟨snapshot, hsnapshot⟩ := hbypass
      exact hs ⟨snapshot, by rw [Option.some.inj hsnapshot]⟩
    refine ⟨?_, fun c hc => ?_⟩
    · show (a.perform tl.world).2.scene.Current
      rw [scene_perform]
      exact hcurrent.foldl_after hone
    · exact hcurrent.upToDate_of_mem_changesIn hone c (List.mem_append_left _ hc)
  · have hnot : ∀ a, s ≠ .host (.act a) := fun a ha => hact ⟨a, ha⟩
    have hmoves := moves_perform rounds m hnot tl
    have hsince : ∀ e ∈ entriesSince tl.world (left (perform rounds m s tl)).world,
        ¬ e.Bypasses := fun e he => htrace e (List.mem_of_mem_drop he)
    rw [changes_eq rounds m hnot, hmoves.writes.view_eq retold_scene]
    exact ⟨hcurrent.foldl_after hsince, hcurrent.upToDate_of_mem_changesIn hsince⟩

/-- Induction on the steps: at each change the observer has nothing to catch up on. -/
theorem upToDate_of_mem_reads {steps : List Step} (m : Manager) (tl : Timeline Action Host)
    (hcurrent : tl.world.scene.Current) (hsteps : ∀ s ∈ steps, ¬ s.Bypasses)
    (htraces : ∀ e ∈ (Session.drive (perform rounds) Host.clear m tl steps).1,
      ∀ t ∈ e.after.world.trace.toList, ¬ t.Bypasses) :
    ∀ c ∈ Session.reads (perform rounds) Host.clear (changes rounds) m steps tl,
      c.before.UpToDate := by
  induction steps generalizing m tl with
  | nil => exact fun c hc => absurd hc List.not_mem_nil
  | cons s steps ih =>
    obtain ⟨hs, hsteps⟩ := List.forall_mem_cons.mp hsteps
    unfold Session.drive at htraces
    intro c hc
    cases hx : perform rounds m s tl with
    | ok r tl₁ =>
      rw [hx] at htraces
      obtain ⟨hfirst, hlater⟩ := List.forall_mem_cons.mp htraces
      obtain ⟨hcurrent₁, hup⟩ := current_perform rounds m hs hcurrent (by rw [hx]; exact hfirst)
      rw [hx] at hcurrent₁
      obtain hc | hc := List.mem_append.mp hc
      · exact hup c hc
      · rw [Reading.after, hx] at hc
        exact ih r.1 { tl₁ with world := tl₁.world.clear } hcurrent₁ hsteps hlater c hc
    | error e tl₁ =>
      rw [hx] at htraces
      obtain ⟨hfirst, _⟩ := List.forall_mem_cons.mp htraces
      obtain ⟨_, hup⟩ := current_perform rounds m hs hcurrent (by rw [hx]; exact hfirst)
      obtain hc | hc := List.mem_append.mp hc
      · exact hup c hc
      · rw [Reading.after, hx] at hc
        exact absurd hc List.not_mem_nil

/-- **Whatever the stack calls back**, two sessions that are alike except for stray bits go alike if
the one begins with an observer that misses nothing and nobody bypasses the stack. -/
theorem drive_plain_eq_of_current {steps steps' : List Step}
    (hsteps : steps.map Step.plain = steps'.map Step.plain) (m : Manager)
    {tl tl' : Timeline Action Host} (heq : tl.plain = tl'.plain)
    (hcurrent : tl.world.scene.Current) (hnone : ∀ s ∈ steps, ¬ s.Bypasses)
    (htraces : ∀ e ∈ (Session.drive (perform rounds) Host.clear m tl steps).1,
      ∀ t ∈ e.after.world.trace.toList, ¬ t.Bypasses) :
    List.Forall₂ Entry.SameButStray (Session.drive (perform rounds) Host.clear m tl steps).1
      (Session.drive (perform rounds) Host.clear m tl' steps').1 := by
  refine drive_plain_eq rounds hsteps m heq fun p hp => Or.inr ?_
  exact upToDate_of_mem_reads rounds m tl hcurrent hnone htraces p.1 (List.of_mem_zip hp).1

end ManagerBench

/-- **Stray bits are inert.**  Take two timelines that are the same but for stray bits, on the host
and in what others are yet to do, and on both a session of a manager, with the same steps but for
stray bits: sets of events may hold bits that name no event, and the flags of snapshots and of the
interface may hold bits without a meaning.  Suppose that the stack calls back in the two sessions
alike: one by one, at each change of the interface by others, it calls back in both sessions or in
neither, or the observer has nothing to catch up on.  (The stack compares all bits of the flags, so
it may call back at a change of stray bits alone.  `drive_plain_eq_of_current` tells when that is
never of any importance.)  Then entry by entry the two have the same
answer or come to the same halt at the same time, have made the same requests and calls at the same
instants, leave the same status and the same pending events, and any manager shows the same phase
and the same view.  In neither session a step loses a stray event, and no cycle at all hears of
one. -/
theorem stray_bits_are_inert (rounds : Nat) (m : Manager) {tl tl' : Timeline Action Host}
    (hstart : tl.plain = tl'.plain) {steps steps' : List ManagerBench.Step}
    (hsteps : steps.map ManagerBench.Step.plain = steps'.map ManagerBench.Step.plain)
    (hcalls : Agree Change.Fits
      (Session.reads (ManagerBench.perform rounds) Host.clear (ManagerBench.changes rounds) m steps
        tl)
      (Session.reads (ManagerBench.perform rounds) Host.clear (ManagerBench.changes rounds) m steps'
        tl')) :
    List.Forall₂ Entry.SameButStray
        (Session.drive (ManagerBench.perform rounds) Host.clear m tl steps).1
        (Session.drive (ManagerBench.perform rounds) Host.clear m tl' steps').1 ∧
      KeepsStray tl.world
        (Session.drive (ManagerBench.perform rounds) Host.clear m tl steps).1 ∧
      KeepsStray tl'.world
        (Session.drive (ManagerBench.perform rounds) Host.clear m tl' steps').1 ∧
      ∀ (m : Manager) (tl tl₁ : Timeline Action Host) (r : Manager × CycleReport),
        m.cycle tl = .ok r tl₁ → EventSet.known.Covers r.2.events := by
  refine ⟨?_, ?_, ?_, ?_⟩
  · exact ManagerBench.drive_plain_eq rounds hsteps m hstart hcalls
  · exact ManagerBench.keepsStray_drive rounds steps m tl
  · exact ManagerBench.keepsStray_drive rounds steps' m tl'
  · intro m tl tl₁ r hcycle
    exact Manager.covers_cycle_events hcycle

/-- The host of the bench with a claimed mailbox, and with a set of events yet to come. -/
def strayTimeline (bits : EventSet) : Timeline Action Host where
  now := 0
  agenda := [⟨5, [.signal (.single .statusUpdated ||| bits)]⟩]
  world := { HostSetup.host {} with mailbox := { claimed := true } }

/-- The manager starts.  Then the link comes up, and in the course of a cycle it is seen down. -/
def straySteps (bits : EventSet) (mark : Flags) : List ManagerBench.Step :=
  [.host (.act (.signal (.single .linkStackReady ||| bits))), .start,
    .host (.act (.changeInterface (some (.up ||| .linkUp ||| mark)) none)),
    .host (.schedule 5 (.observe ⟨.up ||| mark, .unspecified⟩)), .cycle]

def straySession (bits : EventSet) (mark : Flags) :
    List (Entry Action Host Manager ManagerBench.Answer) :=
  (Session.drive (ManagerBench.perform 4) Host.clear {} (strayTimeline bits)
    (straySteps bits mark)).1

/-- A session full of stray bits goes like one without any, and has them all at its end. -/
theorem stray_session_is_plain :
    List.Forall₂ Entry.SameButStray (straySession 0xffffff00#32 0xfa#8) (straySession 0#32 0#8) ∧
    KeepsStray (strayTimeline 0xffffff00#32).world (straySession 0xffffff00#32 0xfa#8) ∧
    (straySession 0xffffff00#32 0xfa#8).map (fun e => e.after.world.mailbox.pending.stray)
      = List.replicate 5 0xffffff00#32 ∧
    (straySession 0#32 0#8).map (fun e => e.after.world.mailbox.pending.stray)
      = List.replicate 5 0#32 := by
  have hstart : (strayTimeline 0xffffff00#32).plain = (strayTimeline 0#32).plain := rfl
  have hsteps : (straySteps 0xffffff00#32 0xfa#8).map ManagerBench.Step.plain
      = (straySteps 0#32 0#8).map ManagerBench.Step.plain := rfl
  obtain ⟨hsame, hkept, _, _⟩ :=
    stray_bits_are_inert 4 {} hstart hsteps (by unfold Agree; decide +kernel)
  exact ⟨hsame, hkept, by decide +kernel, by decide +kernel⟩

/-- The interface comes up before it is registered, so that no callback tells of it.  After the start
its flags are set again, with a mark, and the manager goes through a cycle. -/
def unseenRise (mark : Flags) : List ManagerBench.Step :=
  [.host (.act (.changeInterface (some .up) none)), .host (.act .stackReady), .start,
    .host (.act (.changeInterface (some (.up ||| mark)) none)), .cycle]

def unseenRiseSession (mark : Flags) :
    List (Entry Action Host Manager ManagerBench.Answer) :=
  (Session.drive (ManagerBench.perform 4) Host.clear {}
    { now := 0, agenda := [], world := (strayTimeline 0#32).world } (unseenRise mark)).1

/-- **Where only one of two sessions is called back, a stray bit counts.**  The two begin at one
timeline, and their steps are the same but for a stray bit in the flags of the interface.  That bit
makes the stack call back, and the observer, which has not seen the interface come up, tells of it
then: the wait of the cycle ends at once, where that of the other session lasts to its end. -/
theorem unseen_rise_is_told_by_a_stray_bit :
    (unseenRise 0x80#8).map ManagerBench.Step.plain
      = (unseenRise 0#8).map ManagerBench.Step.plain ∧
    (unseenRiseSession 0x80#8).map (fun e => e.after.now) = [0, 0, 0, 0, 5000000] ∧
    (unseenRiseSession 0#8).map (fun e => e.after.now) = [0, 0, 0, 0, 35000000] ∧
    ¬ List.Forall₂ Entry.SameButStray (unseenRiseSession 0x80#8) (unseenRiseSession 0#8) := by
  have htold : (unseenRiseSession 0x80#8).map (fun e => e.after.now) = [0, 0, 0, 0, 5000000] := by
    decide +kernel
  have hquiet : (unseenRiseSession 0#8).map (fun e => e.after.now) = [0, 0, 0, 0, 35000000] := by
    decide +kernel
  refine ⟨rfl, htold, hquiet, fun hsame => ?_⟩
  -- alike entries would have ended at the same instants
  have hnow : List.Forall₂ Eq ((unseenRiseSession 0x80#8).map fun e => e.after.now)
      ((unseenRiseSession 0#8).map fun e => e.after.now) := by
    rw [List.forall₂_map_left_iff, List.forall₂_map_right_iff]
    exact hsame.imp fun _ _ h => h.now
  rw [List.forall₂_eq_eq_eq, htold, hquiet] at hnow
  exact absurd hnow (by decide)

end Uplink
