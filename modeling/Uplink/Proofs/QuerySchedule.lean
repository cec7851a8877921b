import Uplink.Proofs.Chronicle
import Uplink.Proofs.RetryTimers
import Uplink.Proofs.Unattended

/-!
# The schedule of the queries

A manager asks its module who it is, in attempts of one or two requests, until one is answered or
its retry plan ends.  When each attempt begins can be told from when the one before it failed, and
how many there are from the plan.

* `Timeline.Asks`           the requests made between two moments, each with its instant;
* `Manager.Inquiry`         the requests of one attempt, and what comes of them;
* `Manager.Begins`          the attempts, and on which timeline each begins;
* `Manager.Scheduled`       what the manager does at an attempt, and what follows;
* `Manager.KeepsFailing`    no attempt is answered, and no delay comes to the end of the clock;
* `query_schedule`          every attempt goes by the schedule, and the plan says how many there are.

A timer that would ring at the very last tick does not ring, so the delays have to end before that.
-/

namespace Uplink

open Host HostRoutine

/-! ## requests and their instants -/

def TraceEntry.asked? : TraceEntry → Option (Nat × Request)
  | asked time request _ => some (time, request)
  | _ => none

/-- The requests of which the entries tell, each with its instant. -/
def askedIn (entries : List TraceEntry) : List (Nat × Request) :=
  entries.filterMap TraceEntry.asked?

theorem askedIn_append (as bs : List TraceEntry) : askedIn (as ++ bs) = askedIn as ++ askedIn bs :=
  List.filterMap_append

theorem askedIn_of_idle {entries : List TraceEntry} (h : worksIn entries = []) :
    askedIn entries = [] := by
  refine List.filterMap_eq_nil_iff.mpr fun e he => ?_
  have hnone := List.filterMap_eq_nil_iff.mp h e he
  cases e with
  | asked time request timeout => cases hnone
  | _ => rfl

namespace Timeline

variable {tl tl₁ tl' : Timeline Action Host} {qs qs' : List (Nat × Request)}

/-- From `tl` to `tl'` the requests `qs` were made. -/
structure Asks (qs : List (Nat × Request)) (tl tl' : Timeline Action Host) : Prop where
  leads : tl.Leads tl'
  asked_eq : askedIn (written tl tl') = qs

theorem Asks.trans (ha : Asks qs tl tl₁) (hb : Asks qs' tl₁ tl') : Asks (qs ++ qs') tl tl' := by
  have htrace : tl'.world.trace.toList
      = tl.world.trace.toList ++ (written tl tl₁ ++ written tl₁ tl') := by
    rw [hb.leads.trace_eq, ha.leads.trace_eq, List.append_assoc]
  refine ⟨ha.leads.trans hb.leads, ?_⟩
  rw [written_eq htrace, askedIn_append, ha.asked_eq, hb.asked_eq]

theorem asks_of_idle (hd : Does [] tl.world tl'.world) : Asks [] tl tl' :=
  ⟨⟨_, hd⟩, askedIn_of_idle hd.works_eq⟩

theorem asks_refl (tl : Timeline Action Host) : Asks [] tl tl := asks_of_idle (does_refl tl.world)

theorem Asks.quietly (ha : Asks qs tl tl₁) (hd : Does [] tl₁.world tl'.world) : Asks qs tl tl' := by
  have hboth := ha.trans (asks_of_idle hd)
  rwa [List.append_nil] at hboth

end Timeline

/-- **A request is made at once**, and what comes after it makes none. -/
theorem HostRoutine.ask_asks {α : Type} {request : Request}
    {draw : Coprocessor → Response α × Coprocessor} (hdraw : Serves request draw) (timeout : Nat)
    (tl : Timeline Action Host) : (ask request draw timeout).Ends tl
      (fun _ tl' => tl.Asks [(tl.now, request)] tl') fun tl' => tl.Asks [(tl.now, request)] tl' := by
  let drawn : Timeline Action Host := { tl with
    world := { tl.world with coprocessor := (draw tl.world.coprocessor).2 }.record
      (.asked tl.now request timeout) }
  have hdrawn : tl.Asks [(tl.now, request)] drawn := by
    have hdoes := does_asked tl.world tl.now request timeout
    rw [← hdraw tl.world.coprocessor] at hdoes
    have htrace : drawn.world.trace.toList
        = tl.world.trace.toList ++ [.asked tl.now request timeout] := Array.toList_push
    refine ⟨⟨_, hdoes⟩, ?_⟩
    rw [written_eq htrace]
    rfl
  refine Routine.ends_bind.mpr (Routine.ends_act ?_)
  refine (works_answer (draw tl.world.coprocessor).1 timeout drawn).imp ?_ ?_
  · rintro _ tl' ⟨_, hd, _, rfl⟩
    exact hdrawn.quietly hd
  · rintro tl' ⟨_, hd, rfl⟩
    exact hdrawn.quietly hd

namespace Manager

/-! ## one attempt -/

/-- The attempt begun at `before` came to `answer` at `after`.  It asks for the firmware at once,
and exactly if it was told that, for the address. -/
inductive Inquiry (timeout : Nat) (before : Timeline Action Host) :
    Except TransportFault ModuleIdentity → Timeline Action Host → Prop
  | unanswered {e : TransportFault} {after : Timeline Action Host} :
    requestFirmware timeout before = .ok (.error e) after →
    before.Asks [(before.now, .firmwareVersion)] after → Inquiry timeout before (.error e) after
  | answered {firmware : String} {between asked after : Timeline Action Host}
    {address : Except TransportFault HardwareAddress} :
    requestFirmware timeout before = .ok (.ok firmware) between →
    requestAddress timeout { between with world := between.world.note (.firmwareVersion firmware) }
      = .ok address asked →
    after.now = asked.now →
    before.Asks [(before.now, .firmwareVersion), (between.now, .hardwareAddress)] after →
    Inquiry timeout before (address.map (ModuleIdentity.mk firmware)) after

variable {timeout : Nat} {before after failed tl : Timeline Action Host}
  {answer : Except TransportFault ModuleIdentity}

theorem inquiry_of_ok (h : identifyOnce timeout before = .ok answer after) :
    Inquiry timeout before answer after := by
  obtain ⟨r, between, hfirmware, hrest⟩ := Routine.bind_eq_ok.mp h
  have hasks := (ask_asks (fun _ => rfl) timeout before).of_ok hfirmware
  cases r with
  | error e =>
    cases hrest
    exact .unanswered hfirmware hasks
  | ok firmware =>
    obtain ⟨_, _, hnote, hrest⟩ := Routine.bind_eq_ok.mp hrest
    cases hnote
    obtain ⟨address, asked, haddress, hrest⟩ := Routine.bind_eq_ok.mp hrest
    have hnoted : before.Asks [(before.now, .firmwareVersion)]
        { between with world := between.world.note (.firmwareVersion firmware) } :=
      hasks.quietly ((does_refl between.world).note _)
    have hboth := hnoted.trans ((ask_asks (fun _ => rfl) timeout _).of_ok haddress)
    cases address with
    | error e =>
      cases hrest
      exact .answered hfirmware haddress rfl hboth
    | ok mac =>
      cases hrest
      exact .answered hfirmware haddress rfl (hboth.quietly ((does_refl _).note _))

/-- How often the firmware was asked for: each attempt does so once. -/
def attemptsOf (qs : List (Nat × Request)) : Nat := qs.countP fun q => q.2 = .firmwareVersion

theorem attemptsOf_append (as bs : List (Nat × Request)) :
    attemptsOf (as ++ bs) = attemptsOf as + attemptsOf bs := List.countP_append

theorem Inquiry.asks (h : Inquiry timeout before answer after) :
    ∃ qs, before.Asks qs after ∧ attemptsOf qs = 1 := by
  cases h with
  | unanswered _ hasks => exact ⟨_, hasks, rfl⟩
  | answered _ _ _ hasks => exact ⟨_, hasks, rfl⟩

theorem identifyOnce_ordered (hord : before.agenda.Ordered)
    (h : identifyOnce timeout before = .ok answer after) : after.agenda.Ordered := by
  have hdrifts := ((modest_identifyOnce timeout).drifting (A := fun _ => True) before
    fun _ _ _ _ => trivial).of_ok h
  exact List.Pairwise.sublist hdrifts.agenda.sublist hord

/-! ## the attempts in a row -/

/-- The number that the manager has for the `k`-th attempt, in a word of 32 bits that saturates. -/
def attemptNumber (k : Nat) : Nat := min k 0xFFFFFFFF

theorem nextAttempt_attemptNumber (k : Nat) :
    nextAttempt (attemptNumber k) = attemptNumber (k + 1) := by
  unfold nextAttempt attemptNumber
  omega

/-- The timeline after a failure, with the failure logged. -/
def retrying (e : TransportFault) (delay : Nat) (failed : Timeline Action Host) :
    Timeline Action Host :=
  { failed with world := failed.world.note (.queryFailed e delay) }

/-- The timeline after the last failure. -/
def givingUp (e : TransportFault) (attempt : Nat) (failed : Timeline Action Host) :
    Timeline Action Host :=
  { failed with world := failed.world.note (.queryGivenUp attempt e) }

section
variable (settings : Settings)

/-- The timer after a failure rings: before the last tick, and within the horizon. -/
def Rings (failed : Timeline Action Host) (delay : Nat) : Prop :=
  failed.now + delay < Clock.lastTick ∧
    Routine.mayReach failed.horizon (failed.now + delay) = true

theorem Rings.sleep {delay : Nat} (hrings : Rings failed delay) (hord : failed.agenda.Ordered)
    {e : TransportFault} : Routine.sleep delay (retrying e delay failed)
      = .ok () ((retrying e delay failed).unattended (failed.now + delay)) := by
  have hretrying : (retrying e delay failed).agenda.Ordered := hord
  exact Routine.sleep_exact hretrying hrings.1 hrings.2

/-- The `k`-th attempt begins at `before`, the first one at `tl`.  After a failure the next attempt
begins when the delay of the plan is over; until then others act as they will. -/
inductive Begins (tl : Timeline Action Host) : Nat → Timeline Action Host → Prop
  | first : Begins tl 1 tl
  | next {k delay : Nat} {e : TransportFault} {before failed : Timeline Action Host} :
    Begins tl k before → identifyOnce settings.queryTimeout before = .ok (.error e) failed →
    settings.queryPlan.delayAfter (attemptNumber k) = some delay → Rings failed delay →
    Begins tl (k + 1) ((retrying e delay failed).unattended (failed.now + delay))

variable {settings}

/-! ### one round -/

section
variable {e : TransportFault} {module : ModuleIdentity} {n delay : Nat}

theorem identifyModule_of_ok
    (h : identifyOnce settings.queryTimeout before = .ok (.ok module) after) (rounds : Nat) :
    identifyModule settings (rounds + 1) n before = .ok (.ok module) after := by
  rw [identifyModule, Routine.bind_apply, h]
  rfl

variable (h : identifyOnce settings.queryTimeout before = .ok (.error e) failed) (rounds : Nat)
include h

theorem identifyModule_of_none (hplan : settings.queryPlan.delayAfter n = none) :
    identifyModule settings (rounds + 1) n before = .ok (.error e) (givingUp e n failed) := by
  rw [identifyModule, Routine.bind_apply, h]
  dsimp only
  rw [hplan]
  rfl

theorem identifyModule_of_some (hplan : settings.queryPlan.delayAfter n = some delay) :
    identifyModule settings (rounds + 1) n before
      = (Routine.sleep delay >>= fun _ => identifyModule settings rounds (nextAttempt n))
          (retrying e delay failed) := by
  rw [identifyModule, Routine.bind_apply, h]
  dsimp only
  rw [hplan]
  rfl

/-- **The next attempt** begins exactly the delay after the failure. -/
theorem identifyModule_of_rings (hord : failed.agenda.Ordered)
    (hplan : settings.queryPlan.delayAfter n = some delay) (hrings : Rings failed delay) :
    identifyModule settings (rounds + 1) n before
      = identifyModule settings rounds (nextAttempt n)
          ((retrying e delay failed).unattended (failed.now + delay)) := by
  rw [identifyModule_of_some h rounds hplan, Routine.bind_apply, hrings.sleep hord]

/-- **A delay that ends at the last tick** never does, and no request is made any more. -/
theorem identifyModule_of_lastTick (hplan : settings.queryPlan.delayAfter n = some delay)
    (hend : failed.now + delay = Clock.lastTick) :
    ∃ halt tl', (∀ rounds, identifyModule settings (rounds + 1) n before = .error halt tl') ∧
      (halt = .blocked ∨ (halt = .limit ∧ failed.horizon ≠ none)) ∧
      ∀ qs, before.Asks qs failed → before.Asks qs tl' := by
  have hretrying : (retrying e delay failed).now + delay = Clock.lastTick := hend
  obtain ⟨halt, tl', hsleep, hwhy⟩ := Routine.sleep_lastTick hretrying
  have hslept := ((idles_sleep delay).does (retrying e delay failed)).of_error hsleep
  refine ⟨halt, tl', fun rounds => ?_, hwhy, fun qs hasks => ?_⟩
  · rw [identifyModule_of_some h rounds hplan, Routine.bind_apply, hsleep]
  · exact hasks.quietly (((does_refl _).note _).quietly hslept)

end

/-! ### all of them -/

section
variable {k : Nat}

theorem Begins.pos (hb : Begins settings tl k before) : 0 < k := by
  cases hb with
  | first => exact Nat.one_pos
  | next => exact Nat.succ_pos _

theorem Begins.ordered (hb : Begins settings tl k before) (hord : tl.agenda.Ordered) :
    before.agenda.Ordered := by
  induction hb with
  | first => exact hord
  | @next k delay e before failed _ hfails _ _ ih =>
    have hfailed := identifyOnce_ordered ih hfails
    show (Timeline.passTo _ (retrying e delay failed).settle.agenda _).1.Ordered
    rw [Timeline.fst_passTo]
    exact Agenda.later_ordered _ (Agenda.later_ordered _ hfailed)

/-- **The program comes to every attempt that begins**: induction on the attempts. -/
theorem Begins.reached (hb : Begins settings tl k before) (hord : tl.agenda.Ordered)
    (rounds : Nat) : identifyModule settings (k + rounds) 1 tl
      = identifyModule settings (rounds + 1) (attemptNumber k) before := by
  induction hb generalizing rounds with
  | first => rw [Nat.add_comm 1 rounds]; rfl
  | @next k delay e before failed hb hfails hplan hrings ih =>
    have hfailed := identifyOnce_ordered (hb.ordered hord) hfails
    have hround := identifyModule_of_rings hfails (rounds + 1) hfailed hplan hrings
    rw [nextAttempt_attemptNumber] at hround
    rw [← hround, ← ih (rounds + 1)]
    congr 1
    omega

/-- The attempts before one, as the trace tells. -/
theorem Begins.asks (hb : Begins settings tl k before) (hord : tl.agenda.Ordered) :
    ∃ qs, tl.Asks qs before ∧ attemptsOf qs + 1 = k := by
  induction hb with
  | first => exact ⟨[], Timeline.asks_refl tl, rfl⟩
  | @next k delay e before failed hb hfails hplan hrings ih =>
    obtain ⟨qs, hqs, hcount⟩ := ih
    obtain ⟨qs', hqs', hcount'⟩ := (inquiry_of_ok hfails).asks
    have hfailed := identifyOnce_ordered (hb.ordered hord) hfails
    have hslept := ((idles_sleep delay).does (retrying e delay failed)).of_ok
      (hrings.sleep hfailed)
    refine ⟨qs ++ qs', (hqs.trans hqs').quietly (((does_refl _).note _).quietly hslept), ?_⟩
    rw [attemptsOf_append]
    omega

/-- An attempt has one beginning. -/
theorem Begins.unique (hb : Begins settings tl k before) {before' : Timeline Action Host}
    (hb' : Begins settings tl k before') : before' = before := by
  induction hb generalizing before' with
  | first =>
    cases hb' with
    | first => rfl
    | next hb' _ _ _ => exact absurd hb'.pos (Nat.lt_irrefl 0)
  | next hb hfails hplan _ ih =>
    cases hb' with
    | first => exact absurd hb.pos (Nat.lt_irrefl 0)
    | next hb' hfails' hplan' _ =>
      cases ih hb'
      cases hfails.symm.trans hfails'
      cases hplan.symm.trans hplan'
      rfl

/-- An attempt that begins is the first one, or the plan allowed it. -/
theorem Begins.allowed (hb : Begins settings tl k before) :
    k = 1 ∨ settings.queryPlan.delayAfter (attemptNumber (k - 1)) ≠ none := by
  cases hb with
  | first => exact Or.inl rfl
  | next _ _ hplan _ => exact Or.inr fun hnone => nomatch hplan.symm.trans hnone

end

end

end Manager

/-! ## plans -/

namespace RetryPlan

open Manager (attemptNumber)

/-- A word of 32 bits can hold the number of attempts of the plan. -/
def IsWord (p : RetryPlan) : Prop := ∀ m, p.maxAttempts = some m → m ≤ 0xFFFFFFFF

/-- The plan allows an attempt after the `k`-th: it has no limit, or `k` is below it. -/
def HasMore (p : RetryPlan) (k : Nat) : Prop := ∀ m, p.maxAttempts = some m → k < m

variable {p : RetryPlan} {k : Nat}

theorem hasMore_of_some {m : Nat} (hm : p.maxAttempts = some m) : p.HasMore k ↔ k < m := by
  constructor
  · exact fun h => h m hm
  · intro h n hn
    cases hm.symm.trans hn
    exact h

theorem HasMore.mono {j : Nat} (h : p.HasMore k) (hle : j ≤ k) : p.HasMore j :=
  fun m hm => Nat.lt_of_le_of_lt hle (h m hm)

/-- **That the number of an attempt saturates** makes no difference to where the plan ends. -/
theorem hasMore_iff (hword : p.IsWord) :
    p.HasMore k ↔ p.delayAfter (attemptNumber k) ≠ none := by
  rw [ne_eq, delayAfter_eq_none_iff]
  constructor
  · rintro h ⟨m, hm, hle⟩
    have hlt := h m hm
    unfold attemptNumber at hle
    omega
  · intro h m hm
    have hnot : ¬ m ≤ attemptNumber k := fun hle => h ⟨m, hm, hle⟩
    have hm' := hword m hm
    unfold attemptNumber at hnot
    omega

end RetryPlan

/-! ## the schedule -/

namespace Manager

section
variable (settings : Settings) (tl : Timeline Action Host)

/-- What the manager does at the `k`-th attempt, begun at `before`, and what follows.  The number of
rounds is that of all attempts that the run may make. -/
structure Scheduled (k : Nat) (before : Timeline Action Host) : Prop where
  unique : ∀ before', Begins settings tl k before' → before' = before
  /-- There were `k - 1` attempts before it, as the trace tells. -/
  earlier : ∃ qs, tl.Asks qs before ∧ attemptsOf qs + 1 = k
  reached : ∀ rounds, identifyModule settings (k + rounds) 1 tl
    = identifyModule settings (rounds + 1) (attemptNumber k) before
  inquiry : ∀ answer after, identifyOnce settings.queryTimeout before = .ok answer after →
    Inquiry settings.queryTimeout before answer after
  /-- An attempt that succeeds is the last one, and what it was told is the answer. -/
  succeeds : ∀ module after, identifyOnce settings.queryTimeout before = .ok (.ok module) after →
    ∀ rounds, identifyModule settings (k + rounds) 1 tl = .ok (.ok module) after
  /-- So is one that fails where the plan ends, and its failure is the answer. -/
  givesUp : ∀ e failed, identifyOnce settings.queryTimeout before = .ok (.error e) failed →
    ¬ settings.queryPlan.HasMore k → ∀ rounds, identifyModule settings (k + rounds) 1 tl
      = .ok (.error e) (givingUp e (attemptNumber k) failed)
  /-- After any other failure the next attempt begins when the delay is over.  A delay that ends
  beyond the last tick overflows, and one that ends there never does. -/
  goesOn : ∀ e failed, identifyOnce settings.queryTimeout before = .ok (.error e) failed →
    settings.queryPlan.HasMore k → ∃ delay,
      settings.queryPlan.delayAfter (attemptNumber k) = some delay ∧
      (Rings failed delay → ∃ next, Begins settings tl (k + 1) next ∧
        next.now = failed.now + delay ∧
        next = (retrying e delay failed).unattended (failed.now + delay)) ∧
      (Clock.lastTick < failed.now + delay → ∀ rounds,
        identifyModule settings (k + rounds) 1 tl
          = .error .overflow (retrying e delay failed)) ∧
      (failed.now + delay = Clock.lastTick → ∀ rounds,
        Routine.Halts failed.horizon (identifyModule settings (k + rounds) 1 tl))

/-- Every attempt that begins fails, and the delay after it ends before the last tick. -/
structure KeepsFailing : Prop where
  fails : ∀ k before, Begins settings tl k before →
    ∃ e failed, identifyOnce settings.queryTimeout before = .ok (.error e) failed
  rings : ∀ k before e failed delay, Begins settings tl k before →
    identifyOnce settings.queryTimeout before = .ok (.error e) failed →
    settings.queryPlan.delayAfter (attemptNumber k) = some delay → Rings failed delay

end

section
variable {settings : Settings} {tl before : Timeline Action Host} {k : Nat}

theorem Begins.scheduled (hword : settings.queryPlan.IsWord) (hord : tl.agenda.Ordered)
    (hb : Begins settings tl k before) : Scheduled settings tl k before := by
  refine ⟨fun _ hb' => hb.unique hb', hb.asks hord, hb.reached hord,
    fun _ _ => inquiry_of_ok, ?_, ?_, ?_⟩
  · intro module after h rounds
    rw [hb.reached hord]
    exact identifyModule_of_ok h rounds
  · intro e failed h hlast rounds
    have hnone : settings.queryPlan.delayAfter (attemptNumber k) = none :=
      Classical.byContradiction fun hsome => hlast ((RetryPlan.hasMore_iff hword).mpr hsome)
    rw [hb.reached hord]
    exact identifyModule_of_none h rounds hnone
  · intro e failed h hmore
    obtain ⟨delay, hplan⟩ := Option.ne_none_iff_exists'.mp ((RetryPlan.hasMore_iff hword).mp hmore)
    refine ⟨delay, hplan, fun hrings => ⟨_, hb.next h hplan hrings, rfl, rfl⟩, ?_, ?_⟩
    · intro hbeyond rounds
      have hsleep := Routine.sleep_of_overflow delay (retrying e delay failed) hbeyond
      rw [hb.reached hord, identifyModule_of_some h rounds hplan, Routine.bind_apply, hsleep]
    · intro hend rounds
      obtain ⟨halt, tl', hhalt, hwhy, _⟩ := identifyModule_of_lastTick h hplan hend
      exact ⟨halt, tl', (hb.reached hord rounds).trans (hhalt rounds), hwhy⟩

/-! ### how many there are -/

/-- Induction on the number: as long as the plan allows it, the next attempt begins. -/
theorem KeepsFailing.begins (hf : KeepsFailing settings tl) (hword : settings.queryPlan.IsWord)
    (k : Nat) (hmore : k = 0 ∨ settings.queryPlan.HasMore k) :
    ∃ before, Begins settings tl (k + 1) before := by
  induction k with
  | zero => exact ⟨tl, .first⟩
  | succ k ih =>
    obtain hzero | hmore := hmore
    · exact absurd hzero (Nat.succ_ne_zero k)
    · obtain ⟨before, hb⟩ := ih (Or.inr (hmore.mono (Nat.le_succ k)))
      obtain ⟨e, failed, h⟩ := hf.fails _ _ hb
      obtain ⟨delay, hplan⟩ :=
        Option.ne_none_iff_exists'.mp ((RetryPlan.hasMore_iff hword).mp hmore)
      exact ⟨_, hb.next h hplan (hf.rings _ _ _ _ _ hb h hplan)⟩

/-- **A plan with a limit** is used up: that many attempts begin, and one in any case. -/
theorem KeepsFailing.begins_iff (hf : KeepsFailing settings tl)
    (hword : settings.queryPlan.IsWord) {m : Nat} (hm : settings.queryPlan.maxAttempts = some m) :
    (∃ before, Begins settings tl k before) ↔ 1 ≤ k ∧ k ≤ max 1 m := by
  constructor
  · rintro ⟨before, hb⟩
    refine ⟨hb.pos, ?_⟩
    obtain hone | hallowed := hb.allowed
    · omega
    · have hmore := (RetryPlan.hasMore_iff hword).mpr hallowed
      have hlt := (RetryPlan.hasMore_of_some hm).mp hmore
      omega
  · rintro ⟨hpos, hle⟩
    obtain ⟨j, rfl⟩ : ∃ j, k = j + 1 := ⟨k - 1, by omega⟩
    refine hf.begins hword j ?_
    by_cases hzero : j = 0
    · exact Or.inl hzero
    · exact Or.inr ((RetryPlan.hasMore_of_some hm).mpr (by omega))

/-- The last attempt of a plan with a limit, and what the manager comes to. -/
theorem KeepsFailing.ends (hf : KeepsFailing settings tl) (hword : settings.queryPlan.IsWord)
    (hord : tl.agenda.Ordered) {m : Nat} (hm : settings.queryPlan.maxAttempts = some m) :
    ∃ before e failed ended, Begins settings tl (max 1 m) before ∧
      identifyOnce settings.queryTimeout before = .ok (.error e) failed ∧
      ended.now = failed.now ∧
      (∀ rounds, identifyModule settings (max 1 m + rounds) 1 tl = .ok (.error e) ended) ∧
      ∃ qs, tl.Asks qs ended ∧ attemptsOf qs = max 1 m := by
  obtain ⟨before, hb⟩ := (hf.begins_iff hword hm (k := max 1 m)).mpr ⟨by omega, Nat.le_refl _⟩
  obtain ⟨e, failed, h⟩ := hf.fails _ _ hb
  have hlast : ¬ settings.queryPlan.HasMore (max 1 m) := by
    rw [RetryPlan.hasMore_of_some hm]
    omega
  obtain ⟨qs, hqs, hcount⟩ := hb.asks hord
  obtain ⟨qs', hqs', hcount'⟩ := (inquiry_of_ok h).asks
  refine ⟨before, e, failed, givingUp e _ failed, hb, h, rfl,
    (hb.scheduled hword hord).givesUp e failed h hlast, qs ++ qs', ?_, ?_⟩
  · exact (hqs.trans hqs').quietly ((does_refl _).note _)
  · rw [attemptsOf_append]
    omega

/-- **A plan without a limit** has no end. -/
theorem KeepsFailing.endless (hf : KeepsFailing settings tl) (hord : tl.agenda.Ordered)
    (hnone : settings.queryPlan.maxAttempts = none) :
    (∀ k, 1 ≤ k → ∃ before, Begins settings tl k before) ∧
      ∀ rounds, ∃ tl', identifyModule settings rounds 1 tl = .error .unfinished tl' := by
  have hall : ∀ k, settings.queryPlan.HasMore k := by
    intro k m hm
    cases hnone.symm.trans hm
  have hword : settings.queryPlan.IsWord := by
    intro m hm
    cases hnone.symm.trans hm
  have hbegins : ∀ k, ∃ before, Begins settings tl (k + 1) before :=
    fun k => hf.begins hword k (Or.inr (hall k))
  constructor
  · intro k hpos
    obtain ⟨j, rfl⟩ : ∃ j, k = j + 1 := ⟨k - 1, by omega⟩
    exact hbegins j
  · intro rounds
    cases rounds with
    | zero => exact ⟨tl, rfl⟩
    | succ k =>
      -- the round of the last attempt that is made, and none is left
      obtain ⟨before, hb⟩ := hbegins k
      obtain ⟨e, failed, h⟩ := hf.fails _ _ hb
      obtain ⟨delay, hplan⟩ :=
        Option.ne_none_iff_exists'.mp ((RetryPlan.hasMore_iff hword).mp (hall (k + 1)))
      have hround := identifyModule_of_rings h 0 (identifyOnce_ordered (hb.ordered hord) h) hplan
        (hf.rings _ _ _ _ _ hb h hplan)
      rw [← hb.reached hord 0] at hround
      exact ⟨_, hround⟩

end

end Manager

open Manager in
/-- **The schedule of the queries.**  Each attempt asks for the firmware and, exactly if it was told
that, for the address.  If it fails and the plan allows another one, that begins exactly the delay
of the plan after the failure, whatever others do meanwhile, provided that the delay ends before the
last tick; if the plan allows none, the manager gives up with this very failure.  The first attempt
that succeeds ends it at once.  So where every attempt fails there are as many as the plan allows,
and one in any case, and without a limit there is no end of them. -/
theorem query_schedule {settings : Settings} (hword : settings.queryPlan.IsWord)
    {tl : Timeline Action Host} (hord : tl.agenda.Ordered) :
    (∀ k before, Begins settings tl k before → Scheduled settings tl k before) ∧
    (KeepsFailing settings tl →
      (∀ m, settings.queryPlan.maxAttempts = some m →
        (∀ k, (∃ before, Begins settings tl k before) ↔ 1 ≤ k ∧ k ≤ max 1 m) ∧
        ∃ before e failed ended, Begins settings tl (max 1 m) before ∧
          identifyOnce settings.queryTimeout before = .ok (.error e) failed ∧
          ended.now = failed.now ∧
          (∀ rounds, identifyModule settings (max 1 m + rounds) 1 tl = .ok (.error e) ended) ∧
          ∃ qs, tl.Asks qs ended ∧ attemptsOf qs = max 1 m) ∧
      (settings.queryPlan.maxAttempts = none →
        (∀ k, 1 ≤ k → ∃ before, Begins settings tl k before) ∧
        ∀ rounds, ∃ tl', identifyModule settings rounds 1 tl = .error .unfinished tl')) := by
  refine ⟨fun k before hb => hb.scheduled hword hord, fun hf => ⟨fun m hm => ⟨?_, ?_⟩, ?_⟩⟩
  · exact fun k => hf.begins_iff hword hm
  · exact hf.ends hword hord hm
  · exact hf.endless hord

/-! ### modules that do not answer -/

/-- A module that does not tell its firmware when first asked, as many times as given. -/
def muteSetup (failures : Nat) : HostSetup where
  feeds := { firmware := some (List.replicate failures { outcome := .error .timeout }) }

def mute (failures : Nat) : Timeline Action Host where
  now := 0
  world := { (muteSetup failures).host with mailbox := { claimed := true } }

/-- Two attempts are allowed, a second apart. -/
def twice : Settings := { queryPlan := .upTo 2 second }

open Manager in
theorem keepsFailing_mute : KeepsFailing twice (mute 2) := by
  obtain ⟨failed, hfirst, hrings⟩ : ∃ failed,
      identifyOnce twice.queryTimeout (mute 2) = .ok (.error .timeout) failed ∧
        Rings failed second := ⟨_, rfl, by decide, rfl⟩
  obtain ⟨next, hnext, failed', hsecond⟩ : ∃ next, Begins twice (mute 2) 2 next ∧
      ∃ failed', identifyOnce twice.queryTimeout next = .ok (.error .timeout) failed' :=
    ⟨_, .next .first rfl rfl ⟨by decide, rfl⟩, _, rfl⟩
  -- after two attempts the plan ends
  have hends : ∀ k, twice.queryPlan.HasMore k ↔ k < 2 :=
    fun k => RetryPlan.hasMore_of_some rfl
  have hword : twice.queryPlan.IsWord := by
    rintro m ⟨rfl⟩
    decide
  have hall : ∀ k before, Begins twice (mute 2) k before →
      (k = 1 ∧ before = mute 2) ∨ (k = 2 ∧ before = next) := by
    intro k before hb
    have hpos := hb.pos
    have htwo : k ≤ 2 := by
      obtain hone | hallowed := hb.allowed
      · omega
      · have hlt := (hends _).mp ((RetryPlan.hasMore_iff hword).mpr hallowed)
        omega
    obtain rfl | rfl : k = 1 ∨ k = 2 := by omega
    · exact Or.inl ⟨rfl, Begins.unique .first hb⟩
    · exact Or.inr ⟨rfl, hnext.unique hb⟩
  constructor
  · intro k before hb
    obtain ⟨rfl, rfl⟩ | ⟨rfl, rfl⟩ := hall k before hb
    · exact ⟨_, _, hfirst⟩
    · exact ⟨_, _, hsecond⟩
  · intro k before e failed₁ delay hb h hplan
    obtain ⟨rfl, rfl⟩ | ⟨rfl, rfl⟩ := hall k before hb
    · cases hfirst.symm.trans h
      cases hplan
      exact hrings
    · cases hplan

open Manager in
/-- A module that does not answer is asked twice, and no more. -/
theorem mute_is_asked_twice : twice.queryPlan.IsWord ∧ (mute 2).agenda.Ordered ∧
    (∀ k, (∃ before, Begins twice (mute 2) k before) ↔ 1 ≤ k ∧ k ≤ 2) ∧
    ∃ e ended, identifyModule twice 2 1 (mute 2) = .ok (.error e) ended := by
  have hword : twice.queryPlan.IsWord := by
    rintro m ⟨rfl⟩
    decide
  have hord : (mute 2).agenda.Ordered := Agenda.ordered_nil
  obtain ⟨hcount, _, e, _, ended, _, _, _, hends, _⟩ :=
    ((query_schedule hword hord).2 keepsFailing_mute).1 2 rfl
  exact ⟨hword, hord, hcount, e, ended, hends 0⟩

open Manager in
/-- A delay that ends at the last tick overflows nothing, and yet the next attempt never begins. -/
theorem lastTick_delay_blocks :
    ∃ e failed delay, identifyOnce patient.settings.queryTimeout (mute 1) = .ok (.error e) failed ∧
      patient.settings.queryPlan.HasMore 1 ∧
      patient.settings.queryPlan.delayAfter (attemptNumber 1) = some delay ∧
      failed.now + delay ≤ Clock.lastTick ∧
      ∀ rounds, ∃ tl', identifyModule patient.settings (1 + rounds) 1 (mute 1) = .error .blocked tl' ∧
        askedIn (written (mute 1) tl') = [(0, .firmwareVersion)] := by
  obtain ⟨failed, hfails, hasked, hnow, hhorizon⟩ : ∃ failed,
      identifyOnce patient.settings.queryTimeout (mute 1) = .ok (.error .timeout) failed ∧
        askedIn (written (mute 1) failed) = [(0, .firmwareVersion)] ∧
        failed.now = 0 ∧ failed.horizon = none := ⟨_, rfl, rfl, rfl, rfl⟩
  obtain ⟨_, hasks, _⟩ := (inquiry_of_ok hfails).asks
  have hplan : patient.settings.queryPlan.delayAfter (attemptNumber 1) = some Clock.lastTick := rfl
  have hend : failed.now + Clock.lastTick = Clock.lastTick := by rw [hnow, Nat.zero_add]
  have hmore : patient.settings.queryPlan.HasMore 1 := by
    intro m hm
    cases hm
  obtain ⟨halt, tl', hhalt, hwhy, hasks'⟩ := identifyModule_of_lastTick hfails hplan hend
  obtain rfl : halt = .blocked := by
    obtain hblocked | ⟨_, hlimited⟩ := hwhy
    · exact hblocked
    · exact absurd hhorizon hlimited
  refine ⟨_, failed, _, hfails, hmore, hplan, Nat.le_of_eq hend, fun rounds => ⟨tl', ?_, ?_⟩⟩
  · rw [Nat.add_comm]
    exact hhalt rounds
  · exact (hasks' _ ⟨hasks.leads, hasked⟩).asked_eq

end Uplink
