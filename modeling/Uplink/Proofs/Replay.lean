import Uplink.Proofs.Accounts
import Uplink.Proofs.Handling
import Uplink.Proofs.Modest

/-!
# Replaying a trace

Interface and co-processor meet a call or a request as they are at that moment.  What they are can
be told from the trace: a call is accepted or refused, a request uses up one response, and the
actions of others say what they do.

* `Surroundings`       interface and co-processor, and what an entry of the trace makes of them;
* `Happening`          an entry of a trace with the surroundings that it met;
* `Deed`               a request or a call of the manager with the surroundings that it met;
* `Deed.succeeds`      what was asked or called was not refused;
* `Host.Does`          the way from one host to a later one, with the deeds of the manager;
* `HostRoutine.Works`  the deeds of a routine.

The replay is faithful: of everything that happens to a host, the trace tells what became of the
surroundings (`does_use`, `does_asked`, `does_react`, `does_report`).
-/

namespace Uplink

open Host

/-! ## surroundings -/

/-- Interface and co-processor, as a manager finds them. -/
structure Surroundings where
  interface : Interface
  coprocessor : Coprocessor

/-- The co-processor after a request: one response of that kind is used up. -/
def Coprocessor.after (c : Coprocessor) : Request → Coprocessor
  | .selectMode _ => c.nextMode.2
  | .connect _ _ => c.nextConnection.2
  | .disconnect => c.nextDisconnection.2
  | .firmwareVersion => c.nextFirmware.2
  | .hardwareAddress => c.nextAddress.2

/-- What an action makes of the co-processor. -/
def Action.supplied (a : Action) (c : Coprocessor) : Coprocessor :=
  match a with
  | configureCoprocessor change => change.applyTo c
  | _ => c

namespace Surroundings

/-- What becomes of the surroundings with an entry of the trace. -/
def after (s : Surroundings) : TraceEntry → Surroundings
  | .asked _ request _ => { s with coprocessor := s.coprocessor.after request }
  | .called _ call => { s with interface := s.interface.attempt call }
  | .fired _ a _ => ⟨a.changed s.interface, a.supplied s.coprocessor⟩
  | .accepted _ => s

def afterAll (s : Surroundings) (entries : List TraceEntry) : Surroundings :=
  entries.foldl after s

theorem afterAll_append (s : Surroundings) (as bs : List TraceEntry) :
    s.afterAll (as ++ bs) = (s.afterAll as).afterAll bs := List.foldl_append

theorem afterAll_accepted (s : Surroundings) (sets : List EventSet) :
    s.afterAll (sets.map TraceEntry.accepted) = s := by
  induction sets with
  | nil => rfl
  | cons _ sets ih => exact ih

end Surroundings

/-! ## happenings -/

/-- An entry of a trace with the surroundings that it met. -/
structure Happening where
  before : Surroundings
  entry : TraceEntry

/-- The entries of a trace that was begun in the surroundings `s`. -/
def happenings (s : Surroundings) : List TraceEntry → List Happening
  | [] => []
  | e :: es => ⟨s, e⟩ :: happenings (s.after e) es

theorem happenings_append (s : Surroundings) (as bs : List TraceEntry) :
    happenings s (as ++ bs) = happenings s as ++ happenings (s.afterAll as) bs := by
  induction as generalizing s with
  | nil => rfl
  | cons e as ih => exact congrArg (_ :: ·) (ih (s.after e))

theorem entries_happenings (s : Surroundings) (entries : List TraceEntry) :
    (happenings s entries).map Happening.entry = entries := by
  induction entries generalizing s with
  | nil => rfl
  | cons e es ih => exact congrArg (e :: ·) (ih (s.after e))

/-! ## deeds -/

/-- A request or a call, without the instant. -/
inductive Work where
  | request (request : Request) (timeout : Nat)
  | call (call : InterfaceCall)
  deriving DecidableEq, Repr

def Work.isRequest : Work → Bool
  | request _ _ => true
  | call _ => false

/-- The request or the call of which an entry tells. -/
def TraceEntry.work? : TraceEntry → Option Work
  | asked _ request timeout => some (.request request timeout)
  | called _ call => some (.call call)
  | _ => none

def worksIn (entries : List TraceEntry) : List Work := entries.filterMap TraceEntry.work?

theorem worksIn_append (as bs : List TraceEntry) : worksIn (as ++ bs) = worksIn as ++ worksIn bs :=
  List.filterMap_append

/-- A request or a call of the manager, with the surroundings that it met. -/
structure Deed where
  before : Surroundings
  work : Work

def Happening.deed? (x : Happening) : Option Deed := x.entry.work?.map (Deed.mk x.before)

def deedsOf (xs : List Happening) : List Deed := xs.filterMap Happening.deed?

theorem deedsOf_append (as bs : List Happening) : deedsOf (as ++ bs) = deedsOf as ++ deedsOf bs :=
  List.filterMap_append

theorem deedsOf_accepted (s : Surroundings) (sets : List EventSet) :
    deedsOf (happenings s (sets.map TraceEntry.accepted)) = [] := by
  induction sets with
  | nil => rfl
  | cons _ sets ih => exact ih

theorem works_deedsOf (s : Surroundings) (entries : List TraceEntry) :
    (deedsOf (happenings s entries)).map Deed.work = worksIn entries := by
  induction entries generalizing s with
  | nil => rfl
  | cons e es ih =>
    cases e with
    | asked time request timeout => exact congrArg (Work.request request timeout :: ·) (ih _)
    | called time call => exact congrArg (Work.call call :: ·) (ih _)
    | fired time action result => exact ih _
    | accepted events => exact ih _

/-- What comes of a request whose response is `r`. -/
def Response.result {α : Type} (r : Response α) (timeout : Nat) : Except TransportFault α :=
  if timeout < r.delay then .error .timeout else r.outcome

/-- The request was answered without a fault, or the call was not refused. -/
def Deed.succeeds (d : Deed) : Bool :=
  match d.work with
  | .request (.selectMode _) timeout => (d.before.coprocessor.nextMode.1.result timeout).isOk
  | .request (.connect _ _) timeout => (d.before.coprocessor.nextConnection.1.result timeout).isOk
  | .request .disconnect timeout => (d.before.coprocessor.nextDisconnection.1.result timeout).isOk
  | .request .firmwareVersion timeout => (d.before.coprocessor.nextFirmware.1.result timeout).isOk
  | .request .hardwareAddress timeout => (d.before.coprocessor.nextAddress.1.result timeout).isOk
  | .call call => (d.before.interface.refusal call).isNone

/-! ## what a host goes through -/

namespace Host

def surroundings (h : Host) : Surroundings := ⟨h.interface, h.coprocessor⟩

/-- The way from `h` to `h'`: the trace grew by `entries`, and they tell what became of the
surroundings. -/
structure Replays (entries : List TraceEntry) (h h' : Host) : Prop where
  trace_eq : h'.trace.toList = h.trace.toList ++ entries
  surroundings_eq : h'.surroundings = h.surroundings.afterAll entries

/-- Meanwhile the manager did `deeds`. -/
def Does (deeds : List Deed) (h h' : Host) : Prop :=
  ∃ entries, Replays entries h h' ∧ deedsOf (happenings h.surroundings entries) = deeds

variable {h h₁ h' : Host} {as bs : List TraceEntry} {ds es : List Deed}

theorem Replays.trans (ha : Replays as h h₁) (hb : Replays bs h₁ h') : Replays (as ++ bs) h h' where
  trace_eq := by rw [hb.trace_eq, ha.trace_eq, List.append_assoc]
  surroundings_eq := by
    rw [hb.surroundings_eq, ha.surroundings_eq, Surroundings.afterAll_append]

theorem Does.trans (ha : Does ds h h₁) (hb : Does es h₁ h') : Does (ds ++ es) h h' := by
  obtain ⟨as, hreplayed, rfl⟩ := ha
  obtain ⟨bs, hreplayed', rfl⟩ := hb
  refine ⟨as ++ bs, hreplayed.trans hreplayed', ?_⟩
  rw [happenings_append, deedsOf_append, hreplayed.surroundings_eq]

theorem Does.quietly (ha : Does ds h h₁) (hb : Does [] h₁ h') : Does ds h h' := by
  have hboth := ha.trans hb
  rwa [List.append_nil] at hboth

theorem Does.after_nothing (ha : Does [] h h₁) (hb : Does ds h₁ h') : Does ds h h' := ha.trans hb

/-- Nothing became of trace and surroundings. -/
theorem does_nothing (ht : h'.trace = h.trace) (hs : h'.surroundings = h.surroundings) :
    Does [] h h' :=
  ⟨[], ⟨by rw [ht, List.append_nil], hs⟩, rfl⟩

theorem does_refl (h : Host) : Does [] h h := does_nothing rfl rfl

theorem Does.note (hd : Does ds h h') (e : LogEntry) : Does ds h (h'.note e) :=
  hd.quietly (does_nothing rfl rfl)

theorem Tends.does (ht : Tends h h') : Does [] h h' := by
  induction ht with
  | refl => exact does_refl h
  | tail _ hs ih =>
    cases hs with
    | note e _ => exact ih.note e
    | take target => exact ih.quietly (does_nothing rfl rfl)
    | putBack events => exact ih.quietly (does_nothing rfl rfl)

theorem does_told {sets : List EventSet} (ht : Told sets h h')
    (hc : h'.coprocessor = h.coprocessor) : Does [] h h' := by
  refine ⟨sets.map TraceEntry.accepted, ⟨ht.trace_eq, ?_⟩, deedsOf_accepted _ sets⟩
  rw [Surroundings.afterAll_accepted]
  exact congrArg₂ Surroundings.mk ht.interface_eq hc

theorem does_entry {e : TraceEntry} (ht : h'.trace = h.trace.push e)
    (hs : h'.surroundings = h.surroundings.after e) :
    Does (e.work?.map (Deed.mk h.surroundings)).toList h h' := by
  refine ⟨[e], ⟨by rw [ht, Array.toList_push], hs⟩, ?_⟩
  cases e <;> rfl

/-! ### the manager -/

/-- **A call of the manager**, accepted or refused. -/
theorem does_use (h : Host) (now : Nat) (call : InterfaceCall) :
    Does [⟨h.surroundings, .call call⟩] h (h.use now call).2 := by
  obtain ⟨sets, ht⟩ := told_use h now call
  have hcalled : Does [⟨h.surroundings, .call call⟩] h
      ({ h with interface := h.interface.attempt call }.record (.called now call)) :=
    does_entry (e := .called now call) rfl rfl
  exact hcalled.quietly (does_told ht (coprocessor_use h now call))

/-- **A request of the manager**, whatever comes of it. -/
theorem does_asked (h : Host) (now : Nat) (request : Request) (timeout : Nat) :
    Does [⟨h.surroundings, .request request timeout⟩] h
      ({ h with coprocessor := h.coprocessor.after request }.record
        (.asked now request timeout)) :=
  does_entry (e := .asked now request timeout) rfl rfl

/-! ### others -/

theorem coprocessor_perform (a : Action) (h : Host) :
    (a.perform h).2.coprocessor = a.supplied h.coprocessor := by
  cases a with
  | reportCode code => exact coprocessor_signalOrNote _ _ _
  | report status => exact coprocessor_signalOrNote _ _ _
  | stackReady => exact coprocessor_signalAccepted _ _
  | requestReconnect => exact coprocessor_signalAccepted _ _
  | signal events =>
    unfold Action.perform
    dsimp only
    split
    · exact coprocessor_signal (by assumption)
    · rfl
  | observe snapshot => exact coprocessor_observe _ _
  | changeInterface flags ipv4 => exact coprocessor_changeInterface _ _
  | _ => rfl

theorem interface_perform (a : Action) (h : Host) :
    (a.perform h).2.interface = a.changed h.interface := by
  obtain ⟨_, ht, _⟩ := a.told_perform h
  rw [ht.interface_eq, a.interface_alone]

/-- What an action does to the trace before it goes there itself: it tells of events. -/
theorem trace_perform (a : Action) (h : Host) :
    ∃ sets : List EventSet,
      (a.perform h).2.trace.toList = h.trace.toList ++ sets.map TraceEntry.accepted := by
  obtain ⟨sets, ht, _⟩ := a.told_perform h
  exact ⟨sets, by rw [ht.trace_eq, a.trace_alone]⟩

/-- **An action of the agenda.**  What it does comes before the events it tells of, but its entry
comes after them. -/
theorem does_react (now : Nat) (a : Action) (h : Host) : Does [] h (Reactive.react now a h) := by
  obtain ⟨sets, ht⟩ := trace_perform a h
  refine ⟨sets.map TraceEntry.accepted ++ [.fired now a (a.perform h).1], ⟨?_, ?_⟩, ?_⟩
  · show ((a.perform h).2.trace.push _).toList = _
    rw [Array.toList_push, ht, List.append_assoc]
  · rw [Surroundings.afterAll_append, Surroundings.afterAll_accepted]
    exact congrArg₂ Surroundings.mk (interface_perform a h) (coprocessor_perform a h)
  · rw [happenings_append, deedsOf_append, deedsOf_accepted]
    rfl

theorem does_report (h : Host) (status : RadioStatus) : Does [] h (h.report status) := by
  obtain ⟨sets, ht, _⟩ := (Action.report status).told_perform h
  have halone : Does [] h ((Action.report status).alone h) := does_nothing rfl rfl
  exact halone.trans (does_told ht (coprocessor_perform (.report status) h))

theorem does_reportCodes (h : Host) (codes : List UInt8) : Does [] h (h.reportCodes codes) := by
  induction codes generalizing h with
  | nil => exact does_refl h
  | cons code codes ih => exact (does_report h (RadioStatus.ofCode code)).trans (ih _)

theorem Does.fire (hd : Does ds h h') (t : Nat) (as : List Action) :
    Does ds h (Uplink.fire t as h') :=
  fire_induction t as hd fun a _ _ hd => hd.quietly (does_react t a _)

end Host

/-! ## what a routine does -/

namespace HostRoutine

variable {β γ : Type} {x : HostRoutine β} {f : β → HostRoutine γ}

/-- The deeds of a routine: if it returns, they are such that `R`, and if it comes to a halt, such
that `E`. -/
def Works (x : HostRoutine β) (R : β → List Deed → Prop) (E : List Deed → Prop) : Prop :=
  ∀ tl, x.Ends tl (fun b tl' => ∃ ds, Does ds tl.world tl'.world ∧ R b ds)
    fun tl' => ∃ ds, Does ds tl.world tl'.world ∧ E ds

/-- Whether the routine returns or comes to a halt, its deeds are such that `W`. -/
abbrev Commits (x : HostRoutine β) (W : List Deed → Prop) : Prop := Works x (fun _ => W) W

/-- The routine does nothing itself. -/
abbrev Idles (x : HostRoutine β) : Prop := Commits x (· = [])

/-- The routine does nothing itself, and returns. -/
abbrev Passes (x : HostRoutine β) : Prop := Works x (fun _ ds => ds = []) fun _ => False

section
variable {R : β → List Deed → Prop} {R' : γ → List Deed → Prop} {E E' : List Deed → Prop}

theorem Works.imp {R₁ : β → List Deed → Prop} (hx : Works x R E) (hR : ∀ b ds, R b ds → R₁ b ds)
    (hE : ∀ ds, E ds → E' ds) : Works x R₁ E' := by
  intro tl
  refine (hx tl).imp ?_ ?_
  · rintro b tl' ⟨ds, hd, hr⟩
    exact ⟨ds, hd, hR b ds hr⟩
  · rintro tl' ⟨ds, hd, he⟩
    exact ⟨ds, hd, hE ds he⟩

theorem Works.bind (hx : Works x R E)
    (hf : ∀ b, Works (f b) (fun c es => ∀ ds, R b ds → R' c (ds ++ es))
      fun es => ∀ ds, R b ds → E' (ds ++ es)) (hE : ∀ ds, E ds → E' ds) :
    Works (x >>= f) R' E' := by
  intro tl
  refine Routine.ends_bind.mpr ((hx tl).imp ?_ ?_)
  · rintro b tl₁ ⟨ds, hd, hr⟩
    refine (hf b tl₁).imp ?_ ?_
    · rintro c tl₂ ⟨es, hd', hr'⟩
      exact ⟨ds ++ es, hd.trans hd', hr' ds hr⟩
    · rintro tl₂ ⟨es, hd', he'⟩
      exact ⟨ds ++ es, hd.trans hd', he' ds hr⟩
  · rintro tl₁ ⟨ds, hd, he⟩
    exact ⟨ds, hd, hE ds he⟩

theorem Passes.then (hx : Passes x) (hf : ∀ b, Works (f b) R' E') : Works (x >>= f) R' E' := by
  refine hx.bind (fun b => (hf b).imp ?_ ?_) fun _ h => h.elim
  · rintro c es hr ds rfl
    exact hr
  · rintro es he ds rfl
    exact he

theorem Idles.then (hx : Idles x) (hf : ∀ b, Works (f b) R' E') (hE : E' []) :
    Works (x >>= f) R' E' := by
  refine hx.bind (fun b => (hf b).imp ?_ ?_) ?_
  · rintro c es hr ds rfl
    exact hr
  · rintro es he ds rfl
    exact he
  · rintro ds rfl
    exact hE

/-- What idles may come last. -/
theorem Works.idly (hx : Works x R E) (hf : ∀ b, Idles (f b)) (hRE : ∀ b ds, R b ds → E ds) :
    Works (x >>= f) (fun _ ds => ∃ b, R b ds) E := by
  refine hx.bind (fun b => (hf b).imp ?_ ?_) fun _ he => he
  · rintro c es rfl ds hr
    rw [List.append_nil]
    exact ⟨b, hr⟩
  · rintro es rfl ds hr
    rw [List.append_nil]
    exact hRE b ds hr

end

theorem Commits.idly {W : List Deed → Prop} (hx : Commits x W) (hf : ∀ b, Idles (f b)) :
    Commits (x >>= f) W := by
  refine (Works.idly hx hf fun _ _ h => h).imp ?_ fun _ h => h
  rintro _ ds ⟨_, h⟩
  exact h

theorem Passes.idles (hx : Passes x) : Idles x := hx.imp (fun _ _ h => h) fun _ h => h.elim

theorem Idles.does (hx : Idles x) (tl : Timeline Action Host) :
    x.Ends tl (fun _ tl' => Does [] tl.world tl'.world) fun tl' => Does [] tl.world tl'.world := by
  refine (hx tl).imp ?_ ?_
  · rintro b tl' ⟨ds, hd, rfl⟩
    exact hd
  · rintro tl' ⟨ds, hd, rfl⟩
    exact hd

theorem works_pure {R : β → List Deed → Prop} {E : List Deed → Prop} {b : β} (h : R b []) :
    Works (pure b : HostRoutine β) R E :=
  fun tl => Routine.ends_pure ⟨[], does_refl tl.world, h⟩

theorem passes_pure (b : β) : Passes (pure b : HostRoutine β) := works_pure rfl

theorem passes_world : Passes (Routine.world : HostRoutine Host) :=
  fun tl => ⟨[], does_refl tl.world, rfl⟩

theorem passes_now : Passes (Routine.now : HostRoutine Nat) :=
  fun tl => ⟨[], does_refl tl.world, rfl⟩

theorem passes_change {g : Host → Host} (hg : ∀ h, Does [] h (g h)) : Passes (Routine.change g) :=
  fun tl => ⟨[], hg tl.world, rfl⟩

theorem passes_note (e : LogEntry) : Passes (note e) := passes_change fun h => (does_refl h).note e

theorem passes_status : Passes status := passes_world.then fun h => passes_pure h.status

theorem passes_take (target : EventSet) : Passes (take target) :=
  fun _ => ⟨[], does_nothing rfl rfl, rfl⟩

theorem passes_putBack (events : EventSet) : Passes (putBack events) :=
  passes_change fun _ => does_nothing rfl rfl

/-! ### waits -/

/-- **A wait**: while the manager waits, all that happens is done by others. -/
theorem idles_await {ρ : Type} {w : Wait Host ρ β} (hlook : ∀ t r h, Tends h (w.look t r h).2)
    (hexpire : ∀ r h, Does [] h (w.expire r h).2) (deadline : Option Nat) (r : ρ) :
    Idles (Routine.await w deadline r) := by
  intro tl
  have hover : Routine.Over (fun _ _ h => Does [] tl.world h)
      (fun _ (_ : ρ) h => Does [] tl.world h)
      tl.agenda [] (Routine.await w deadline r tl) := by
    refine Routine.await_over (I := fun _ _ h => Does [] tl.world h) ?_ ?_ ?_ (does_refl _)
    · intro _ t r h hd
      have hl := hd.quietly (hlook t r h).does
      rcases hw : w.look t r h with ⟨v | r', h'⟩ <;> (rw [hw] at hl; exact hl)
    · intro _ r h t as hd
      exact hd.fire t as
    · intro _ r h hd
      exact hd.quietly (hexpire r h)
  exact (hover.ended (fun _ _ _ hd => hd) fun _ _ _ hd => hd).imp
    (fun _ _ hd => ⟨[], hd, rfl⟩) fun _ hd => ⟨[], hd, rfl⟩

theorem idles_sleep (ticks : Nat) : Idles (Routine.sleep ticks) := by
  intro tl
  have hwait := idles_await (w := Routine.timer) (fun _ _ _ => .refl) (fun _ h => does_refl h)
    (Clock.after? tl.now ticks) () tl
  unfold Routine.Ends Routine.sleep
  cases hc : Clock.after? tl.now ticks with
  | none => exact ⟨[], does_refl tl.world, rfl⟩
  | some t =>
    rw [hc] at hwait
    exact hwait

theorem idles_awaitAll (target : EventSet) (timeout : Nat) : Idles (awaitAll target timeout) := by
  refine passes_now.then fun _ => (passes_note (.waitStarted target)).then fun _ => ?_
  exact idles_await (fun t seen h => tends_gather target t h seen)
    (fun _ h => (does_refl h).note _) _ _

theorem idles_awaitAny (target : EventSet) (timeout : Nat) : Idles (awaitAny target timeout) := by
  refine passes_now.then fun _ => ?_
  exact idles_await (fun t _ h => tends_deliver target t h) (fun _ h => does_refl h) _ _

theorem idles_awaitReport (accept : RadioStatus → Bool) (timeout : Nat) :
    Idles (awaitReport accept timeout) := by
  refine passes_now.then fun start => ?_
  dsimp only
  split
  · exact (passes_pure _).idles
  · refine (passes_note _).then fun _ => ?_
    refine (idles_await (fun t taken h => tends_watch t h accept _ taken)
      (fun _ h => (does_refl h).note _) _ _).idly fun r => ?_
    split
    · exact (passes_putBack _).then fun _ => (passes_pure _).idles
    · exact (passes_pure _).idles

/-! ### requests -/

/-- Such a request uses up what `draw` draws. -/
def Serves {α : Type} (request : Request) (draw : Coprocessor → Response α × Coprocessor) : Prop :=
  ∀ c, (draw c).2 = c.after request

/-- What comes after a request idles, and returns what the response says. -/
theorem works_answer {α : Type} (response : Response α) (timeout : Nat) :
    Works (do
      Routine.change (·.reportCodes response.early)
      if timeout < response.delay then
        Routine.sleep timeout
        return .error .timeout
      if 0 < response.delay then
        Routine.sleep response.delay
      Routine.change (·.reportCodes response.late)
      return response.outcome : HostRoutine (Except TransportFault α))
      (fun answer ds => answer = response.result timeout ∧ ds = []) fun ds => ds = [] := by
  have hlate : Works (do
      Routine.change (·.reportCodes response.late)
      return response.outcome : HostRoutine (Except TransportFault α))
      (fun answer ds => answer = response.outcome ∧ ds = []) fun ds => ds = [] :=
    (passes_change fun h => does_reportCodes h _).then fun _ => works_pure ⟨rfl, rfl⟩
  refine (passes_change fun h => does_reportCodes h _).then fun _ => ?_
  unfold Response.result
  split
  · exact (idles_sleep _).then (fun _ => works_pure ⟨rfl, rfl⟩) rfl
  · split
    · exact (idles_sleep _).then (fun _ => hlate) rfl
    · exact hlate

/-- **A request** is one deed.  What it returns is what comes of the response drawn for it. -/
theorem works_ask {α : Type} {request : Request} {draw : Coprocessor → Response α × Coprocessor}
    (hdraw : Serves request draw) (timeout : Nat) :
    Works (ask request draw timeout)
      (fun answer ds => ∃ s : Surroundings, ds = [⟨s, .request request timeout⟩] ∧
        answer = (draw s.coprocessor).1.result timeout)
      fun ds => ∃ s : Surroundings, ds = [⟨s, .request request timeout⟩] := by
  let asked := fun (response : Response α) (ds : List Deed) =>
    ∃ s : Surroundings, ds = [⟨s, .request request timeout⟩] ∧ response = (draw s.coprocessor).1
  have hasked : Works (Routine.act fun now h => ((draw h.coprocessor).1,
      { h with coprocessor := (draw h.coprocessor).2 }.record (.asked now request timeout)))
      asked fun _ => False := by
    intro tl
    refine Routine.ends_act ⟨_, does_asked tl.world tl.now request timeout |>.quietly
      (does_nothing ?_ ?_), tl.world.surroundings, rfl, rfl⟩
    · rfl
    · exact congrArg (Surroundings.mk tl.world.interface) (hdraw _)
  refine hasked.bind (fun response => ?_) fun _ h => h.elim
  refine (works_answer response timeout).imp ?_ ?_
  · rintro answer es ⟨rfl, rfl⟩ ds ⟨s, rfl, rfl⟩
    exact ⟨s, rfl, rfl⟩
  · rintro es rfl ds ⟨s, rfl, _⟩
    exact ⟨s, rfl⟩

end HostRoutine

end Uplink
