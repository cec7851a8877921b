import Uplink.Association
import Uplink.Proofs.Ending

/-!
# The accounts of the mailbox

Everything that happens at a host goes to its trace, also the events that its mailbox accepts.  So
the mailbox can be held against the trace: it has what it had and what it accepted, but for the
events that its consumer took and has not put back.

* `acceptedIn`, `requestsIn`  what the entries of a trace tell of the mailbox and the co-processor;
* `Host.Since`                the way from one host to a later one, with the events still owed to
                              the mailbox and the requests made;
* `HostRoutine.Asks`          a routine that owes nothing when it returns, and its requests.

Nothing but the consumer takes events, so every producer and every action keeps the accounts
(`Since.report`, `Since.perform`, `Since.fire`).
-/

namespace Uplink

/-! ## what a trace tells -/

namespace TraceEntry

def accepts : TraceEntry → EventSet
  | accepted events => events
  | _ => EventSet.empty

def request? : TraceEntry → Option Request
  | asked _ request _ => some request
  | _ => none

end TraceEntry

def acceptedIn (entries : List TraceEntry) : EventSet :=
  entries.foldr (fun e s => e.accepts ||| s) EventSet.empty

def requestsIn (entries : List TraceEntry) : List Request := entries.filterMap TraceEntry.request?

theorem acceptedIn_append (as bs : List TraceEntry) :
    acceptedIn (as ++ bs) = acceptedIn as ||| acceptedIn bs := by
  induction as with
  | nil => exact (BitVec.zero_or).symm
  | cons a as ih =>
    show a.accepts ||| acceptedIn (as ++ bs) = (a.accepts ||| acceptedIn as) ||| acceptedIn bs
    rw [ih, BitVec.or_assoc]

theorem acceptedIn_single (e : TraceEntry) : acceptedIn [e] = e.accepts := BitVec.or_zero

theorem requestsIn_append (as bs : List TraceEntry) :
    requestsIn (as ++ bs) = requestsIn as ++ requestsIn bs := List.filterMap_append

theorem requestsIn_single (e : TraceEntry) : requestsIn [e] = e.request?.toList := by
  cases e <;> rfl

theorem has_accepts {entry : TraceEntry} {e : Event} :
    entry.accepts.Has e ↔ ∃ s, entry = .accepted s ∧ s.Has e := by
  cases entry with
  | accepted s =>
    constructor
    · intro h
      exact ⟨s, rfl, h⟩
    · intro hend
      obtain ⟨t, ht, h⟩ := hend
      cases ht
      exact h
  | _ => simp [TraceEntry.accepts, EventSet.not_has_empty]

theorem has_acceptedIn (entries : List TraceEntry) (e : Event) :
    (acceptedIn entries).Has e ↔ ∃ s, .accepted s ∈ entries ∧ s.Has e := by
  induction entries with
  | nil => simp [acceptedIn, EventSet.not_has_empty]
  | cons entry entries ih =>
    show (entry.accepts ||| acceptedIn entries).Has e ↔ _
    rw [EventSet.has_or, ih, has_accepts]
    constructor
    · intro hend
      obtain ⟨s, rfl, h⟩ | ⟨s, hs, h⟩ := hend
      · exact ⟨s, List.mem_cons_self, h⟩
      · exact ⟨s, List.mem_cons_of_mem _ hs, h⟩
    · intro hend
      obtain ⟨s, hs, h⟩ := hend
      rcases List.mem_cons.mp hs with hs | hs
      · exact Or.inl ⟨s, hs.symm, h⟩
      · exact Or.inr ⟨s, hs, h⟩

theorem acceptedIn_accepted (sets : List EventSet) (e : Event) :
    (acceptedIn (sets.map TraceEntry.accepted)).Has e ↔ ∃ s ∈ sets, EventSet.Has s e := by
  rw [has_acceptedIn]
  constructor
  · intro hend
    obtain ⟨s, hs, he⟩ := hend
    obtain ⟨t, ht, heq⟩ := List.mem_map.mp hs
    cases heq
    exact ⟨s, ht, he⟩
  · intro hend
    obtain ⟨s, hs, he⟩ := hend
    exact ⟨s, List.mem_map_of_mem hs, he⟩

/-! ## accounts -/

namespace Host

/-- The way from `h₀` to `h`: the trace grew by `entries`, and the mailbox would have all that it
had and accepted if its consumer gave `owed` back. -/
structure Leads (entries : List TraceEntry) (owed : EventSet) (h₀ h : Host) : Prop where
  trace_eq : h.trace.toList = h₀.trace.toList ++ entries
  claimed_eq : h.mailbox.claimed = h₀.mailbox.claimed
  pending_eq : h.mailbox.pending ||| owed = h₀.mailbox.pending ||| acceptedIn entries

/-- The same, told by the requests that were made. -/
def Since (h₀ : Host) (owed : EventSet) (rs : List Request) (h : Host) : Prop :=
  ∃ entries, Leads entries owed h₀ h ∧ requestsIn entries = rs

/-- The trace grew by entries with the requests `rs`. -/
def Grown (h₀ : Host) (rs : List Request) (h : Host) : Prop :=
  ∃ entries, h.trace.toList = h₀.trace.toList ++ entries ∧ requestsIn entries = rs

variable {h₀ h h' : Host} {owed : EventSet} {rs : List Request}

theorem since_refl (h : Host) : Since h EventSet.empty [] h :=
  ⟨[], ⟨(List.append_nil _).symm, rfl, rfl⟩, rfl⟩

theorem Since.no_more (hs : Since h₀ owed rs h) : Since h₀ owed (rs ++ []) h := by
  rw [List.append_nil]
  exact hs

theorem Since.grown (hs : Since h₀ owed rs h) : Grown h₀ rs h := by
  obtain ⟨entries, hl, hr⟩ := hs
  exact ⟨entries, hl.trace_eq, hr⟩

theorem Since.same (hs : Since h₀ owed rs h) (ht : h'.trace = h.trace)
    (hm : h'.mailbox = h.mailbox) : Since h₀ owed rs h' := by
  obtain ⟨entries, ⟨hl, hc, hp⟩, hr⟩ := hs
  refine ⟨entries, ⟨?_, ?_, ?_⟩, hr⟩
  · rw [ht, hl]
  · rw [hm, hc]
  · rw [hm, hp]

/-- One more entry, and in the mailbox the events it tells of. -/
theorem Since.push (hs : Since h₀ owed rs h) (h' : Host) (e : TraceEntry)
    (ht : h'.trace = h.trace.push e)
    (hm : h'.mailbox = { h.mailbox with pending := h.mailbox.pending ||| e.accepts }) :
    Since h₀ owed (rs ++ e.request?.toList) h' := by
  obtain ⟨entries, ⟨hl, hc, hp⟩, hr⟩ := hs
  refine ⟨entries ++ [e], ⟨?_, ?_, ?_⟩, ?_⟩
  · rw [ht, Array.toList_push, hl, List.append_assoc]
  · rw [hm, ← hc]
  · rw [hm, acceptedIn_append, acceptedIn_single, ← BitVec.or_assoc, ← hp, BitVec.or_assoc,
      BitVec.or_assoc, BitVec.or_comm owed]
  · rw [requestsIn_append, requestsIn_single, hr]

theorem Since.note (hs : Since h₀ owed rs h) (e : LogEntry) : Since h₀ owed rs (h.note e) :=
  hs.same rfl rfl

theorem Since.push_record (hs : Since h₀ owed rs h) (e : TraceEntry)
    (ha : e.accepts = EventSet.empty) :
    Since h₀ owed (rs ++ e.request?.toList) (h.record e) := by
  refine hs.push (h.record e) e rfl ?_
  rw [ha, EventSet.empty, BitVec.or_zero]
  rfl

theorem Since.recordAsked (hs : Since h₀ owed rs h) (now : Nat) (request : Request)
    (timeout : Nat) : Since h₀ owed (rs ++ [request]) (h.record (.asked now request timeout)) :=
  hs.push_record (.asked now request timeout) rfl

theorem Since.record (hs : Since h₀ owed rs h) (e : TraceEntry) (ha : e.accepts = EventSet.empty)
    (hr : e.request? = none) : Since h₀ owed rs (h.record e) := by
  have hp := hs.push_record e ha
  rw [hr, Option.toList_none, List.append_nil] at hp
  exact hp

/-! ### the consumer -/

theorem Since.take (hs : Since h₀ owed rs h) (target : EventSet) :
    Since h₀ (owed ||| (port.take target h).1) rs (port.take target h).2 := by
  obtain ⟨entries, ⟨hl, hc, hp⟩, hr⟩ := hs
  refine ⟨entries, ⟨hl, hc, ?_⟩, hr⟩
  show (h.mailbox.pending &&& ~~~target) ||| (owed ||| (h.mailbox.pending &&& target)) = _
  rw [BitVec.or_comm owed, ← BitVec.or_assoc, EventSet.diff_or_inter, hp]

theorem Since.take_none {target : EventSet} (hs : Since h₀ owed rs h)
    (hnone : (port.take target h).1 = EventSet.empty) :
    Since h₀ owed rs (port.take target h).2 := by
  have ht := hs.take target
  rw [hnone, EventSet.empty, BitVec.or_zero] at ht
  exact ht

theorem Since.putBack {events : EventSet} (hs : Since h₀ (owed ||| events) rs h) :
    Since h₀ owed rs (port.putBack events h) := by
  obtain ⟨entries, ⟨hl, hc, hp⟩, hr⟩ := hs
  refine ⟨entries, ⟨hl, hc, ?_⟩, hr⟩
  show (h.mailbox.pending ||| events) ||| owed = _
  rw [BitVec.or_assoc, BitVec.or_comm events, hp]

/-! ### producers and actions -/

theorem Since.signal (hs : Since h₀ owed rs h) {events : EventSet}
    (hok : h.signal events = .ok h') : Since h₀ owed rs h' := by
  obtain ⟨_, rfl⟩ := eq_of_signal_eq_ok hok
  have hp := hs.push ({ h with mailbox :=
    { h.mailbox with pending := h.mailbox.pending ||| events } }.record (.accepted events))
    (.accepted events) rfl rfl
  exact List.append_nil rs ▸ hp

theorem Since.signalOrNote (hs : Since h₀ owed rs h) (events : EventSet) (failure : LogEntry) :
    Since h₀ owed rs (h.signalOrNote events failure) := by
  unfold Host.signalOrNote
  split
  · exact hs.signal (by assumption)
  · exact hs.note _

theorem Since.signalAccepted (hs : Since h₀ owed rs h) (events : EventSet) :
    Since h₀ owed rs (h.signalAccepted events).2 := by
  unfold Host.signalAccepted
  split
  · exact hs.signal (by assumption)
  · exact hs

theorem Since.report (hs : Since h₀ owed rs h) (s : RadioStatus) :
    Since h₀ owed rs (h.report s) := by
  have hn : Since h₀ owed rs ({ h with status := s }.note (.statusReported h.status s)) :=
    hs.same rfl rfl
  exact hn.signalOrNote _ _

theorem Since.reportCodes (hs : Since h₀ owed rs h) (codes : List UInt8) :
    Since h₀ owed rs (h.reportCodes codes) := by
  induction codes generalizing h with
  | nil => exact hs
  | cons code codes ih => exact ih (hs.report (RadioStatus.ofCode code))

theorem Since.observe (hs : Since h₀ owed rs h) (s : Snapshot) :
    Since h₀ owed rs (h.observe s) := by
  have hseen : Since h₀ owed rs { h with seen := s } := hs.same rfl rfl
  unfold Host.observe
  dsimp only
  split
  · exact hseen
  · exact (hseen.note _).signalOrNote _ _

theorem Since.changeInterface (hs : Since h₀ owed rs h) (i : Interface) :
    Since h₀ owed rs (h.changeInterface i) := by
  have hi : Since h₀ owed rs { h with interface := i } := hs.same rfl rfl
  unfold Host.changeInterface
  dsimp only
  split
  · exact hi.observe _
  · exact hi

theorem Since.use (hs : Since h₀ owed rs h) (now : Nat) (call : InterfaceCall) :
    Since h₀ owed rs (h.use now call).2 := by
  have hr := hs.record (.called now call) rfl rfl
  unfold Host.use
  dsimp only
  split
  · exact hr
  · exact hr.changeInterface _

theorem Since.perform (hs : Since h₀ owed rs h) (a : Action) :
    Since h₀ owed rs (a.perform h).2 := by
  cases a with
  | reportCode code => exact hs.report _
  | report status => exact hs.report _
  | stackReady => exact hs.signalAccepted _
  | requestReconnect => exact hs.signalAccepted _
  | signal events =>
    unfold Action.perform
    dsimp only
    split
    · exact hs.signal (by assumption)
    · exact hs
  | observe snapshot => exact hs.observe _
  | changeInterface flags ipv4 => exact hs.changeInterface _
  | addWaiting n => exact hs.same rfl rfl
  | subWaiting n => exact hs.same rfl rfl
  | writeStore ssid psk => exact hs.same rfl rfl
  | configureInterface change => exact hs.same rfl rfl
  | configureCoprocessor change => exact hs.same rfl rfl

theorem Since.fire (hs : Since h₀ owed rs h) (t : Nat) (as : List Action) :
    Since h₀ owed rs (Uplink.fire t as h) :=
  fire_induction t as hs fun a _ _ hs => (hs.perform a).record (.fired t a _) rfl rfl

end Host

/-! ## routines -/

namespace HostRoutine

open Host

variable {β γ : Type}

/-- The routine keeps the accounts: it owes the mailbox as much when it returns as when it started,
and then its requests are such that `R`.  If it comes to a halt, they are such that `E`. -/
def Asks (x : HostRoutine β) (R E : List Request → Prop) : Prop :=
  ∀ ⦃h₀ : Host⦄ ⦃owed : EventSet⦄ ⦃rs : List Request⦄ (tl : Timeline Action Host),
    Since h₀ owed rs tl.world →
      x.Ends tl (fun _ tl' => ∃ more, R more ∧ Since h₀ owed (rs ++ more) tl'.world)
        (fun tl' => ∃ more, E more ∧ Grown h₀ (rs ++ more) tl'.world)

/-- The routine keeps the accounts, asks nothing, and returns. -/
abbrev Keeps (x : HostRoutine β) : Prop := Asks x (· = []) fun _ => False

/-- The routine keeps the accounts and asks nothing. -/
abbrev Quiet (x : HostRoutine β) : Prop := Asks x (· = []) (· = [])

section
variable {x : HostRoutine β} {f : β → HostRoutine γ} {R R₁ R₂ E E₁ E₂ : List Request → Prop}

theorem Asks.imp (hx : Asks x R₁ E₁) (hR : ∀ rs, R₁ rs → R rs) (hE : ∀ rs, E₁ rs → E rs) :
    Asks x R E := by
  intro h₀ owed rs tl hs
  refine (hx tl hs).imp ?_ ?_
  · intro b tl' h
    obtain ⟨more, hm, hs'⟩ := h
    exact ⟨more, hR more hm, hs'⟩
  · intro tl' h
    obtain ⟨more, hm, hg⟩ := h
    exact ⟨more, hE more hm, hg⟩

theorem Asks.bind (hx : Asks x R₁ E₁) (hf : ∀ b, Asks (f b) R₂ E₂)
    (hR : ∀ as bs, R₁ as → R₂ bs → R (as ++ bs)) (hE : ∀ as, E₁ as → E as)
    (hE' : ∀ as bs, R₁ as → E₂ bs → E (as ++ bs)) : Asks (x >>= f) R E := by
  intro h₀ owed rs tl hs
  refine Routine.ends_bind.mpr ((hx tl hs).imp ?_ ?_)
  · intro b tl₁ h
    obtain ⟨as, has, hs₁⟩ := h
    refine (hf b tl₁ hs₁).imp ?_ ?_
    · intro c tl₂ h
      obtain ⟨bs, hbs, hs₂⟩ := h
      rw [List.append_assoc] at hs₂
      exact ⟨as ++ bs, hR as bs has hbs, hs₂⟩
    · intro tl₂ h
      obtain ⟨bs, hbs, hg⟩ := h
      rw [List.append_assoc] at hg
      exact ⟨as ++ bs, hE' as bs has hbs, hg⟩
  · intro tl₁ h
    obtain ⟨as, has, hg⟩ := h
    exact ⟨as, hE as has, hg⟩

theorem Keeps.then (hx : Keeps x) (hf : ∀ b, Asks (f b) R E) : Asks (x >>= f) R E := by
  refine hx.bind hf ?_ (fun _ h => h.elim) ?_
  · intro as bs heq hbs
    subst heq
    exact hbs
  · intro as bs heq hbs
    subst heq
    exact hbs

/-- What asks nothing may come last. -/
theorem Asks.quietly (hx : Asks x R E) (hf : ∀ b, Quiet (f b)) (hRE : ∀ rs, R rs → E rs) :
    Asks (x >>= f) R E := by
  refine hx.bind hf ?_ (fun _ h => h) ?_
  · intro as bs has heq
    subst heq
    rw [List.append_nil]
    exact has
  · intro as bs has heq
    subst heq
    rw [List.append_nil]
    exact hRE as has

theorem Keeps.quiet (hx : Keeps x) : Quiet x := hx.imp (fun _ h => h) fun _ h => h.elim

end

theorem keeps_pure (b : β) : Keeps (pure b : HostRoutine β) := by
  intro h₀ owed rs tl hs
  exact Routine.ends_pure ⟨[], rfl, hs.no_more⟩

theorem keeps_world : Keeps (Routine.world : HostRoutine Host) := by
  intro h₀ owed rs tl hs
  exact ⟨[], rfl, hs.no_more⟩

theorem keeps_now : Keeps (Routine.now : HostRoutine Nat) := by
  intro h₀ owed rs tl hs
  exact ⟨[], rfl, hs.no_more⟩

theorem keeps_act {f : Nat → Host → β × Host}
    (hf : ∀ {h₀ owed rs} now {h}, Since h₀ owed rs h → Since h₀ owed rs (f now h).2) :
    Keeps (Routine.act f) := by
  intro h₀ owed rs tl hs
  exact Routine.ends_act ⟨[], rfl, (hf tl.now hs).no_more⟩

theorem keeps_change {f : Host → Host}
    (hf : ∀ {h₀ owed rs h}, Since h₀ owed rs h → Since h₀ owed rs (f h)) :
    Keeps (Routine.change f) :=
  keeps_act (f := fun _ h => ((), f h)) fun _ _ hs => hf hs

theorem keeps_note (e : LogEntry) : Keeps (note e) := keeps_change fun hs => hs.note e

theorem keeps_status : Keeps status := keeps_world.then fun h => keeps_pure h.status

theorem quiet_await {ρ : Type} {w : Wait Host ρ β}
    (hlook : ∀ {h₀ owed rs} t r {h}, Since h₀ owed rs h → Since h₀ owed rs (w.look t r h).2)
    (hexpire : ∀ {h₀ owed rs} r {h}, Since h₀ owed rs h → Since h₀ owed rs (w.expire r h).2)
    (deadline : Option Nat) (r : ρ) : Quiet (Routine.await w deadline r) := by
  intro h₀ owed rs tl hs
  have hover : Routine.Over (fun _ _ h => Since h₀ owed rs h)
      (fun _ (_ : ρ) h => Since h₀ owed rs h) tl.agenda [] (Routine.await w deadline r tl) := by
    refine Routine.await_over (I := fun _ _ h => Since h₀ owed rs h) ?_ ?_ ?_ hs
    · intro _ t r h hs
      have hl := hlook t r hs
      rcases hw : w.look t r h with ⟨v | r', h'⟩ <;> (rw [hw] at hl; exact hl)
    · intro _ r h t as hs
      exact hs.fire t as
    · intro _ r h hs
      exact hexpire r hs
  have hend : (Routine.await w deadline r).Ends tl (fun _ tl' => Since h₀ owed rs tl'.world)
      fun tl' => Grown h₀ rs tl'.world :=
    hover.ended (fun _ _ _ hs => hs) fun _ _ _ hs => hs.grown
  refine hend.imp ?_ ?_
  · intro b tl' hs'
    exact ⟨[], rfl, hs'.no_more⟩
  · intro tl' hg
    exact ⟨[], rfl, by rwa [List.append_nil]⟩

theorem quiet_sleep (ticks : Nat) : Quiet (Routine.sleep ticks) := by
  intro h₀ owed rs tl hs
  have hquiet := quiet_await (w := Routine.timer) (fun _ _ _ hs => hs) (fun _ _ hs => hs)
    (Clock.after? tl.now ticks) () tl hs
  unfold Routine.Ends Routine.sleep
  cases hc : Clock.after? tl.now ticks with
  | none => exact ⟨[], rfl, hs.no_more.grown⟩
  | some t =>
    rw [hc] at hquiet
    exact hquiet

end HostRoutine

end Uplink
