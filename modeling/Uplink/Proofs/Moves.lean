import Mathlib.Logic.Relation
import Uplink.Proofs.Handling
import Uplink.Proofs.Replay

/-!
# Moves

Whatever happens to a host in the course of a session, it happens move by move: a move of its
manager, or an action of the agenda.  The manager never takes an event that is not known.

* `Host.Owns`, `Host.Moves`  moves of the manager, and moves of anybody;
* `Host.Retold`             what an account needs to be kept by reading the trace alone;
* `Host.Moves.writes`        every such account is kept, over any number of moves;
* `Host.Moves.hoards`         bits that name no event stay in the mailbox.
-/

namespace Uplink

namespace EventSet

/-- The bits that name no event. -/
def stray (s : EventSet) : EventSet := s &&& ~~~known

theorem getLsbD_stray (s : EventSet) (i : Nat) :
    s.stray.getLsbD i = (s.getLsbD i && !known.getLsbD i) := getLsbD_diff s known i

theorem covers_stray (s : EventSet) : s.Covers s.stray := by
  rw [covers_iff]
  intro i hi
  rw [getLsbD_stray, Bool.and_eq_true] at hi
  exact hi.1

end EventSet

/-- The action tells the manager something, and does nothing else. -/
def Action.tells : Action → Bool
  | reportCode _ | report _ | stackReady | requestReconnect | signal _ => true
  | _ => false

/-- The action of the agenda of which an entry tells. -/
def TraceEntry.action? : TraceEntry → Option Action
  | fired _ a _ => some a
  | _ => none

namespace Host

/-- One thing that the manager does to its host, or that a response brings. -/
inductive Own : Host → Host → Prop
  | note {h : Host} (e : LogEntry) : Own h (h.note e)
  /-- It becomes the consumer of the mailbox. -/
  | claim {h : Host} : Own h { h with mailbox := { h.mailbox with claimed := true } }
  /-- It takes known events only. -/
  | take {h : Host} {target : EventSet} : EventSet.known.Covers target →
    Own h (port.take target h).2
  | putBack {h : Host} (events : EventSet) : Own h (port.putBack events h)
  | ask {h : Host} (coprocessor : Coprocessor) (now : Nat) (request : Request) (timeout : Nat) :
    Own h ({ h with coprocessor }.record (.asked now request timeout))
  | report {h : Host} (status : RadioStatus) : Own h (h.report status)
  | use {h : Host} (now : Nat) (call : InterfaceCall) : Own h (h.use now call).2
  /-- It passes on that somebody wants a reconnect. -/
  | request {h : Host} : Own h (h.signalAccepted (.single .reconnectRequested)).2

/-- One thing that happens to a host. -/
inductive Move : Host → Host → Prop
  | own {h h' : Host} : Own h h' → Move h h'
  | react {h : Host} (now : Nat) (a : Action) : Move h (Reactive.react now a h)

abbrev Owns : Host → Host → Prop := Relation.ReflTransGen Own

abbrev Moves : Host → Host → Prop := Relation.ReflTransGen Move

variable {h₀ h h₁ h' : Host}

theorem Owns.moves (ho : Owns h h') : Moves h h' := by
  apply Relation.ReflTransGen.mono _ _ _ ho
  intro a b hstep
  exact .own hstep

theorem Handles.owns (hh : Handles h h') : Owns h h' := by
  apply Relation.ReflTransGen.mono _ _ _ hh
  intro a b hstep
  cases hstep with
  | note e => exact .note e
  | use now call => exact .use now call

theorem Owns.note (ho : Owns h₀ h) (e : LogEntry) : Owns h₀ (h.note e) := ho.tail (.note e)

theorem owns_take (h : Host) {target : EventSet} (ht : EventSet.known.Covers target) :
    Owns h (port.take target h).2 := .single (.take ht)

theorem owns_reportCodes (h : Host) (codes : List UInt8) : Owns h (h.reportCodes codes) := by
  induction codes generalizing h with
  | nil => exact .refl
  | cons code codes ih => exact (Relation.ReflTransGen.single (.report _)).trans (ih _)

theorem moves_fire (h : Host) (t : Nat) (as : List Action) : Moves h (Uplink.fire t as h) :=
  fire_induction t as .refl fun a _ _ hm => hm.tail (.react t a)

/-! ## what producers touch -/

section
variable (h : Host) (events : EventSet)

/-- A producer whose events are accepted touches mailbox and trace. -/
theorem exists_signal_eq {h h' : Host} {events : EventSet} (hok : h.signal events = .ok h') :
    ∃ mailbox trace, h' = { h with mailbox, trace } := by
  obtain ⟨_, rfl⟩ := eq_of_signal_eq_ok hok
  exact ⟨_, _, rfl⟩

theorem exists_signalOrNote_eq (failure : LogEntry) :
    ∃ mailbox trace log, h.signalOrNote events failure = { h with mailbox, trace, log } := by
  rw [signalOrNote_eq]
  split
  · exact ⟨_, _, h.log, rfl⟩
  · exact ⟨h.mailbox, h.trace, _, rfl⟩

theorem exists_signalAccepted_eq :
    ∃ mailbox trace, (h.signalAccepted events).2 = { h with mailbox, trace } := by
  unfold signalAccepted
  split
  · rename_i h' hok
    exact exists_signal_eq hok
  · exact ⟨h.mailbox, h.trace, rfl⟩

theorem exists_report_eq (status : RadioStatus) :
    ∃ mailbox trace log, h.report status = { h with mailbox, status, trace, log } := by
  obtain ⟨mailbox, trace, log, heq⟩ := exists_signalOrNote_eq
    ({ h with status }.note (.statusReported h.status status)) (.single .statusUpdated)
    .statusDropped
  exact ⟨mailbox, trace, log, heq⟩

theorem exists_tells_eq {a : Action} (ha : a.tells = true) (h : Host) :
    ∃ mailbox status trace log, (a.perform h).2 = { h with mailbox, status, trace, log } := by
  cases a with
  | reportCode code =>
    obtain ⟨mailbox, trace, log, heq⟩ := exists_report_eq h (RadioStatus.ofCode code)
    exact ⟨mailbox, _, trace, log, heq⟩
  | report status =>
    obtain ⟨mailbox, trace, log, heq⟩ := exists_report_eq h status
    exact ⟨mailbox, _, trace, log, heq⟩
  | stackReady =>
    obtain ⟨mailbox, trace, heq⟩ := exists_signalAccepted_eq h (.single .linkStackReady)
    exact ⟨mailbox, h.status, trace, h.log, heq⟩
  | requestReconnect =>
    obtain ⟨mailbox, trace, heq⟩ := exists_signalAccepted_eq h (.single .reconnectRequested)
    exact ⟨mailbox, h.status, trace, h.log, heq⟩
  | signal events =>
    unfold Action.perform
    dsimp only
    split
    · rename_i h' hok
      obtain ⟨mailbox, trace, rfl⟩ := exists_signal_eq hok
      exact ⟨mailbox, h.status, trace, h.log, rfl⟩
    · exact ⟨h.mailbox, h.status, h.trace, h.log, rfl⟩
  | _ => cases ha

theorem exists_observe_eq (s : Snapshot) :
    ∃ mailbox trace log, h.observe s = { h with mailbox, seen := s, trace, log } := by
  unfold observe
  dsimp only
  split
  · exact ⟨h.mailbox, h.trace, h.log, rfl⟩
  · obtain ⟨mailbox, trace, log, heq⟩ := exists_signalOrNote_eq
      ({ h with seen := s }.note (.interfaceChanged (Snapshot.eventsBetween h.seen s)))
      (Snapshot.eventsBetween h.seen s) .interfaceChangeDropped
    exact ⟨mailbox, trace, log, heq⟩

end

/-! ## accounts kept from the trace -/

/-- An account of a host, and what each entry of the trace makes of it.  Neither the mailbox nor the
co-processor has a part in it, so that calls and actions alone matter. -/
structure Retold {ν : Type} (view : Host → ν) (after : ν → TraceEntry → ν) : Prop where
  frame : ∀ (h : Host) mailbox status coprocessor trace log,
    view { h with mailbox, status, coprocessor, trace, log } = view h
  asked : ∀ v now request timeout, after v (.asked now request timeout) = v
  accepted : ∀ v events, after v (.accepted events) = v
  called : ∀ h now call, view (h.use now call).2 = after (view h) (.called now call)
  fired : ∀ h now a result, view (Action.perform a h).2 = after (view h) (.fired now a result)

/-- The way from `h` to `h'`: the trace grew by `entries`, and they tell what became of any
account. -/
structure Writes (entries : List TraceEntry) (h h' : Host) : Prop where
  trace_eq : h'.trace.toList = h.trace.toList ++ entries
  view_eq : ∀ {ν : Type} {view : Host → ν} {after : ν → TraceEntry → ν}, Retold view after →
    view h' = entries.foldl after (view h)

variable {as bs : List TraceEntry}

theorem writes_refl (h : Host) : Writes [] h h := ⟨(List.append_nil _).symm, fun _ => rfl⟩

theorem Writes.trans (ha : Writes as h h₁) (hb : Writes bs h₁ h') : Writes (as ++ bs) h h' where
  trace_eq := by rw [hb.trace_eq, ha.trace_eq, List.append_assoc]
  view_eq hf := by rw [hb.view_eq hf, ha.view_eq hf, List.foldl_append]

theorem Retold.foldl_accepted {ν : Type} {view : Host → ν} {after : ν → TraceEntry → ν}
    (hf : Retold view after) (v : ν) (sets : List EventSet) :
    (sets.map TraceEntry.accepted).foldl after v = v := by
  induction sets with
  | nil => rfl
  | cons events sets ih =>
    show (sets.map TraceEntry.accepted).foldl after (after v (.accepted events)) = v
    rw [hf.accepted, ih]

/-- **An action that only tells something** leaves every account as it is. -/
theorem writes_tells {a : Action} (ha : a.tells = true) (h : Host) :
    ∃ sets : List EventSet, Writes (sets.map TraceEntry.accepted) h (a.perform h).2 := by
  obtain ⟨sets, hsets⟩ := trace_perform a h
  obtain ⟨mailbox, status, trace, log, heq⟩ := exists_tells_eq ha h
  refine ⟨sets, hsets, fun hf => ?_⟩
  rw [hf.foldl_accepted, heq]
  exact hf.frame h mailbox status h.coprocessor trace log

theorem writes_use (h : Host) (now : Nat) (call : InterfaceCall) : ∃ sets : List EventSet,
    Writes (.called now call :: sets.map TraceEntry.accepted) h (h.use now call).2 := by
  obtain ⟨sets, ht⟩ := told_use h now call
  refine ⟨sets, ?_, fun hf => ?_⟩
  · rw [ht.trace_eq]
    show (h.trace.push (.called now call)).toList ++ _ = _
    simp
  · rw [hf.called, List.foldl_cons, hf.foldl_accepted]

/-- **A move of the manager** is no action of the agenda. -/
theorem Own.writes (ho : Own h h') :
    ∃ entries, Writes entries h h' ∧ ∀ e ∈ entries, e.action? = none := by
  have hsilent : ∀ sets : List EventSet, ∀ e ∈ sets.map TraceEntry.accepted, e.action? = none := by
    intro sets e he
    obtain ⟨events, _, rfl⟩ := List.mem_map.mp he
    rfl
  have hnothing : ∀ e ∈ ([] : List TraceEntry), e.action? = none :=
    fun e he => absurd he List.not_mem_nil
  cases ho with
  | note e =>
    exact ⟨[], ⟨(List.append_nil _).symm, fun hf => hf.frame h _ _ _ _ (h.log.push e)⟩, hnothing⟩
  | claim => exact ⟨[], ⟨(List.append_nil _).symm, fun hf => hf.frame h _ _ _ _ _⟩, hnothing⟩
  | take ht =>
    exact ⟨[], ⟨(List.append_nil _).symm, fun hf => hf.frame h _ _ _ _ _⟩, hnothing⟩
  | putBack events =>
    exact ⟨[], ⟨(List.append_nil _).symm, fun hf => hf.frame h _ _ _ _ _⟩, hnothing⟩
  | ask coprocessor now request timeout =>
    refine ⟨[.asked now request timeout], ⟨Array.toList_push, fun {ν view after} hf => ?_⟩, ?_⟩
    · show _ = after (view h) (.asked now request timeout)
      rw [hf.asked]
      exact hf.frame h h.mailbox h.status coprocessor _ h.log
    · simp [TraceEntry.action?]
  | report status =>
    obtain ⟨sets, hw⟩ := writes_tells (a := .report status) rfl h
    exact ⟨_, hw, hsilent sets⟩
  | use now call =>
    obtain ⟨sets, hw⟩ := writes_use h now call
    exact ⟨_, hw, List.forall_mem_cons.mpr ⟨rfl, hsilent sets⟩⟩
  | request =>
    obtain ⟨sets, hw⟩ := writes_tells (a := .requestReconnect) rfl h
    exact ⟨_, hw, hsilent sets⟩

/-- **An action of the agenda** comes to the trace behind the events that it tells. -/
theorem writes_react (h : Host) (now : Nat) (a : Action) : ∃ sets : List EventSet,
    Writes (sets.map TraceEntry.accepted ++ [.fired now a (a.perform h).1]) h
      (Reactive.react now a h) := by
  obtain ⟨sets, ht⟩ := trace_perform a h
  refine ⟨sets, ?_, fun {ν view after} hf => ?_⟩
  · show ((a.perform h).2.trace.push _).toList = _
    rw [Array.toList_push, ht, List.append_assoc]
  · rw [List.foldl_append, hf.foldl_accepted]
    show view ((a.perform h).2.record _) = after (view h) _
    rw [← hf.fired h now a (a.perform h).1]
    exact hf.frame (a.perform h).2 _ _ _ _ _

theorem Move.writes (hm : Move h h') : ∃ entries, Writes entries h h' := by
  cases hm with
  | own ho =>
    obtain ⟨entries, hw, _⟩ := ho.writes
    exact ⟨entries, hw⟩
  | react now a =>
    obtain ⟨sets, hw⟩ := writes_react h now a
    exact ⟨_, hw⟩

/-- **The trace tells of all moves.** -/
theorem Moves.writes (hm : Moves h h') : Writes (entriesSince h h') h h' := by
  have hsome : ∃ entries, Writes entries h h' := by
    induction hm with
    | refl => exact ⟨[], writes_refl h⟩
    | tail _ hstep ih =>
      obtain ⟨as, ha⟩ := ih
      obtain ⟨bs, hb⟩ := hstep.writes
      exact ⟨as ++ bs, ha.trans hb⟩
  obtain ⟨entries, hw⟩ := hsome
  rw [entriesSince_eq hw.trace_eq]
  exact hw

theorem Moves.entriesSince_trans (ha : Moves h h₁) (hb : Moves h₁ h') :
    entriesSince h h' = entriesSince h h₁ ++ entriesSince h₁ h' :=
  entriesSince_eq (ha.writes.trans hb.writes).trace_eq

/-- While only the manager moves, no action of the agenda happens. -/
theorem Owns.entries (ho : Owns h h') : ∀ e ∈ entriesSince h h', e.action? = none := by
  induction ho with
  | refl =>
    rw [entriesSince_eq (writes_refl h).trace_eq]
    exact fun e he => absurd he List.not_mem_nil
  | @tail h₁ h₂ hfirst hstep ih =>
    obtain ⟨entries, hw, hentries⟩ := hstep.writes
    rw [Moves.entriesSince_trans (Owns.moves hfirst) (.single (.own hstep)),
      entriesSince_eq hw.trace_eq]
    exact List.forall_mem_append.mpr ⟨ih, hentries⟩

/-! ## stray events -/

/-- On the way from `h` to `h'` no stray event is lost. -/
def Hoards (h h' : Host) : Prop :=
  h'.mailbox.pending.Covers (h.mailbox.pending ||| acceptedIn (entriesSince h h')).stray

theorem hoards_of_since {rs : List Request} (hs : Since h EventSet.empty rs h') : Hoards h h' := by
  obtain ⟨entries, hl, _⟩ := hs
  have hpending := hl.pending_eq
  rw [EventSet.empty, BitVec.or_zero] at hpending
  unfold Hoards
  rw [entriesSince_eq hl.trace_eq, ← hpending]
  exact EventSet.covers_stray h'.mailbox.pending

theorem hoards_of_trace_eq (ht : h'.trace = h.trace)
    (hp : h'.mailbox.pending.Covers h.mailbox.pending.stray) : Hoards h h' := by
  have hnone : entriesSince h h' = [] := entriesSince_eq (by rw [ht, List.append_nil])
  unfold Hoards
  rw [hnone, show acceptedIn [] = EventSet.empty from rfl, EventSet.empty, BitVec.or_zero]
  exact hp

theorem Move.hoards (hm : Move h h') : Hoards h h' := by
  cases hm with
  | react now a => exact hoards_of_since (((since_refl h).perform a).record _ rfl rfl)
  | own ho =>
    cases ho with
    | note e => exact hoards_of_since ((since_refl h).note e)
    | claim => exact hoards_of_trace_eq rfl (EventSet.covers_stray h.mailbox.pending)
    | @take target ht =>
      refine hoards_of_trace_eq rfl ?_
      show (h.mailbox.pending &&& ~~~target).Covers _
      rw [EventSet.covers_iff]
      intro i hi
      rw [EventSet.getLsbD_stray, Bool.and_eq_true, Bool.not_eq_true'] at hi
      rw [EventSet.getLsbD_diff, hi.1, Bool.true_and, Bool.not_eq_true', ← Bool.not_eq_true]
      intro htarget
      rw [(EventSet.covers_iff _ _).mp ht i htarget] at hi
      simp at hi
    | putBack events =>
      refine hoards_of_trace_eq rfl ?_
      show (h.mailbox.pending ||| events).Covers _
      rw [EventSet.covers_iff]
      intro i hi
      rw [EventSet.getLsbD_stray, Bool.and_eq_true] at hi
      rw [BitVec.getLsbD_or, hi.1, Bool.true_or]
    | ask coprocessor now request timeout =>
      have hs : Since h EventSet.empty [] { h with coprocessor } := (since_refl h).same rfl rfl
      exact hoards_of_since (hs.recordAsked now request timeout)
    | report status => exact hoards_of_since ((since_refl h).report status)
    | use now call => exact hoards_of_since ((since_refl h).use now call)
    | request => exact hoards_of_since ((since_refl h).perform .requestReconnect)

/-- **No move loses a stray event**: what is pending or accepted stays pending. -/
theorem Moves.hoards (hm : Moves h h') : Hoards h h' := by
  induction hm with
  | refl => exact hoards_of_since (since_refl h)
  | @tail h₁ h₂ hfirst hstep ih =>
    have hlast := hstep.hoards
    unfold Hoards at ih hlast ⊢
    rw [Moves.entriesSince_trans hfirst (.single hstep), acceptedIn_append]
    rw [EventSet.covers_iff] at ih hlast ⊢
    intro i hi
    apply hlast i
    simp only [EventSet.getLsbD_stray, BitVec.getLsbD_or, Bool.and_eq_true, Bool.or_eq_true]
      at hi ih ⊢
    obtain ⟨hsome, hstray⟩ := hi
    refine ⟨?_, hstray⟩
    obtain hpending | hbefore | hafter := hsome
    · exact Or.inl (ih i ⟨Or.inl hpending, hstray⟩)
    · exact Or.inl (ih i ⟨Or.inr hbefore, hstray⟩)
    · exact Or.inr hafter

end Host
end Uplink
