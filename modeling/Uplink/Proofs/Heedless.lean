import Uplink.Proofs.CyclePhases
import Uplink.Proofs.Plain

/-!
# No heed to stray bits

Nothing that the manager does goes by a bit without a meaning: neither its own steps, nor the looks
of its waits, nor what it reads off its host.

* `Host.Heedless`         a step of the manager goes along with the plain form of its host;
* `Wait.Heedless`         so do the looks of a wait;
* `HostRoutine.Heedless`  a routine is made of such steps and waits;
* `Manager.heedless_run`  all that a manager does is, up to the whole of its life.
-/

namespace Uplink

open Host

/-- The manager does the same with the plain form of a host, up to the plain form of what it
leaves. -/
structure Host.Heedless {β : Type} (f : Nat → Host → β × Host) : Prop where
  plain : ∀ now h, f now h.plain = ((f now h).1, (f now h).2.plain)
  owns : ∀ now h, Owns h (f now h).2

theorem Host.Heedless.same {β : Type} {f : Nat → Host → β × Host} (hf : Host.Heedless f)
    (now : Nat) {h h' : Host} (hh : h.plain = h'.plain) :
    (f now h).1 = (f now h').1 ∧ (f now h).2.plain = (f now h').2.plain := by
  have hsame := hf.plain now h
  rw [hh, hf.plain now h'] at hsame
  obtain ⟨hanswer, hleft⟩ := Prod.mk.inj hsame
  exact ⟨hanswer.symm, hleft.symm⟩

/-- So it is with each look of a wait, and with its end at the deadline. -/
structure Wait.Heedless {ρ β : Type} (w : Wait Host ρ β) : Prop where
  look : ∀ r, Host.Heedless fun now h => w.look now r h
  expire : ∀ r, Host.Heedless fun _ h => w.expire r h

namespace HostRoutine

/-- The routine is made of steps, reads and waits that pay no heed to stray bits. -/
inductive Heedless : {β : Type} → HostRoutine β → Prop
  | pure {β : Type} (b : β) : Heedless (pure b)
  /-- What comes next may go by the answer of the step. -/
  | act {β γ : Type} {f : Nat → Host → β × Host} {g : β → HostRoutine γ} :
    Host.Heedless f → (∀ now h, Heedless (g (f now h).1)) → Heedless (Routine.act f >>= g)
  | read {γ : Type} {g : Host → HostRoutine γ} :
    (∀ h, g h.plain = g h) → (∀ h, Heedless (g h)) → Heedless (Routine.world >>= g)
  | await {ρ β : Type} {w : Wait Host ρ β} (deadline : Option Nat) (r : ρ) :
    w.Heedless → Heedless (Routine.await w deadline r)
  | limit (ticks : Nat) : Heedless (Routine.limit ticks)
  | halt {β : Type} (e : Halt) : Heedless (Routine.halt e : HostRoutine β)
  | bind {β γ : Type} {x : HostRoutine β} {f : β → HostRoutine γ} :
    Heedless x → (∀ b, Heedless (f b)) → Heedless (x >>= f)

/-! ## steps -/

section
variable {β γ : Type}

theorem heedless_act {f : Nat → Host → β × Host} (hf : Host.Heedless f) :
    Heedless (Routine.act f) := by
  rw [← bind_pure (Routine.act f)]
  exact .act hf fun _ _ => .pure _

theorem heedless_now : Heedless (Routine.now : HostRoutine Nat) :=
  heedless_act (f := fun now h => (now, h)) ⟨fun _ _ => rfl, fun _ _ => .refl⟩

theorem heedless_status : Heedless status := .read (fun _ => rfl) fun h => .pure h.status

theorem heedless_note (e : LogEntry) : Heedless (note e) :=
  heedless_act (f := fun _ h => ((), h.note e)) ⟨fun _ _ => rfl, fun _ _ => .single (.note e)⟩

theorem heedless_putBack {events : EventSet} (he : EventSet.known.Covers events) :
    Heedless (putBack events) := by
  apply heedless_act (f := fun _ h => ((), port.putBack events h))
  refine ⟨fun _ h => ?_, fun _ h => .single (.putBack events)⟩
  dsimp only
  rw [plain_putBack, EventSet.plain_of_covers he]

theorem heedless_reportCodes (codes : List UInt8) :
    Heedless (Routine.change (·.reportCodes codes)) :=
  heedless_act (f := fun _ h => ((), h.reportCodes codes))
    ⟨fun _ h => congrArg (Prod.mk ()) (h.plain_reportCodes codes).symm,
      fun _ h => owns_reportCodes h codes⟩

/-- What is taken is known, and what comes next may build on that. -/
theorem heedless_take {target : EventSet} {g : EventSet → HostRoutine γ}
    (ht : EventSet.known.Covers target)
    (hg : ∀ events, EventSet.known.Covers events → Heedless (g events)) :
    Heedless (take target >>= g) := by
  refine .act ⟨fun _ h => h.plain_take ht, fun _ h => owns_take h ht⟩ fun _ h => hg _ ?_
  show EventSet.known.Covers (h.mailbox.pending &&& target)
  rw [EventSet.covers_iff] at ht ⊢
  intro i hi
  rw [BitVec.getLsbD_and, Bool.and_eq_true] at hi
  exact ht i hi.2

end

/-! ## waits -/

theorem heedless_timer : Wait.Heedless (Routine.timer : Wait Host Unit Unit) :=
  ⟨fun _ => ⟨fun _ _ => rfl, fun _ _ => .refl⟩, fun _ => ⟨fun _ _ => rfl, fun _ _ => .refl⟩⟩

theorem heedless_sleep (ticks : Nat) : Heedless (Routine.sleep ticks) := by
  have hcut : (Routine.sleep ticks : HostRoutine Unit) = Routine.now >>= fun now =>
      (Clock.after? now ticks).elim (Routine.halt .overflow) fun t =>
        Routine.await Routine.timer (some t) () := by
    funext tl
    rw [Routine.bind_apply, Routine.now_apply]
    unfold Routine.sleep
    dsimp only
    cases Clock.after? tl.now ticks <;> rfl
  rw [hcut]
  refine heedless_now.bind fun now => ?_
  cases Clock.after? now ticks with
  | some t => exact .await _ () heedless_timer
  | none => exact .halt _

section
variable {target : EventSet} (ht : EventSet.known.Covers target)
include ht

theorem heedless_gather : Wait.Heedless (port.gather target) := by
  refine ⟨fun seen => ⟨fun _ h => ?_, fun _ h => ?_⟩, fun _ => ⟨fun _ _ => rfl, fun _ h => ?_⟩⟩
  · unfold Port.gather
    dsimp only
    rw [h.plain_take ht]
    split <;> rfl
  · unfold Port.gather
    dsimp only
    split <;> exact owns_take h ht
  · exact .single (.note _)

theorem heedless_deliver : Wait.Heedless (port.deliver target) := by
  refine ⟨fun _ => ⟨fun _ h => ?_, fun _ h => ?_⟩, fun _ => ⟨fun _ _ => rfl, fun _ _ => .refl⟩⟩
  · unfold Port.deliver
    dsimp only
    rw [h.plain_take ht]
    split <;> rfl
  · unfold Port.deliver
    dsimp only
    split <;> exact owns_take h ht

theorem heedless_awaitAll (timeout : Nat) : Heedless (awaitAll target timeout) :=
  heedless_now.bind fun _ => (heedless_note _).bind fun _ => .await _ _ (heedless_gather ht)

theorem heedless_awaitAny (timeout : Nat) : Heedless (awaitAny target timeout) :=
  heedless_now.bind fun _ => .await _ _ (heedless_deliver ht)

end

theorem covers_known_updates : EventSet.known.Covers updates := EventSet.covers_known_single _

theorem heedless_watch (accept : RadioStatus → Bool) (deadline : Option Nat) :
    Wait.Heedless (watch accept deadline) := by
  refine ⟨fun taken => ⟨fun now h => ?_, fun now h => ?_⟩,
    fun _ => ⟨fun _ _ => rfl, fun _ h => .single (.note _)⟩⟩
  · unfold watch
    dsimp only
    rw [h.plain_take covers_known_updates]
    show (if _ then _ else if accept (port.take updates h).2.status then _ else _) = _
    split
    · rfl
    · split
      · rfl
      · split <;> rfl
  · have htaken := owns_take h covers_known_updates
    unfold watch
    dsimp only
    split
    · exact htaken
    · split
      · exact htaken
      · split
        · exact htaken
        · exact htaken.note _

theorem heedless_awaitReport (accept : RadioStatus → Bool) (timeout : Nat) :
    Heedless (awaitReport accept timeout) := by
  refine heedless_now.bind fun start => ?_
  dsimp only
  split
  · exact .pure _
  · refine (heedless_note _).bind fun _ => ?_
    refine (Heedless.await _ _ (heedless_watch accept _)).bind fun r => ?_
    split
    · exact (heedless_putBack covers_known_updates).bind fun _ => .pure _
    · exact .pure _

/-! ## requests -/

theorem heedless_ask {α : Type} (request : Request)
    (draw : Coprocessor → Response α × Coprocessor) (timeout : Nat) :
    Heedless (ask request draw timeout) := by
  have hlate (response : Response α) : Heedless (do
      Routine.change (·.reportCodes response.late)
      return response.outcome : HostRoutine (Except TransportFault α)) :=
    (heedless_reportCodes _).bind fun _ => .pure _
  unfold ask
  refine .act ⟨fun now h => ?_, fun now h => .single (.ask _ now request timeout)⟩ fun _ _ => ?_
  · exact congrArg (Prod.mk _) (plain_record
      { h with coprocessor := (draw h.coprocessor).2 } (.asked now request timeout)).symm
  · refine (heedless_reportCodes _).bind fun _ => ?_
    dsimp only
    split
    · exact (heedless_sleep _).bind fun _ => .pure _
    · split
      · exact (heedless_sleep _).bind fun _ => hlate _
      · exact hlate _

end HostRoutine

/-! ## associations -/

namespace Association

open HostRoutine

variable (a : Association)

theorem heedless_request (c : Credentials) : Heedless (a.request c) := by
  refine heedless_take covers_known_updates fun stale hstale => ?_
  refine (heedless_ask _ _ _).bind fun answer => ?_
  split
  · exact (heedless_note _).bind fun _ => (heedless_putBack hstale).bind fun _ => .pure _
  · refine (heedless_awaitReport _ _).bind fun up => (heedless_putBack hstale).bind fun _ => ?_
    split
    · exact (heedless_note _).bind fun _ => .pure _
    · exact heedless_status.bind fun _ => (heedless_note _).bind fun _ => .pure _

theorem heedless_attempt : Heedless a.attempt := by
  refine (heedless_ask _ _ _).bind fun answer => ?_
  split
  · exact (heedless_note _).bind fun _ => .pure _
  · refine .read (fun _ => rfl) fun h => ?_
    split
    · exact (heedless_note _).bind fun _ => .pure _
    · exact (heedless_note _).bind fun _ => a.heedless_request _

theorem heedless_associate : Heedless a.associate :=
  (heedless_attempt _).bind fun _ => .pure _

theorem heedless_associateIfAllowed : Heedless a.associateIfAllowed := by
  refine heedless_status.bind fun current => ?_
  split
  · exact a.heedless_associate
  · exact (heedless_note _).bind fun _ => .pure _

theorem heedless_drop (timeout : Nat) : Heedless (drop timeout) :=
  (heedless_ask _ _ _).bind fun _ => .pure _

end Association

/-! ## the manager -/

namespace Manager

open HostRoutine

variable (m : Manager)

theorem phase_plain (h : Host) : m.phase h.plain = m.phase h := by
  have hlink := h.interface.snapshot.hasLink_plain
  unfold phase Phase.of
  simp only [show h.plain.interface.snapshot = h.interface.snapshot.plain from rfl, hlink]
  rfl

/-! ### work on the interface -/

section
variable (now : Nat) (h : Host)

theorem plain_startAcquisition : m.startAcquisition now h.plain
    = ((m.startAcquisition now h).1, (m.startAcquisition now h).2.plain) := by
  unfold startAcquisition
  rw [Host.plain_use]
  rcases h.use now .startAcquisition with ⟨e | ⟨⟩, h'⟩ <;> rfl

theorem plain_releaseAndStop : m.releaseAndStop now h.plain
    = ((m.releaseAndStop now h).1, (m.releaseAndStop now h).2.plain) := by
  unfold releaseAndStop
  rw [Host.plain_use]
  rcases h.use now .releaseAndStop with ⟨e | ⟨⟩, h'⟩ <;> rfl

theorem plain_reconcile : m.reconcileAddress now h.plain
    = ((m.reconcileAddress now h).1, (m.reconcileAddress now h).2.plain) := by
  unfold reconcileAddress
  rw [plain_startAcquisition, plain_releaseAndStop]
  rw [show h.plain.interface.snapshot.hasLink = h.interface.snapshot.hasLink from
    h.interface.snapshot.hasLink_plain]
  show (if h.interface.snapshot.hasLink then _ else
    if h.interface.snapshot.hasAddress || m.acquiring then _ else _) = _
  split
  · split <;> rfl
  · split <;> rfl

theorem plain_noteUnknown (status : RadioStatus) :
    (noteUnknown status h).plain = noteUnknown status h.plain := by
  cases status <;> rfl

theorem plain_mirrorStatus : m.mirrorStatus now h.plain
    = ((m.mirrorStatus now h).1, (m.mirrorStatus now h).2.plain) := by
  unfold mirrorStatus
  dsimp only
  rw [← plain_noteUnknown, Host.plain_use]
  show (if m.mirrored = some h.status then _ else _) = _
  split <;> rfl

theorem plain_adjust : m.adjust now h.plain = ((m.adjust now h).1, (m.adjust now h).2.plain) := by
  unfold adjust
  rw [plain_mirrorStatus]
  dsimp only
  rw [plain_reconcile]

theorem owns_adjust : Owns h (m.adjust now h).2 :=
  (m.handles_mirrorStatus now h).owns.trans (handles_reconcile _ now _).owns

theorem plain_adopt : m.adopt now h.plain = ((m.adopt now h).1, (m.adopt now h).2.plain) := by
  unfold adopt
  dsimp only
  rw [← Host.plain_note, Host.plain_use, plain_startAcquisition]
  show (if h.status.isAssociated then _ else _) = _
  split <;> rfl

theorem plain_attach (module : ModuleIdentity) : m.attach module now h.plain
    = ((m.attach module now h).1, (m.attach module now h).2.plain) := by
  unfold attach
  rw [Host.plain_use]
  rcases h.use now (.register module.mac) with ⟨e | ⟨⟩, h'⟩
  · rfl
  · dsimp only
    rw [Host.plain_use, Host.plain_use, plain_adopt]

end

theorem heedless_mirrorStatus : Heedless (Routine.act m.mirrorStatus) :=
  heedless_act ⟨m.plain_mirrorStatus, fun now h => (m.handles_mirrorStatus now h).owns⟩

theorem heedless_reconcile : Heedless (Routine.act m.reconcileAddress) :=
  heedless_act ⟨m.plain_reconcile, fun now h => (m.handles_reconcile now h).owns⟩

theorem heedless_attach (module : ModuleIdentity) : Heedless (Routine.act (m.attach module)) :=
  heedless_act ⟨fun now h => m.plain_attach now h module,
    fun now h => (m.handles_attach now h module).owns⟩

/-! ### startup -/

theorem heedless_awaitStack : Heedless awaitStack :=
  (heedless_note _).bind fun _ =>
    (heedless_awaitAll (EventSet.covers_known_single _) _).bind fun _ => heedless_note _

theorem heedless_identifyOnce (timeout : Nat) : Heedless (identifyOnce timeout) := by
  refine (heedless_ask _ _ _).bind fun answer => ?_
  split
  · exact .pure _
  · refine (heedless_note _).bind fun _ => (heedless_ask _ _ _).bind fun answer => ?_
    split
    · exact .pure _
    · exact (heedless_note _).bind fun _ => .pure _

theorem heedless_identifyModule (settings : Settings) (rounds attempt : Nat) :
    Heedless (identifyModule settings rounds attempt) := by
  induction rounds generalizing attempt with
  | zero => exact .halt _
  | succ rounds ih =>
    refine (heedless_identifyOnce _).bind fun answer => ?_
    split
    · exact .pure _
    · split
      · exact (heedless_note _).bind fun _ => (heedless_sleep _).bind fun _ => ih _
      · exact (heedless_note _).bind fun _ => .pure _

theorem heedless_establish (rounds : Nat) : Heedless (m.establish rounds) := by
  refine (heedless_identifyModule _ _ _).bind fun answer => ?_
  split
  · exact .pure _
  · exact m.heedless_attach _

theorem heedless_start (rounds : Nat) : Heedless (m.start rounds) :=
  heedless_awaitStack.bind fun _ => m.heedless_establish rounds

theorem heedless_establishAtLast (rounds : Nat) : Heedless (establishAtLast rounds m) := by
  induction rounds generalizing m with
  | zero => exact .halt _
  | succ rounds ih =>
    refine (m.heedless_establish rounds).bind fun r => ?_
    rcases r with ⟨m', e | ⟨⟩⟩
    · exact (heedless_note _).bind fun _ => (heedless_sleep _).bind fun _ => ih m'
    · exact .pure _

/-! ### cycles -/

theorem heedless_recordAttempt (outcome : Except AttemptFault AttemptOutcome) :
    Heedless (m.recordAttempt outcome) := by
  unfold recordAttempt
  split
  · exact (heedless_note _).bind fun _ => .pure _
  · exact .pure _

theorem heedless_associateIfNeeded : Heedless m.associateIfNeeded := by
  refine heedless_status.bind fun current => ?_
  split
  · refine m.association.heedless_associateIfAllowed.bind fun r => ?_
    exact (heedless_recordAttempt _ _).bind fun _ => .pure _
  · exact .pure _

theorem heedless_renew : Heedless m.renew := by
  have hagain : Heedless (m.association.associate >>= fun r =>
      pure ({ m with association := r.1 }, r.2)) :=
    m.association.heedless_associate.bind fun _ => .pure _
  refine (heedless_note _).bind fun _ => (Association.heedless_drop _).bind fun dropped => ?_
  split
  · exact (heedless_note _).bind fun _ => hagain
  · exact hagain

theorem heedless_renewIfAsked (events : EventSet) : Heedless (m.renewIfAsked events) := by
  unfold renewIfAsked
  split
  · exact m.heedless_renew.bind fun r => (heedless_recordAttempt _ _).bind fun _ => .pure _
  · exact .pure _

theorem heedless_tend (events : EventSet) : Heedless (m.tend events) := by
  have hadjust : Heedless (Routine.act m.adjust) := heedless_act ⟨m.plain_adjust, m.owns_adjust⟩
  unfold tend
  split
  · exact (heedless_note _).bind fun _ => hadjust
  · exact hadjust

theorem heedless_cycle : Heedless m.cycle := by
  have hknown : EventSet.known.Covers EventSet.known := by decide
  rw [cycle_eq_parts]
  refine m.heedless_associateIfNeeded.bind fun r => ?_
  refine (heedless_awaitAny hknown _).bind fun events => ?_
  refine (r.1.heedless_tend events).bind fun adjusted => ?_
  exact (adjusted.1.heedless_renewIfAsked events).bind fun _ => .pure _

theorem heedless_loop (rounds : Nat) : Heedless (loop rounds m) := by
  induction rounds generalizing m with
  | zero => exact .halt _
  | succ rounds ih =>
    refine m.heedless_cycle.bind fun r => .read (fun h => ?_) fun h => ?_
    · dsimp only
      rw [phase_plain]
    · refine (heedless_note _).bind fun _ => ?_
      split
      · exact (heedless_note _).bind fun _ => ih _
      · exact ih _

/-- **The whole life of a manager** pays no heed to stray bits. -/
theorem heedless_run (rounds : Nat) : Heedless (m.run rounds) :=
  heedless_awaitStack.bind fun _ =>
    (m.heedless_establishAtLast rounds).bind fun m => m.heedless_loop rounds

end Manager

end Uplink
