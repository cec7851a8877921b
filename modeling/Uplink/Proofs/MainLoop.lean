import Uplink.Proofs.Attempts
import Uplink.Proofs.Handling

/-!
# The accounts of startup and of the main loop

A cycle of the main loop is cut at the return of its main wait.  Up to there the manager hears what
is pending, and then it answers.

* `Manager.hear`, `Manager.answer`  the two parts of a cycle;
* `Manager.cycle_eq`                a cycle is one after the other;
* `Manager.hear_ends`               what was heard is what was pending, and nothing of it is left;
* `Manager.answer_asks`             an answer asks nothing, unless a reconnect was requested;
* `Manager.start_ends`              startup asks for no disconnect and takes no reconnect request;
* `HostStep.perform_ends`           nor do others take any.
-/

namespace Uplink

open Host HostRoutine

/-! ## the main wait -/

/-- The wait for any event ends with a take: all of the target that was pending, or nothing. -/
theorem HostRoutine.awaitAny_ends (target : EventSet) (timeout : Nat) {h₀ : Host}
    {owed : EventSet} {rs : List Request} {tl : Timeline Action Host}
    (hs : Since h₀ owed rs tl.world) :
    (awaitAny target timeout).Ends tl
      (fun events tl' => ∃ h, Since h₀ owed rs h ∧ (events, tl'.world) = port.take target h)
      (fun tl' => Grown h₀ rs tl'.world) := by
  unfold HostRoutine.awaitAny Port.awaitAny
  refine Routine.ends_bind.mpr ?_
  have hover : Routine.Over
      (fun _ events h' => ∃ h, Since h₀ owed rs h ∧ (events, h') = port.take target h)
      (fun _ (_ : Unit) h' => ∃ h, Since h₀ owed rs h ∧ (EventSet.empty, h') = port.take target h)
      tl.agenda []
      (Routine.await (port.deliver target) (Clock.after? tl.now timeout) () tl) := by
    refine Routine.await_over (I := fun _ _ h => Since h₀ owed rs h) ?_ ?_ ?_ hs
    · intro _ t _ h hs
      unfold Port.deliver
      dsimp only
      split
      · rename_i hnone
        refine ⟨h, hs, ?_⟩
        rw [← hnone]
      · exact ⟨h, hs, rfl⟩
    · intro _ _ h' t as hpending
      obtain ⟨h, hs, htake⟩ := hpending
      have hnone : (port.take target h).1 = EventSet.empty := (congrArg Prod.fst htake).symm
      have hworld : h' = (port.take target h).2 := congrArg Prod.snd htake
      rw [hworld]
      exact (hs.take_none hnone).fire t as
    · intro _ _ h' h
      exact h
  refine hover.ended (fun _ _ _ h => h) ?_
  intro _ _ h' hpending
  obtain ⟨h, hs, htake⟩ := hpending
  have hworld : h' = (port.take target h).2 := congrArg Prod.snd htake
  rw [hworld]
  exact (hs.take target).grown

theorem HostRoutine.awaitAll_ends (target : EventSet) (timeout : Nat) {h₀ : Host}
    {owed : EventSet} {rs : List Request} {tl : Timeline Action Host}
    (hs : Since h₀ owed rs tl.world) :
    (awaitAll target timeout).Ends tl
      (fun events tl' => ∃ seen, events = target &&& seen ∧
        (∀ e, seen.Has e → target.Has e) ∧ Since h₀ (owed ||| seen) rs tl'.world)
      (fun tl' => Grown h₀ rs tl'.world) := by
  have hover : Routine.Over
      (fun _ events h => ∃ seen, events = target &&& seen ∧
        (∀ e, EventSet.Has seen e → target.Has e) ∧ Since h₀ (owed ||| seen) rs h)
      (fun _ seen h => (∀ e, EventSet.Has seen e → target.Has e) ∧ Since h₀ (owed ||| seen) rs h)
      tl.agenda [] (awaitAll target timeout tl) := by
    unfold HostRoutine.awaitAll
    rw [Port.awaitAll_apply]
    refine Routine.await_over (I := fun _ seen h =>
      (∀ e, EventSet.Has seen e → target.Has e) ∧ Since h₀ (owed ||| seen) rs h) ?_ ?_ ?_ ?_
    · intro _ t seen h hend
      obtain ⟨haim, hs⟩ := hend
      have htake : ∀ e, EventSet.Has (seen ||| (port.take target h).1) e → target.Has e := by
        intro e he
        rcases (EventSet.has_or _ _ e).mp he with he | he
        · exact haim e he
        · exact ((EventSet.has_and _ target e).mp he).2
      have ht := hs.take target
      rw [BitVec.or_assoc] at ht
      unfold Port.gather
      dsimp only
      split
      · exact ⟨_, rfl, htake, ht⟩
      · exact ⟨htake, ht⟩
    · intro _ seen h t as hend
      obtain ⟨haim, hs⟩ := hend
      exact ⟨haim, hs.fire t as⟩
    · intro _ seen h hend
      obtain ⟨haim, hs⟩ := hend
      exact ⟨seen, rfl, haim, hs.note _⟩
    · refine ⟨fun e he => absurd he (EventSet.not_has_empty e), ?_⟩
      rw [EventSet.empty, BitVec.or_zero]
      exact hs.note _
  exact hover.ended (fun _ _ _ h => h) fun _ _ _ h => h.2.grown

/-! ## startup -/

namespace Manager

/-- The wait for the stack takes no reconnect request. -/
theorem awaitStack_ends {h₀ : Host} {rs : List Request} {tl : Timeline Action Host}
    (hs : Since h₀ EventSet.empty rs tl.world) :
    awaitStack.Ends tl
      (fun _ tl' => ∃ owed, ¬ EventSet.Has owed .reconnectRequested ∧ Since h₀ owed rs tl'.world)
      (fun tl' => Grown h₀ rs tl'.world) := by
  unfold awaitStack
  refine Routine.ends_bind.mpr ?_
  refine Routine.ends_bind.mpr ((awaitAll_ends _ _ (hs.note .awaitingStack)).imp ?_ fun _ h => h)
  intro _ tl₁ hend
  obtain ⟨seen, _, haim, hs₁⟩ := hend
  rw [EventSet.empty, BitVec.zero_or] at hs₁
  refine ⟨seen, fun h => ?_, hs₁.note .stackReady⟩
  exact absurd (haim _ h) (by decide)

theorem identifyOnce_tame (timeout : Nat) : Asks (identifyOnce timeout) Tame Tame := by
  unfold identifyOnce
  have hfirmware : Asks (requestFirmware timeout) Tame Tame := ask_tame (by decide) _ _
  have haddress : Asks (requestAddress timeout) Tame Tame := ask_tame (by decide) _ _
  refine hfirmware.tame_bind fun r => ?_
  split
  · exact (keeps_pure _).quiet.tame
  · refine (keeps_note _).then fun _ => haddress.tame_bind fun r => ?_
    split
    · exact (keeps_pure _).quiet.tame
    · exact (keeps_note _).then fun _ => (keeps_pure _).quiet.tame

theorem identifyModule_tame (settings : Settings) (rounds attempt : Nat) :
    Asks (identifyModule settings rounds attempt) Tame Tame := by
  induction rounds generalizing attempt with
  | zero =>
    intro h₀ owed rs tl hs
    exact Routine.ends_halt ⟨[], tame_nil, hs.no_more.grown⟩
  | succ rounds ih =>
    unfold identifyModule
    refine (identifyOnce_tame _).tame_bind fun r => ?_
    split
    · exact (keeps_pure _).quiet.tame
    · split
      · refine (keeps_note _).then fun _ => ?_
        exact (quiet_sleep _).tame.tame_bind fun _ => ih _
      · exact (keeps_note _).then fun _ => (keeps_pure _).quiet.tame

theorem establish_tame (rounds : Nat) (m : Manager) : Asks (establish rounds m) Tame Tame := by
  unfold establish
  refine (identifyModule_tame _ _ _).tame_bind fun r => ?_
  split
  · exact (keeps_pure _).quiet.tame
  · exact (keeps_act fun now h hs => (m.handles_attach now h _).since hs).quiet.tame

/-- **Startup** asks for no disconnect and leaves every reconnect request in the mailbox. -/
theorem start_ends (rounds : Nat) (m : Manager) (tl : Timeline Action Host) :
    (m.start rounds).Ends tl
      (fun _ tl' => ∃ owed rs, ¬ EventSet.Has owed .reconnectRequested ∧ Tame rs ∧
        Since tl.world owed rs tl'.world)
      (fun tl' => ∃ rs, Tame rs ∧ Grown tl.world rs tl'.world) := by
  unfold start
  refine Routine.ends_bind.mpr ((awaitStack_ends (since_refl tl.world)).imp ?_ ?_)
  · intro _ tl₁ h
    obtain ⟨owed, howed, hs₁⟩ := h
    refine (m.establish_tame rounds tl₁ hs₁).imp ?_ ?_
    · intro _ tl₂ h
      obtain ⟨more, hmore, hs₂⟩ := h
      exact ⟨owed, more, howed, hmore, hs₂⟩
    · intro tl₂ h
      obtain ⟨more, hmore, hg⟩ := h
      exact ⟨more, hmore, hg⟩
  · intro tl₁ hg
    exact ⟨[], tame_nil, hg⟩

/-! ## the two parts of a cycle -/

/-- The first part of a cycle, up to the return of its main wait. -/
def hear (m : Manager) :
    HostRoutine (Manager × Option (Except AttemptFault AttemptOutcome) × EventSet) := do
  let (m, attempt) ← m.associateIfNeeded
  let events ← awaitAny EventSet.known m.settings.loopTimeout
  return (m, attempt, events)

/-- The second part of a cycle, told what the first one tried and heard. -/
def answer (m : Manager) (attempt : Option (Except AttemptFault AttemptOutcome))
    (events : EventSet) : HostRoutine (Manager × CycleReport) := do
  if events = EventSet.empty then
    note .loopTimedOut
  let (m, link) ← Routine.act m.mirrorStatus
  let (m, address) ← Routine.act m.reconcileAddress
  let (m, renewal) ← m.renewIfAsked events
  return (m, { events, attempt, renewal, link, address })

theorem cycle_eq (m : Manager) :
    m.cycle = m.hear >>= fun heard => heard.1.answer heard.2.1 heard.2.2 := by
  unfold cycle hear
  simp only [bind_assoc, pure_bind]
  rfl

theorem recordAttempt_keeps (m : Manager) (outcome : Except AttemptFault AttemptOutcome) :
    Keeps (m.recordAttempt outcome) := by
  unfold recordAttempt
  split
  · exact (keeps_note _).then fun _ => keeps_pure _
  · exact keeps_pure _

theorem associateIfNeeded_tame (m : Manager) : Asks m.associateIfNeeded Tame Tame := by
  unfold associateIfNeeded
  refine keeps_status.then fun current => ?_
  split
  · refine m.association.associateIfAllowed_tame.quietly (fun r => ?_) fun _ h => h
    exact (recordAttempt_keeps _ _).then fun _ => (keeps_pure _).quiet
  · exact (keeps_pure _).quiet.tame

/-- The requests that answer what was heard: those of `R` if a reconnect was requested. -/
def Answers (R : List Request → Prop) (events : EventSet) (rs : List Request) : Prop :=
  if events.Has .reconnectRequested then R rs else rs = []

theorem Answers.imp {R R' : List Request → Prop} {events : EventSet} {rs : List Request}
    (h : Answers R events rs) (hR : ∀ rs, R rs → R' rs) : Answers R' events rs := by
  unfold Answers at h ⊢
  split
  · rename_i hasked
    rw [if_pos hasked] at h
    exact hR rs h
  · rename_i hasked
    rw [if_neg hasked] at h
    exact h

theorem renewIfAsked_asks (m : Manager) (events : EventSet) :
    Asks (m.renewIfAsked events) (Answers Renews events) (Answers BeginsToRenew events) := by
  unfold renewIfAsked
  by_cases hasked : events.Has .reconnectRequested
  · have hwhich : ∀ R : List Request → Prop, Answers R events = R := by
      intro R
      funext rs
      exact if_pos hasked
    rw [if_pos hasked, hwhich, hwhich]
    refine m.renew_asks.quietly (fun r => ?_) fun _ h => h.begins
    exact (recordAttempt_keeps _ _).then fun _ => (keeps_pure _).quiet
  · have hwhich : ∀ R : List Request → Prop, Answers R events = (· = []) := by
      intro R
      funext rs
      exact if_neg hasked
    rw [if_neg hasked, hwhich, hwhich]
    exact (keeps_pure _).quiet

/-- **An answer** asks for a disconnect exactly if a reconnect was requested. -/
theorem answer_asks (m : Manager) (attempt : Option (Except AttemptFault AttemptOutcome))
    (events : EventSet) :
    Asks (m.answer attempt events) (Answers Renews events) (Answers BeginsToRenew events) := by
  have hrest : Asks (do
      let (m, link) ← Routine.act m.mirrorStatus
      let (m, address) ← Routine.act m.reconcileAddress
      let (m, renewal) ← m.renewIfAsked events
      return (m, ({ events, attempt, renewal, link, address } : CycleReport)))
      (Answers Renews events) (Answers BeginsToRenew events) := by
    refine (keeps_act fun now h hs => (m.handles_mirrorStatus now h).since hs).then fun mirrored => ?_
    refine (keeps_act fun now h hs =>
      (mirrored.1.handles_reconcile now h).since hs).then
      fun reconciled => ?_
    refine (reconciled.1.renewIfAsked_asks events).quietly (fun _ => (keeps_pure _).quiet) ?_
    intro rs h
    exact h.imp fun _ h => h.begins
  unfold answer
  split
  · exact (keeps_note _).then fun _ => hrest
  · exact hrest

theorem answer_events (m : Manager) (attempt : Option (Except AttemptFault AttemptOutcome))
    (events : EventSet) (tl : Timeline Action Host) :
    (m.answer attempt events).Ends tl (fun r _ => r.2.events = events) fun _ => True := by
  have hrest : ∀ tl, Routine.Ends (do
      let (m, link) ← Routine.act m.mirrorStatus
      let (m, address) ← Routine.act m.reconcileAddress
      let (m, renewal) ← m.renewIfAsked events
      return (m, ({ events, attempt, renewal, link, address } : CycleReport)))
      tl (fun r _ => r.2.events = events) fun _ => True := by
    intro tl
    refine Routine.ends_bind_last fun mirrored _ => ?_
    refine Routine.ends_bind_last fun reconciled _ => ?_
    exact Routine.ends_bind_last fun renewed _ => Routine.ends_pure rfl
  unfold answer
  split
  · exact Routine.ends_bind_last fun _ => hrest
  · exact hrest tl

theorem cycle_eq_error {m : Manager} {tl tl' : Timeline Action Host} {e : Halt}
    (h : m.cycle tl = .error e tl') :
    m.hear tl = .error e tl' ∨ ∃ heard tl₁, m.hear tl = .ok heard tl₁ ∧
      heard.1.answer heard.2.1 heard.2.2 tl₁ = .error e tl' := by
  rw [cycle_eq, Routine.bind_apply] at h
  cases hh : m.hear tl with
  | ok heard tl₁ =>
    rw [hh] at h
    exact Or.inr ⟨heard, tl₁, rfl, h⟩
  | error e' tl₁ =>
    rw [hh] at h
    cases h
    exact Or.inl rfl

/-- **The first part of a cycle** asks for no disconnect.  It hears of a reconnect exactly if one
was requested before or is meanwhile, and leaves no request behind. -/
theorem hear_ends (m : Manager) (tl : Timeline Action Host) :
    m.hear.Ends tl
      (fun heard tl₁ => ∃ h rs, Tame rs ∧ Since tl.world EventSet.empty rs h ∧
        (heard.2.2, tl₁.world) = port.take EventSet.known h)
      (fun tl₁ => ∃ rs, Tame rs ∧ Grown tl.world rs tl₁.world) := by
  unfold hear
  refine Routine.ends_bind.mpr ((m.associateIfNeeded_tame tl (since_refl tl.world)).imp ?_ ?_)
  · intro r tl₁ hend
    obtain ⟨more, hmore, hs₁⟩ := hend
    refine Routine.ends_bind.mpr ((awaitAny_ends _ _ hs₁).imp ?_ ?_)
    · intro events tl₂ hend
      obtain ⟨h, hs, htake⟩ := hend
      exact ⟨h, more, hmore, hs, htake⟩
    · intro tl₂ hg
      exact ⟨more, hmore, hg⟩
  · intro tl₁ hend
    obtain ⟨more, hmore, hg⟩ := hend
    exact ⟨more, hmore, hg⟩

end Manager

/-! ## others -/

section
variable {h₀ : Host} {owed : EventSet} {rs : List Request}

theorem Host.Since.passTo {h : Host} (hs : Since h₀ owed rs h) (goal : Nat)
    (g : Agenda Action) : Since h₀ owed rs (Timeline.passTo goal g h).2 := by
  induction g generalizing h with
  | nil => exact hs
  | cons b rest ih =>
    unfold Timeline.passTo
    split
    · exact ih (hs.fire b.time b.actions)
    · exact hs

/-- What others do keeps the accounts of a claimed mailbox. -/
theorem HostStep.perform_ends (s : HostStep) {tl : Timeline Action Host}
    (hclaimed : tl.world.mailbox.claimed = true) (hs : Since h₀ owed rs tl.world) :
    s.perform.Ends tl (fun _ tl' => Since h₀ owed rs tl'.world) fun _ => False := by
  cases s with
  | act a => exact hs.perform a
  | schedule ticks a => exact hs
  | advance ticks =>
    have hsettled := hs.fire tl.now (tl.agenda.due tl.now)
    exact hsettled.passTo _ (tl.agenda.later tl.now)
  | claim =>
    have hrefused : HostStep.claimMailbox tl.world = (.error .alreadyClaimed, tl.world) := by
      unfold HostStep.claimMailbox Mailbox.claim
      rw [if_pos hclaimed]
    show Since h₀ owed rs (HostStep.claimMailbox tl.world).2
    rw [hrefused]
    exact hs

end

end Uplink
