import Mathlib.Logic.Relation
import Uplink.Manager.Cycle
import Uplink.Proofs.Producers

/-!
# Modest routines

While the manager asks or waits, all that it does to its host by itself is to write to the log, to
take events out of its mailbox and to put them back.  What others do meanwhile, and what a response
brings, is not its doing.

* `Host.Tends`          what a manager does to its own mailbox and log;
* `Coprocessor.Draws`   the five ways to draw a response;
* `HostRoutine.Modest`  the routines made of such steps, of waits and of requests.

What asks or waits is modest: the waits, the requests, an attempt and a reconnect as a whole
(`modest_associateIfNeeded`, `modest_renewIfAsked`).  So whatever is shown of the four ways to make
a modest routine holds of all of them.
-/

namespace Uplink

namespace Host

/-- One thing that a manager does to its own mailbox or log. -/
inductive Tend : Host → Host → Prop
  /-- It writes to the log, but does not tell of a report. -/
  | note {h : Host} (e : LogEntry) : e.reported? = none → Tend h (h.note e)
  | take {h : Host} (target : EventSet) : Tend h (port.take target h).2
  | putBack {h : Host} (events : EventSet) : Tend h (port.putBack events h)

abbrev Tends : Host → Host → Prop := Relation.ReflTransGen Tend

theorem tends_note (h : Host) {e : LogEntry} (he : e.reported? = none) : Tends h (h.note e) :=
  .single (.note e he)

theorem tends_take (h : Host) (target : EventSet) : Tends h (port.take target h).2 :=
  .single (.take target)

end Host

/-- What draws the next response from one of the five feeds of the co-processor. -/
inductive Coprocessor.Draws : {α : Type} → (Coprocessor → Response α × Coprocessor) → Prop
  | mode : Draws nextMode
  | connection : Draws nextConnection
  | disconnection : Draws nextDisconnection
  | firmware : Draws nextFirmware
  | address : Draws nextAddress

namespace HostRoutine

open Coprocessor Host

/-- The routine is made of steps that touch mailbox and log alone, of waits whose looks do no more
than that, and of requests. -/
inductive Modest : {β : Type} → HostRoutine β → Prop
  | step {β : Type} {f : Nat → Host → β × Host} :
    (∀ now h, Tends h (f now h).2) → Modest (Routine.act f)
  | await {ρ β : Type} {w : Wait Host ρ β} (deadline : Option Nat) (r : ρ) :
    (∀ t r h, Tends h (w.look t r h).2) → (∀ r h, Tends h (w.expire r h).2) →
    Modest (Routine.await w deadline r)
  | ask {α : Type} {draw : Coprocessor → Response α × Coprocessor} (request : Request)
    (timeout : Nat) : Draws draw → Modest (ask request draw timeout)
  | bind {β γ : Type} {x : HostRoutine β} {f : β → HostRoutine γ} :
    Modest x → (∀ b, Modest (f b)) → Modest (x >>= f)

/-! ## steps -/

section
variable {β : Type}

theorem modest_pure (b : β) : Modest (pure b : HostRoutine β) :=
  .step (f := fun _ h => (b, h)) fun _ _ => .refl

theorem modest_world : Modest (Routine.world : HostRoutine Host) :=
  .step (f := fun _ h => (h, h)) fun _ _ => .refl

theorem modest_now : Modest (Routine.now : HostRoutine Nat) :=
  .step (f := fun now h => (now, h)) fun _ _ => .refl

end

theorem modest_note {e : LogEntry} (he : e.reported? = none) : Modest (note e) :=
  .step (f := fun _ h => ((), h.note e)) fun _ h => tends_note h he

theorem modest_status : Modest status := modest_world.bind fun _ => modest_pure _

theorem modest_take (target : EventSet) : Modest (take target) :=
  .step fun _ h => tends_take h target

theorem modest_putBack (events : EventSet) : Modest (putBack events) :=
  .step (f := fun _ h => ((), port.putBack events h)) fun _ _ => .single (.putBack events)

/-! ## waits -/

section
variable (target : EventSet) (t : Nat) (h : Host)

theorem tends_gather (seen : EventSet) : Tends h ((port.gather target).look t seen h).2 := by
  unfold Port.gather
  dsimp only
  split <;> exact tends_take h target

theorem tends_deliver : Tends h ((port.deliver target).look t () h).2 := by
  unfold Port.deliver
  dsimp only
  split <;> exact tends_take h target

theorem tends_watch (accept : RadioStatus → Bool) (deadline : Option Nat) (taken : Bool) :
    Tends h ((watch accept deadline).look t taken h).2 := by
  unfold watch
  dsimp only
  split
  · exact tends_take h updates
  · split
    · exact tends_take h updates
    · split
      · exact tends_take h updates
      · exact (tends_take h updates).tail (.note _ rfl)

end

theorem modest_awaitAll (target : EventSet) (timeout : Nat) :
    Modest (awaitAll target timeout) :=
  modest_now.bind fun _ => (modest_note rfl).bind fun _ =>
    .await _ _ (fun t seen h => tends_gather target t h seen) fun _ h => tends_note h rfl

theorem modest_awaitAny (target : EventSet) (timeout : Nat) :
    Modest (awaitAny target timeout) :=
  modest_now.bind fun _ => .await _ _ (fun t _ h => tends_deliver target t h) fun _ _ => .refl

theorem modest_watch (accept : RadioStatus → Bool) (deadline : Option Nat) :
    Modest (Routine.await (watch accept deadline) deadline false) :=
  .await _ _ (fun t taken h => tends_watch t h accept deadline taken) fun _ h => tends_note h rfl

theorem modest_awaitReport (accept : RadioStatus → Bool) (timeout : Nat) :
    Modest (awaitReport accept timeout) := by
  refine modest_now.bind fun start => ?_
  dsimp only
  split
  · exact modest_pure _
  · refine (modest_note rfl).bind fun _ => (modest_watch accept _).bind fun r => ?_
    split
    · exact (modest_putBack _).bind fun _ => modest_pure _
    · exact modest_pure _

end HostRoutine

/-! ## attempts -/

namespace Association

open HostRoutine

theorem modest_request (a : Association) (c : Credentials) : Modest (a.request c) := by
  refine (modest_take _).bind fun stale => (Modest.ask _ _ .connection).bind fun answer => ?_
  split
  · exact (modest_note rfl).bind fun _ => (modest_putBack _).bind fun _ => modest_pure _
  · refine (modest_awaitReport _ _).bind fun up => (modest_putBack _).bind fun _ => ?_
    split
    · exact (modest_note rfl).bind fun _ => modest_pure _
    · exact modest_status.bind fun _ => (modest_note rfl).bind fun _ => modest_pure _

theorem modest_attempt (a : Association) : Modest a.attempt := by
  refine (Modest.ask _ _ .mode).bind fun answer => ?_
  split
  · exact (modest_note rfl).bind fun _ => modest_pure _
  · refine modest_world.bind fun h => ?_
    split
    · exact (modest_note rfl).bind fun _ => modest_pure _
    · exact (modest_note rfl).bind fun _ => a.modest_request _

theorem modest_associate (a : Association) : Modest a.associate :=
  (modest_attempt _).bind fun _ => modest_pure _

theorem modest_associateIfAllowed (a : Association) : Modest a.associateIfAllowed := by
  refine modest_status.bind fun current => ?_
  split
  · exact a.modest_associate
  · exact (modest_note rfl).bind fun _ => modest_pure _

theorem modest_drop (timeout : Nat) : Modest (drop timeout) :=
  (Modest.ask _ _ .disconnection).bind fun _ => modest_pure _

end Association

/-! ## the manager -/

namespace Manager

open HostRoutine

theorem modest_awaitStack : Modest awaitStack :=
  (modest_note rfl).bind fun _ => (modest_awaitAll _ _).bind fun _ => modest_note rfl

theorem modest_identifyOnce (timeout : Nat) : Modest (identifyOnce timeout) := by
  refine (Modest.ask _ _ .firmware).bind fun answer => ?_
  split
  · exact modest_pure _
  · refine (modest_note rfl).bind fun _ => (Modest.ask _ _ .address).bind fun answer => ?_
    split
    · exact modest_pure _
    · exact (modest_note rfl).bind fun _ => modest_pure _

theorem modest_recordAttempt (m : Manager) (outcome : Except AttemptFault AttemptOutcome) :
    Modest (m.recordAttempt outcome) := by
  unfold recordAttempt
  split
  · exact (modest_note rfl).bind fun _ => modest_pure _
  · exact modest_pure _

theorem modest_associateIfNeeded (m : Manager) : Modest m.associateIfNeeded := by
  refine modest_status.bind fun current => ?_
  split
  · refine m.association.modest_associateIfAllowed.bind fun r => ?_
    exact (modest_recordAttempt _ _).bind fun _ => modest_pure _
  · exact modest_pure _

theorem modest_renew (m : Manager) : Modest m.renew := by
  have hagain : Modest (m.association.associate >>= fun r =>
      pure ({ m with association := r.1 }, r.2)) :=
    m.association.modest_associate.bind fun _ => modest_pure _
  refine (modest_note rfl).bind fun _ => (Association.modest_drop _).bind fun dropped => ?_
  split
  · exact (modest_note rfl).bind fun _ => hagain
  · exact hagain

theorem modest_renewIfAsked (m : Manager) (events : EventSet) :
    Modest (m.renewIfAsked events) := by
  unfold renewIfAsked
  split
  · exact m.modest_renew.bind fun r => (modest_recordAttempt _ _).bind fun _ => modest_pure _
  · exact modest_pure _

end Manager

end Uplink
