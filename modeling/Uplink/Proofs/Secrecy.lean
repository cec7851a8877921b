import Uplink.Bench.Manager
import Uplink.Proofs.CycleWork
import Uplink.Proofs.Sealing

/-!
# Secrecy of the key

Two runs of a manager, or of an association with the other parts, that are alike except for the
key in the store.  What is loaded from the store decides whether an attempt goes on, so the two
have to agree, at each load, on whether the credentials are accepted.  Nothing else of the key can
be told from the runs: they differ in the key that a request hands to the co-processor only.

* `Store.Alike`                       two stores yield credentials both, or neither;
* `Association.loads`,
  `Manager.cycleLoads`,
  `Manager.runLoads`                  the stores that are loaded, in their order;
* `Association.lockstep_attempt`,
  `Manager.lockstep_cycle`,
  `Manager.lockstep_run`              what loads them keeps step;
* `Entry.SameButKey`                  two entries differ in the key only;
* `key_does_not_leak`                 so do two sessions, entry by entry.
-/

namespace Uplink

open HostRoutine
open Host (veil)

/-! ## loads -/

namespace Store

/-- Both stores yield credentials, or neither does. -/
def Alike (s s' : Store) : Prop :=
  (Credentials.ofStore s).isOk = (Credentials.ofStore s').isOk

variable {s s' : Store} {c c' : Credentials} {e e' : AttemptFault}

/-- The name decides why a store is refused. -/
theorem error_eq (hssid : s.ssid = s'.ssid) (hs : Credentials.ofStore s = .error e)
    (hs' : Credentials.ofStore s' = .error e') : e = e' := by
  unfold Credentials.ofStore Credentials.ofBytes at hs hs'
  rw [← hssid] at hs'
  cases hname : s.ssid with
  | none =>
    rw [hname] at hs hs'
    cases hs
    cases hs'
    rfl
  | some name =>
    rw [hname] at hs hs'
    dsimp only at hs hs'
    by_cases hempty : name.size = 0
    · rw [if_pos hempty] at hs hs'
      cases hs
      cases hs'
      rfl
    · rw [if_neg hempty] at hs hs'
      split at hs
      · cases hs
      · split at hs'
        · cases hs'
        · cases hs
          cases hs'
          rfl

/-- The name that a store yields does not go by the key. -/
theorem name_eq (hssid : s.ssid = s'.ssid) (hs : Credentials.ofStore s = .ok c)
    (hs' : Credentials.ofStore s' = .ok c') : c.ssid = c'.ssid := by
  have hbytes : some c.ssid.toByteArray = some c'.ssid.toByteArray := by
    rw [← (Credentials.storedIn_of_ofStore hs).ssid, hssid,
      (Credentials.storedIn_of_ofStore hs').ssid]
  exact String.toByteArray_inj.mp (Option.some.inj hbytes)

end Store

/-- What loads credentials keeps step as long as the stores are alike. -/
abbrev HostRoutine.LoadsInStep {β : Type} (x : HostRoutine β) (loads : Reading Action Host Store) :
    Prop := veil.Lockstep Store.Alike x x loads loads

/-- What goes through the veil loads nothing. -/
theorem HostRoutine.Blind.loadsInStep {β : Type} {x : HostRoutine β} (hx : Blind x) :
    LoadsInStep x Reading.nothing := hx.lockstep hx

theorem HostRoutine.loadsInStep_pure {β : Type} (b : β) :
    LoadsInStep (pure b : HostRoutine β) Reading.nothing := Blind.loadsInStep (veil.through_pure b)

namespace Association

variable (a : Association)

/-- The stores that an attempt loads: one, if the station mode is selected. -/
def loads : Reading Action Host Store :=
  Reading.after (selectMode .station a.settings.modeTimeout) fun
    | .ok () => fun tl => [tl.world.store]
    | .error _ => Reading.nothing

def loadsIfAllowed : Reading Action Host Store :=
  Reading.after status fun s => if s.mayAssociate then a.loads else Reading.nothing

/-- What an attempt does once it has loaded a store. -/
def attemptWith (s : Store) : HostRoutine (Except AttemptFault AttemptOutcome) := do
  match Credentials.ofStore s with
  | .error e =>
    note (.credentialsUnavailable e)
    return .error e
  | .ok c =>
    note (.connecting c.ssid a.attempts)
    a.request c

/-- **Stores that are alike** and have one name lead to the same under the veil. -/
theorem through_attemptWith {s s' : Store} (hssid : s.ssid = s'.ssid) (halike : s.Alike s') :
    ∃ z, veil.Through (a.attemptWith s) z ∧ veil.Through (a.attemptWith s') z := by
  unfold attemptWith
  unfold Store.Alike at halike
  cases hs : Credentials.ofStore s with
  | error e =>
    cases hs' : Credentials.ofStore s' with
    | error e' =>
      obtain rfl := Store.error_eq hssid hs hs'
      have hrefused : Blind (do
          note (.credentialsUnavailable e)
          return .error e : HostRoutine (Except AttemptFault AttemptOutcome)) :=
        (blind_note _).bind fun _ => veil.through_pure _
      exact ⟨_, hrefused, hrefused⟩
    | ok c' =>
      rw [hs, hs'] at halike
      cases halike
  | ok c =>
    cases hs' : Credentials.ofStore s' with
    | error e' =>
      rw [hs, hs'] at halike
      cases halike
    | ok c' =>
      have hname := Store.name_eq hssid hs hs'
      have hrequest := a.through_request c'
      rw [← hname] at hrequest
      dsimp only
      rw [← hname]
      exact ⟨_, (blind_note _).bind fun _ => a.through_request c,
        (blind_note _).bind fun _ => hrequest⟩

theorem lockstep_load :
    LoadsInStep (Routine.world >>= fun h => a.attemptWith h.store) fun tl => [tl.world.store] := by
  intro tl tl' heq hagree
  have halike : tl.world.store.Alike tl'.world.store :=
    hagree (tl.world.store, tl'.world.store) List.mem_cons_self
  have hssid : tl.world.store.ssid = tl'.world.store.ssid :=
    congrArg (fun tl => tl.world.store.ssid) heq
  obtain ⟨z, hx, hy⟩ := a.through_attemptWith hssid halike
  exact ⟨hx.result_eq hy heq, rfl⟩

/-- **An attempt** loads credentials once, after the selection of the mode. -/
theorem lockstep_attempt : LoadsInStep a.attempt a.loads := by
  refine (blind_selectMode _).loadsInStep.first fun answer => ?_
  cases answer with
  | error e => exact Blind.loadsInStep ((blind_note _).bind fun _ => veil.through_pure _)
  | ok _ => exact a.lockstep_load

theorem lockstep_associate : LoadsInStep a.associate a.loads :=
  Veil.Lockstep.last (lockstep_attempt { a with attempts := a.attempts + 1 }) fun _ =>
    loadsInStep_pure _

theorem lockstep_associateIfAllowed : LoadsInStep a.associateIfAllowed a.loadsIfAllowed := by
  refine blind_status.loadsInStep.first fun s => ?_
  split
  · exact a.lockstep_associate
  · exact Blind.loadsInStep ((blind_note _).bind fun _ => veil.through_pure _)

end Association

namespace Manager

open Reading (after)

variable (m : Manager)

/-! ### what a manager loads -/

def loadsIfNeeded : Reading Action Host Store :=
  after status fun s => if s.mayAssociate then m.association.loadsIfAllowed else Reading.nothing

/-- The part of a reconnect that gives the association up. -/
def giveUp : HostRoutine Unit := do
  note .reconnecting
  if let .error e ← Association.drop m.settings.disconnectTimeout then
    note (.disconnectFailed e)

def renewLoads : Reading Action Host Store := after m.giveUp fun _ => m.association.loads

def loadsIfAsked (events : EventSet) : Reading Action Host Store :=
  if events.Has .reconnectRequested then m.renewLoads else Reading.nothing

/-- The stores that a cycle loads: for the attempt before its main wait, and for the reconnect. -/
def cycleLoads : Reading Action Host Store := fun tl =>
  m.loadsIfNeeded tl ++ after m.associateIfNeeded (fun r =>
    after (awaitAny EventSet.known r.1.settings.loopTimeout) fun events =>
      after (r.1.tend events) fun adjusted => adjusted.1.loadsIfAsked events) tl

def loopLoads : (rounds : Nat) → Manager → Reading Action Host Store
  | 0, _ => Reading.nothing
  | rounds + 1, m => fun tl => m.cycleLoads tl ++ after m.loopRound
      (fun
        | .inl m => loopLoads rounds m
        | .inr never => nomatch never) tl

def runLoads (rounds : Nat) : Reading Action Host Store :=
  after awaitStack fun _ => after (establishAtLast rounds m) (loopLoads rounds)

/-! ### the parts of a manager -/

theorem lockstep_associateIfNeeded : LoadsInStep m.associateIfNeeded m.loadsIfNeeded := by
  refine blind_status.loadsInStep.first fun s => ?_
  split
  · refine m.association.lockstep_associateIfAllowed.last fun r => ?_
    exact Blind.loadsInStep ((blind_recordAttempt _ _).bind fun _ => veil.through_pure _)
  · exact loadsInStep_pure _

theorem blind_giveUp : Blind m.giveUp := by
  refine (blind_note _).bind fun _ => (Association.blind_drop _).bind fun answer => ?_
  cases answer with
  | error e => exact blind_note _
  | ok _ => exact veil.through_pure _

theorem renew_eq : m.renew = m.giveUp >>= fun _ => do
    let (association, outcome) ← m.association.associate
    return ({ m with association }, outcome) := by
  unfold renew giveUp
  simp only [bind_assoc]
  refine congrArg _ (funext fun _ => congrArg _ (funext fun answer => ?_))
  cases answer <;> rfl

/-- **A reconnect** loads credentials once, if it comes to that. -/
theorem lockstep_renew : LoadsInStep m.renew m.renewLoads := by
  rw [renew_eq]
  exact m.blind_giveUp.loadsInStep.first fun _ =>
    m.association.lockstep_associate.last fun _ => loadsInStep_pure _

theorem lockstep_renewIfAsked (events : EventSet) :
    LoadsInStep (m.renewIfAsked events) (m.loadsIfAsked events) := by
  unfold renewIfAsked loadsIfAsked
  split
  · refine m.lockstep_renew.last fun r => ?_
    exact Blind.loadsInStep ((blind_recordAttempt _ _).bind fun _ => veil.through_pure _)
  · exact loadsInStep_pure _

theorem blind_tend (events : EventSet) : Blind (m.tend events) := by
  have hadjust : Blind (Routine.act m.adjust) :=
    veil.through_act fun now h => m.veiled_adjust now h
  unfold tend
  split
  · exact (blind_note _).bind fun _ => hadjust
  · exact hadjust

/-- **A cycle** keeps step. -/
theorem lockstep_cycle : LoadsInStep m.cycle m.cycleLoads := by
  rw [cycle_eq_parts]
  refine m.lockstep_associateIfNeeded.bind fun r => ?_
  refine (blind_awaitAny _ _).loadsInStep.first fun events => ?_
  refine (r.1.blind_tend events).loadsInStep.first fun adjusted => ?_
  exact (adjusted.1.lockstep_renewIfAsked events).last fun _ => loadsInStep_pure _

theorem lockstep_loopRound : LoadsInStep m.loopRound m.cycleLoads := by
  refine m.lockstep_cycle.last fun r => Blind.loadsInStep (veil.through_world fun h => ?_)
  refine (blind_note _).bind fun _ => ?_
  split
  · exact (blind_note _).bind fun _ => veil.through_pure _
  · exact veil.through_pure _

/-- **The main loop** keeps step, by induction on its rounds. -/
theorem lockstep_loop (rounds : Nat) : LoadsInStep (loop rounds m) (loopLoads rounds m) := by
  rw [loop_eq]
  induction rounds generalizing m with
  | zero => exact Blind.loadsInStep (veil.through_halt _)
  | succ rounds ih =>
    refine m.lockstep_loopRound.bind fun r => ?_
    cases r with
    | inl m => exact ih m
    | inr never => exact nomatch never

/-- **The whole life of a manager** keeps step. -/
theorem lockstep_run (rounds : Nat) : LoadsInStep (m.run rounds) (m.runLoads rounds) :=
  blind_awaitStack.loadsInStep.first fun _ =>
    (m.blind_establishAtLast rounds).loadsInStep.first fun m => m.lockstep_loop rounds

end Manager

/-! ## steps -/

/-- The same action, but perhaps another key that is written to the store. -/
inductive Action.SameButKey : Action → Action → Prop
  | refl (a : Action) : SameButKey a a
  | writeStore (ssid psk psk' : Option (Option ByteArray)) :
      SameButKey (.writeStore ssid psk) (.writeStore ssid psk')

theorem Action.SameButKey.veiled_eq {a a' : Action} (h : a.SameButKey a') :
    a.veiled = a'.veiled := by
  cases h <;> rfl

namespace HostStep

/-- The same step with the same action, but perhaps another key. -/
inductive SameButKey : HostStep → HostStep → Prop
  | act {a a' : Action} (h : a.SameButKey a') : SameButKey (.act a) (.act a')
  | schedule (ticks : Nat) {a a' : Action} (h : a.SameButKey a') :
      SameButKey (.schedule ticks a) (.schedule ticks a')
  | advance (ticks : Nat) : SameButKey (.advance ticks) (.advance ticks)
  | claim : SameButKey .claim .claim

theorem SameButKey.refl (s : HostStep) : s.SameButKey s := by
  cases s with
  | act a => exact .act (.refl a)
  | schedule ticks a => exact .schedule ticks (.refl a)
  | advance ticks => exact .advance ticks
  | claim => exact .claim

theorem through_act (a : Action) : veil.Through (act a).perform (act a.veiled).perform := by
  unfold perform
  refine veil.through_act fun _ h => ?_
  exact congrArg (fun r : ActionResult × Host => (HostAnswer.action r.1, r.2)) (h.veiled_perform a)

theorem through_schedule (ticks : Nat) (a : Action) :
    veil.Through (schedule ticks a).perform (schedule ticks a.veiled).perform :=
  (veil.through_schedule ticks a).bind fun _ => veil.through_pure _

theorem blind_claim : Blind claim.perform := by
  refine Veil.Through.bind (veil.through_act fun _ h => ?_) fun _ => veil.through_pure _
  have hsame : (veil.world h).mailbox.claim = h.mailbox.claim := rfl
  unfold claimMailbox
  rw [hsame]
  cases h.mailbox.claim <;> rfl

theorem SameButKey.lockstep {s s' : HostStep} (h : s.SameButKey s') :
    veil.Lockstep Store.Alike s.perform s'.perform Reading.nothing Reading.nothing := by
  cases h with
  | @act a a' h =>
    have hother := through_act a'
    rw [← h.veiled_eq] at hother
    exact (through_act a).lockstep hother
  | @schedule ticks a a' h =>
    have hother := through_schedule ticks a'
    rw [← h.veiled_eq] at hother
    exact (through_schedule ticks a).lockstep hother
  | advance ticks =>
    exact Blind.loadsInStep ((veil.through_advance ticks).bind fun _ => veil.through_pure _)
  | claim => exact blind_claim.loadsInStep

end HostStep

namespace ManagerBench

inductive Step.SameButKey : Step → Step → Prop
  | refl (s : Step) : SameButKey s s
  | host {s s' : HostStep} (h : s.SameButKey s') : SameButKey (.host s) (.host s')

/-- The stores that a step of a manager loads. -/
def loads (rounds : Nat) (m : Manager) : Step → Reading Action Host Store
  | .cycle => m.cycleLoads
  | .renew => m.renewLoads
  | .run ticks => Reading.after (Routine.limit ticks) fun _ => m.runLoads (rounds + ticks)
  | _ => Reading.nothing

/-- **Steps of a manager** keep step. -/
theorem Step.SameButKey.lockstep {s s' : Step} (h : s.SameButKey s') (rounds : Nat) (m : Manager) :
    veil.Lockstep Store.Alike (perform rounds m s) (perform rounds m s') (loads rounds m s)
      (loads rounds m s') := by
  cases h with
  | host h => exact h.lockstep.last fun _ => loadsInStep_pure _
  | refl s =>
    cases s with
    | host s => exact (HostStep.SameButKey.refl s).lockstep.last fun _ => loadsInStep_pure _
    | awaitStack => exact Manager.blind_awaitStack.loadsInStep.last fun _ => loadsInStep_pure _
    | start => exact (m.blind_start rounds).loadsInStep.last fun _ => loadsInStep_pure _
    | establish => exact (m.blind_establish rounds).loadsInStep.last fun _ => loadsInStep_pure _
    | cycle => exact m.lockstep_cycle.last fun _ => loadsInStep_pure _
    | renew => exact m.lockstep_renew.last fun _ => loadsInStep_pure _
    | mirrorStatus => exact m.blind_mirror.loadsInStep.last fun _ => loadsInStep_pure _
    | reconcileAddress => exact m.blind_reconcile.loadsInStep.last fun _ => loadsInStep_pure _
    | phase =>
      exact Blind.loadsInStep (veil.through_world fun h => veil.through_pure _)
    | moduleIdentity => exact loadsInStep_pure _
    | requestReconnect =>
      have hsignal : Blind (Routine.act fun _ h =>
          h.signalAccepted (EventSet.single .reconnectRequested)) :=
        veil.through_act fun _ h => h.veiled_signalAccepted _
      exact hsignal.loadsInStep.last fun _ => loadsInStep_pure _
    | run ticks =>
      unfold perform loads
      refine Veil.Lockstep.first (Blind.loadsInStep (veil.through_limit ticks)) fun _ => ?_
      exact (m.lockstep_run (rounds + ticks)).last fun never => nomatch never

end ManagerBench

namespace Parts

/-- The same step, but perhaps another key that is written to the store.  Nobody asks for the
credentials themselves. -/
inductive Step.SameButKey : Step → Step → Prop
  | refl (s : Step) (h : s ≠ .loadCredentials) : SameButKey s s
  | host {s s' : HostStep} (h : s.SameButKey s') : SameButKey (.host s) (.host s')

def consumerLoads (p : Parts) : ConsumerStep → Reading Action Host Store
  | .associateIfAllowed => p.association.loadsIfAllowed
  | .associate => p.association.loads
  | _ => Reading.nothing

/-- The stores that a step on the parts loads for an attempt. -/
def loads (p : Parts) : Step → Reading Action Host Store
  | .consumer s => if p.holdsWaiter then p.consumerLoads s else Reading.nothing
  | _ => Reading.nothing

theorem blind_send (queue : QueueName) (length : Nat) (fill : UInt8) :
    Blind (Routine.act fun _ h => Parts.send queue length fill h) := by
  refine veil.through_act fun _ h => ?_
  unfold send
  cases Frame.filled? length fill with
  | none => rfl
  | some f =>
    have hsame : (veil.world h).queues = h.queues := rfl
    dsimp only
    rw [hsame]
    cases (queue.get h.queues).push? f <;> rfl

theorem blind_receive (queue : QueueName) :
    Blind (Routine.act fun _ h => Parts.receive queue h) := by
  refine veil.through_act fun _ h => ?_
  have hsame : (veil.world h).queues = h.queues := rfl
  unfold receive
  rw [hsame]
  cases (queue.get h.queues).pop? <;> rfl

theorem blind_count (counter : CounterName) (add sub : Nat) :
    Blind (Routine.change (Parts.count counter add sub)) := by
  refine veil.through_change fun h => ?_
  cases counter <;> rfl

/-- **What needs the consumer side** keeps step. -/
theorem lockstep_consumer (p : Parts) (s : ConsumerStep) :
    LoadsInStep (p.performConsumer s) (p.consumerLoads s) := by
  cases s with
  | awaitAll target timeout =>
    exact (blind_awaitAll target timeout).loadsInStep.last fun _ => loadsInStep_pure _
  | awaitAny target timeout =>
    exact (blind_awaitAny target timeout).loadsInStep.last fun _ => loadsInStep_pure _
  | take target => exact (blind_take target).loadsInStep.last fun _ => loadsInStep_pure _
  | putBack events => exact (blind_putBack events).loadsInStep.last fun _ => loadsInStep_pure _
  | associateIfAllowed =>
    exact p.association.lockstep_associateIfAllowed.last fun _ => loadsInStep_pure _
  | associate => exact p.association.lockstep_associate.last fun _ => loadsInStep_pure _
  | awaitStatusIs target timeout =>
    exact (blind_awaitStatus (· == target) timeout).loadsInStep.last fun _ => loadsInStep_pure _
  | awaitStatus accept timeout =>
    exact (blind_awaitStatus accept timeout).loadsInStep.last fun _ => loadsInStep_pure _
  | awaitReport accept timeout =>
    exact (blind_awaitReport accept timeout).loadsInStep.last fun _ => loadsInStep_pure _

/-- **Steps on the parts** keep step. -/
theorem Step.SameButKey.lockstep {s s' : Step} (h : s.SameButKey s') (p : Parts) :
    veil.Lockstep Store.Alike (p.perform s) (p.perform s') (p.loads s) (p.loads s') := by
  cases h with
  | host h => exact h.lockstep.last fun _ => loadsInStep_pure _
  | refl s hs =>
    cases s with
    | host s => exact (HostStep.SameButKey.refl s).lockstep.last fun _ => loadsInStep_pure _
    | consumer s =>
      unfold perform loads
      dsimp only
      split
      · exact p.lockstep_consumer s
      · exact loadsInStep_pure _
    | dropWaiter => exact loadsInStep_pure _
    | drop timeout =>
      exact (Association.blind_drop timeout).loadsInStep.last fun _ => loadsInStep_pure _
    | attempts => exact loadsInStep_pure _
    | loadCredentials => exact absurd rfl hs
    | reset => exact blind_reset.loadsInStep.last fun _ => loadsInStep_pure _
    | receiveReady =>
      exact Blind.loadsInStep (veil.through_world fun h => veil.through_pure _)
    | transferReady =>
      exact Blind.loadsInStep (veil.through_world fun h => veil.through_pure _)
    | pin name level failing =>
      have hset : Blind (Routine.act fun _ h => setPin name level failing h) :=
        veil.through_act fun _ _ => rfl
      exact hset.loadsInStep.last fun _ => loadsInStep_pure _
    | reportCode code =>
      have hreport : Blind (Routine.change (·.report (RadioStatus.ofCode code))) :=
        veil.through_change fun h => (h.veiled_report _).symm
      exact hreport.loadsInStep.last fun _ => loadsInStep_pure _
    | count counter add sub =>
      exact Blind.loadsInStep ((blind_count counter add sub).bind fun _ =>
        veil.through_world fun h => veil.through_pure _)
    | send queue length fill =>
      exact (blind_send queue length fill).loadsInStep.last fun _ => loadsInStep_pure _
    | receive queue => exact (blind_receive queue).loadsInStep.last fun _ => loadsInStep_pure _
    | write data =>
      have hwrite : Blind (Routine.act fun _ h =>
          let r := h.queues.responses.write data
          (r.1, { h with queues.responses := r.2 })) := veil.through_act fun _ _ => rfl
      exact hwrite.loadsInStep.last fun _ => loadsInStep_pure _
    | read max =>
      have hread : Blind (Routine.act fun _ h =>
          let r := h.queues.responses.read max
          (r.1, { h with queues.responses := r.2 })) := veil.through_act fun _ _ => rfl
      exact hread.loadsInStep.last fun _ => loadsInStep_pure _

end Parts

/-! ## sessions -/

/-- The same request, but perhaps another key for the co-processor to connect with. -/
inductive Request.SameButKey : Request → Request → Prop
  | refl (r : Request) : SameButKey r r
  | connect (ssid psk psk' : String) : SameButKey (.connect ssid psk) (.connect ssid psk')

/-- The same happened, but perhaps with another key in a request, or in what somebody wrote to the
store. -/
inductive TraceEntry.SameButKey : TraceEntry → TraceEntry → Prop
  | asked (time : Nat) {r r' : Request} (timeout : Nat) (h : r.SameButKey r') :
      SameButKey (.asked time r timeout) (.asked time r' timeout)
  | called (time : Nat) (call : InterfaceCall) : SameButKey (.called time call) (.called time call)
  | fired (time : Nat) {a a' : Action} (result : ActionResult) (h : a.SameButKey a') :
      SameButKey (.fired time a result) (.fired time a' result)
  | accepted (events : EventSet) : SameButKey (.accepted events) (.accepted events)

theorem Request.sameButKey_of_veiled_eq {r r' : Request} (h : r.veiled = r'.veiled) :
    r.SameButKey r' := by
  cases r <;> cases r' <;> cases h
  case connect.connect.refl ssid psk psk' => exact .connect ssid psk psk'
  all_goals exact .refl _

theorem Action.sameButKey_of_veiled_eq {a a' : Action} (h : a.veiled = a'.veiled) :
    a.SameButKey a' := by
  cases a <;> cases a' <;> cases h
  case writeStore.writeStore.refl ssid psk psk' => exact .writeStore ssid psk psk'
  all_goals exact .refl _

theorem TraceEntry.sameButKey_of_veiled_eq {e e' : TraceEntry} (h : e.veiled = e'.veiled) :
    e.SameButKey e' := by
  cases e with
  | asked time r timeout =>
    cases e' with
    | asked time' r' timeout' =>
      obtain ⟨rfl, hr, rfl⟩ := TraceEntry.asked.inj h
      exact .asked time timeout (Request.sameButKey_of_veiled_eq hr)
    | _ => cases h
  | fired time a result =>
    cases e' with
    | fired time' a' result' =>
      obtain ⟨rfl, ha, rfl⟩ := TraceEntry.fired.inj h
      exact .fired time result (Action.sameButKey_of_veiled_eq ha)
    | _ => cases h
  | called time call =>
    cases e' <;> cases h
    exact .called time call
  | accepted events =>
    cases e' <;> cases h
    exact .accepted events

/-- The same host, but for the key in the store and in the trace. -/
structure Host.SameButKey (h h' : Host) : Prop where
  mailbox : h.mailbox = h'.mailbox
  status : h.status = h'.status
  seen : h.seen = h'.seen
  interface : h.interface = h'.interface
  ssid : h.store.ssid = h'.store.ssid
  coprocessor : h.coprocessor = h'.coprocessor
  queues : h.queues = h'.queues
  pins : h.pins = h'.pins
  trace : List.Forall₂ TraceEntry.SameButKey h.trace.toList h'.trace.toList
  log : h.log = h'.log
  drives : h.drives = h'.drives

theorem Host.sameButKey_of_veiled_eq {h h' : Host} (heq : h.veiled = h'.veiled) :
    h.SameButKey h' := by
  unfold veiled at heq
  injection heq with mailbox status seen interface store coprocessor queues pins trace log drives
  have hssid := congrArg Store.ssid store
  have hlist := congrArg Array.toList trace
  rw [Array.toList_map, Array.toList_map] at hlist
  rw [← List.forall₂_eq_eq_eq, List.forall₂_map_left_iff, List.forall₂_map_right_iff] at hlist
  exact
    { mailbox, status, seen, interface, ssid := hssid, coprocessor, queues, pins, log, drives
      trace := hlist.imp fun _ _ => TraceEntry.sameButKey_of_veiled_eq }

/-- The same answer, or halt, at the same time.  What was done since the step before is the same but
for the key, and so is what any manager shows of the host. -/
structure Entry.SameButKey {τ ρ : Type} (e e' : Entry Action Host τ ρ) : Prop where
  outcome : e.outcome = e'.outcome
  now : e.after.now = e'.after.now
  world : e.after.world.SameButKey e'.after.world
  view : ∀ m : Manager, m.view e.after.world = m.view e'.after.world

theorem Entry.sameButKey_of_timeline_eq {τ ρ : Type} {e e' : Entry Action Host τ ρ}
    (houtcome : e.outcome = e'.outcome)
    (hafter : veil.timeline e.after = veil.timeline e'.after) : e.SameButKey e' := by
  have hnow := congrArg Timeline.now hafter
  have hworld : e.after.world.veiled = e'.after.world.veiled := congrArg Timeline.world hafter
  have hview (m : Manager) := congrArg m.view hworld
  exact ⟨houtcome, hnow, Host.sameButKey_of_veiled_eq hworld, hview⟩

/-- **The key does not leak.**  Take two timelines that are the same but for the key, in the store
and in what is yet to be written to it, and on both a session of a manager, or of an association
with the other parts, with the same steps but for a key that is written.  Suppose that at each load
of the credentials, one by one, both sessions find credentials that are accepted, or neither does.
Then entry by entry the two have the same answer or come to the same halt, leave the same manager,
the same clock, mailbox, status, interface and view, and the same lines of the log.  They make the
same requests and the same calls at the same instants, except that a request to connect may hand
over another key. -/
theorem key_does_not_leak {tl tl' : Timeline Action Host}
    (hstart : veil.timeline tl = veil.timeline tl') :
    (∀ (rounds : Nat) (m : Manager) (steps steps' : List ManagerBench.Step),
      List.Forall₂ ManagerBench.Step.SameButKey steps steps' →
      Agree Store.Alike
        (Session.reads (ManagerBench.perform rounds) Host.clear (ManagerBench.loads rounds) m steps
          tl)
        (Session.reads (ManagerBench.perform rounds) Host.clear (ManagerBench.loads rounds) m steps'
          tl') →
      List.Forall₂ Entry.SameButKey
        (Session.drive (ManagerBench.perform rounds) Host.clear m tl steps).1
        (Session.drive (ManagerBench.perform rounds) Host.clear m tl' steps').1) ∧
    ∀ (p : Parts) (steps steps' : List Parts.Step),
      List.Forall₂ Parts.Step.SameButKey steps steps' →
      Agree Store.Alike (Session.reads Parts.perform Host.clear Parts.loads p steps tl)
        (Session.reads Parts.perform Host.clear Parts.loads p steps' tl') →
      List.Forall₂ Entry.SameButKey (Session.drive Parts.perform Host.clear p tl steps).1
        (Session.drive Parts.perform Host.clear p tl' steps').1 := by
  have hclear (h : Host) : h.veiled.clear = h.clear.veiled := by
    unfold Host.clear Host.veiled
    rw [Array.map_empty]
  constructor
  · intro rounds m steps steps' hsteps hagree
    refine (Veil.Lockstep.drive (fun m s s' hs => hs.lockstep rounds m) hclear hsteps m hstart
      hagree).imp fun _ _ h => Entry.sameButKey_of_timeline_eq h.1 h.2
  · intro p steps steps' hsteps hagree
    refine (Veil.Lockstep.drive (fun p s s' hs => hs.lockstep p) hclear hsteps p hstart
      hagree).imp fun _ _ h => Entry.sameButKey_of_timeline_eq h.1 h.2

/-- The host of the bench with a key of its own, and a claimed mailbox. -/
def keyed (key : String) : Timeline Action Host where
  now := 0
  world :=
    { HostSetup.host {} with
      store := ⟨some "home".toUTF8, some key.toUTF8⟩
      mailbox := { claimed := true } }

/-- A new key is written, and the manager reconnects with it. -/
def rekeyed (key : String) : List ManagerBench.Step :=
  [.host (.act (.writeStore none (some (some key.toUTF8)))), .renew]

theorem reads_rekeyed (key key' : String) : Session.reads (ManagerBench.perform 1) Host.clear
    (ManagerBench.loads 1) {} (rekeyed key') (keyed key)
      = [⟨some "home".toUTF8, some key'.toUTF8⟩] := by
  show Manager.renewLoads {} (keyed key') ++
    Reading.after (ManagerBench.perform 1 {} .renew) (fun _ => Reading.nothing) (keyed key') = _
  rw [Reading.after_nothing]
  rfl

def rekeying (key key' : String) : List (Entry Action Host Manager ManagerBench.Answer) :=
  (Session.drive (ManagerBench.perform 1) Host.clear {} (keyed key) (rekeyed key')).1

/-- A request of the entry hands the key over. -/
def Entry.handsOver {τ ρ : Type} (key : String) (e : Entry Action Host τ ρ) : Bool :=
  e.after.world.trace.any fun
    | .asked _ (.connect _ psk) _ => psk == key
    | _ => false

/-- Two managers hand over two keys, and that is all in which they differ. -/
theorem new_keys_stay_hidden :
    List.Forall₂ Entry.SameButKey (rekeying "hunter22" "correct horse")
      (rekeying "hunter23" "battery staple") ∧
    (rekeying "hunter22" "correct horse").any (Entry.handsOver "correct horse") = true ∧
    (rekeying "hunter23" "battery staple").any (Entry.handsOver "battery staple") = true := by
  have hstart : veil.timeline (keyed "hunter22") = veil.timeline (keyed "hunter23") := rfl
  refine ⟨(key_does_not_leak hstart).1 1 {} _ _ ?_ ?_, by decide +kernel, by decide +kernel⟩
  · exact .cons (.host (.act (.writeStore none _ _))) (.cons (.refl .renew) .nil)
  · rw [reads_rekeyed, reads_rekeyed]
    exact List.forall_mem_cons.mpr ⟨by unfold Store.Alike; decide, fun p hp => nomatch hp⟩

end Uplink
