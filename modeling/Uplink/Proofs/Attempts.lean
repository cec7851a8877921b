import Uplink.Bench.Host
import Uplink.Manager.Cycle
import Uplink.Proofs.Accounts

/-!
# Attempts keep the accounts

The operations of the consumer that watch for a status take updates out of the mailbox, hold them
while they wait, and put them back on every way out.  Here each of them, and the association that
is built from them, is shown to keep the accounts of the mailbox, together with its requests.

* `HostRoutine.quiet_awaitReport`  a wait for a report owes the updates it took until it returns;
* `Association.request_tame`       a request to connect owes the stale updates all the while;
* `Association.associate_asks`     an attempt selects the mode of a station first;
* `Manager.renew_asks`             a reconnect asks for one disconnect, and then makes an attempt;
* `pending_after_operation`        no event is lost and none is made up.
-/

namespace Uplink

open Host

namespace HostRoutine

/-! ## waiting for a status -/

/-- What is owed during a wait for a report: an update that it took. -/
def owedWhile (owed : EventSet) (taken : Bool) : EventSet :=
  owed ||| if taken then updates else EventSet.empty

theorem owedWhile_false (owed : EventSet) : owedWhile owed false = owed := BitVec.or_zero

theorem owedWhile_or_updates (owed : EventSet) (taken : Bool) :
    owedWhile owed taken ||| updates = owedWhile owed true := by
  unfold owedWhile
  cases taken with
  | false => rw [if_neg Bool.false_ne_true, if_pos rfl, EventSet.empty, BitVec.or_zero]
  | true => rw [if_pos rfl, BitVec.or_assoc, BitVec.or_self]

theorem take_updates (h : Host) : (port.take updates h).1
    = if h.mailbox.pending.Has .statusUpdated then updates else EventSet.empty :=
  EventSet.inter_single _ _

/-- A look that finds an update owes that update. -/
theorem take_some {h₀ h : Host} {owed : EventSet} {rs : List Request} {taken : Bool}
    (hs : Since h₀ (owedWhile owed taken) rs h)
    (hsome : (port.take updates h).1 ≠ EventSet.empty) :
    Since h₀ (owedWhile owed true) rs (port.take updates h).2 := by
  have ht := hs.take updates
  have htook : (port.take updates h).1 = updates := by
    have hinter := take_updates h
    split at hinter
    · exact hinter
    · exact absurd hinter hsome
  rw [htook, owedWhile_or_updates] at ht
  exact ht

theorem watch_owes (accept : RadioStatus → Bool) (deadline : Option Nat) {h₀ : Host}
    {owed : EventSet} {rs : List Request} {tl : Timeline Action Host}
    (hs : Since h₀ owed rs tl.world) :
    (Routine.await (watch accept deadline) deadline false).Ends tl
      (fun v tl' => Since h₀ (owedWhile owed v.1) rs tl'.world)
      (fun tl' => Grown h₀ rs tl'.world) := by
  have hover : Routine.Over (fun _ (v : Bool × Bool) h => Since h₀ (owedWhile owed v.1) rs h)
      (fun _ taken h => Since h₀ (owedWhile owed taken) rs h) tl.agenda []
      (Routine.await (watch accept deadline) deadline false tl) := by
    refine Routine.await_over (I := fun _ taken h => Since h₀ (owedWhile owed taken) rs h)
      ?_ ?_ ?_ (by rw [owedWhile_false]; exact hs)
    · intro _ t taken h hs
      unfold watch
      dsimp only
      split
      · exact hs.take_none (by assumption)
      · have ht := take_some hs (by assumption)
        split
        · exact ht
        · split
          · exact ht
          · exact ht.note _
    · intro _ taken h t as hs
      exact hs.fire t as
    · intro _ taken h hs
      exact hs.note _
  have htrace : ∀ (as : List Action) (taken : Bool) (h : Host),
      Since h₀ (owedWhile owed taken) rs h → Grown h₀ rs h := fun _ _ _ hs => hs.grown
  exact hover.ended (fun _ _ _ hs => hs) htrace

theorem quiet_awaitReport (accept : RadioStatus → Bool) (timeout : Nat) :
    Quiet (awaitReport accept timeout) := by
  unfold awaitReport
  refine keeps_now.then fun start => ?_
  dsimp only
  split
  · exact (keeps_pure _).quiet
  · refine (keeps_note _).then fun _ => ?_
    intro h₀ owed rs tl hs
    refine Routine.ends_bind.mpr ((watch_owes accept _ hs).imp ?_ ?_)
    · intro v tl' hs'
      obtain ⟨taken, accepted⟩ := v
      cases taken with
      | false =>
        rw [owedWhile_false] at hs'
        exact ⟨[], rfl, hs'.no_more⟩
      | true =>
        have howed : Since h₀ (owed ||| updates) rs tl'.world := hs'
        exact ⟨[], rfl, howed.putBack.no_more⟩
    · intro tl' hg
      exact ⟨[], rfl, by rwa [List.append_nil]⟩

theorem quiet_awaitStatus (accept : RadioStatus → Bool) (timeout : Nat) :
    Quiet (awaitStatus accept timeout) := by
  unfold awaitStatus
  refine keeps_status.then fun current => ?_
  split
  · exact (keeps_pure _).quiet
  · refine (quiet_awaitReport accept timeout).quietly (fun _ => ?_) fun _ h => h
    exact keeps_status.then fun _ => (keeps_pure _).quiet

/-! ## requests -/

theorem asks_ask {α : Type} (request : Request) (draw : Coprocessor → Response α × Coprocessor)
    (timeout : Nat) : Asks (ask request draw timeout) (· = [request]) (· = [request]) := by
  unfold ask
  refine Asks.quietly (R := (· = [request])) (E := (· = [request])) ?_ (fun response => ?_)
    fun _ h => h
  · intro h₀ owed rs tl hs
    refine Routine.ends_act ⟨[request], rfl, ?_⟩
    have hdrawn : Since h₀ owed rs { tl.world with coprocessor := (draw tl.world.coprocessor).2 } :=
      hs.same rfl rfl
    exact hdrawn.recordAsked tl.now request timeout
  · refine (keeps_change fun hs => hs.reportCodes _).then fun _ => ?_
    split
    · exact (quiet_sleep _).quietly (fun _ => (keeps_pure _).quiet) fun _ h => h
    · have hrest : Quiet (do
          Routine.change (·.reportCodes response.late)
          return response.outcome : HostRoutine (Except TransportFault α)) :=
        (keeps_change fun hs => hs.reportCodes _).then fun _ => (keeps_pure _).quiet
      split
      · exact (quiet_sleep _).quietly (fun _ => hrest) fun _ h => h
      · exact hrest

end HostRoutine

/-! ## attempts -/

def Tame (rs : List Request) : Prop := Request.disconnect ∉ rs

/-- The requests of an attempt: the mode of a station first, and then no disconnect. -/
def Attempts (rs : List Request) : Prop := ∃ more, rs = .selectMode .station :: more ∧ Tame more

theorem tame_nil : Tame [] := List.not_mem_nil

theorem tame_cons {r : Request} {rs : List Request} (hr : r ≠ .disconnect) (hrs : Tame rs) :
    Tame (r :: rs) := by
  intro h
  rcases List.mem_cons.mp h with h | h
  · exact hr h.symm
  · exact hrs h

theorem Tame.append {as bs : List Request} (ha : Tame as) (hb : Tame bs) : Tame (as ++ bs) := by
  intro h
  rcases List.mem_append.mp h with h | h
  · exact ha h
  · exact hb h

theorem Attempts.tame {rs : List Request} (h : Attempts rs) : Tame rs := by
  obtain ⟨more, rfl, hm⟩ := h
  exact tame_cons (fun h => nomatch h) hm

theorem HostRoutine.Asks.tame {β : Type} {x : HostRoutine β} (hx : HostRoutine.Quiet x) :
    HostRoutine.Asks x Tame Tame := by
  have hnil : ∀ rs, rs = [] → Tame rs := by
    intro rs h
    rw [h]
    exact tame_nil
  exact hx.imp hnil hnil

theorem HostRoutine.Asks.tame_bind {β γ : Type} {x : HostRoutine β} {f : β → HostRoutine γ}
    (hx : HostRoutine.Asks x Tame Tame) (hf : ∀ b, HostRoutine.Asks (f b) Tame Tame) :
    HostRoutine.Asks (x >>= f) Tame Tame :=
  hx.bind hf (fun _ _ ha hb => ha.append hb) (fun _ h => h) fun _ _ ha hb => ha.append hb

theorem HostRoutine.ask_tame {α : Type} {request : Request} (hr : request ≠ .disconnect)
    (draw : Coprocessor → Response α × Coprocessor) (timeout : Nat) :
    HostRoutine.Asks (HostRoutine.ask request draw timeout) Tame Tame := by
  have hone : ∀ rs, rs = [request] → Tame rs := by
    intro rs h
    rw [h]
    exact tame_cons hr tame_nil
  exact (HostRoutine.asks_ask request draw timeout).imp hone hone

namespace Association

open HostRoutine

theorem request_tame (a : Association) (c : Credentials) : Asks (a.request c) Tame Tame := by
  intro h₀ owed rs tl hs
  unfold request
  refine Routine.ends_bind.mpr (Routine.ends_act ?_)
  have hstale := hs.take updates
  have hconnect : Tame [.connect c.ssid c.psk] := tame_cons (fun h => nomatch h) tame_nil
  refine Routine.ends_bind.mpr ((asks_ask _ _ _ _ hstale).imp ?_ ?_)
  · intro answer tl₁ hend
    obtain ⟨_, rfl, hs₁⟩ := hend
    rcases answer with e | ⟨⟩
    · exact ⟨_, hconnect, (hs₁.note (.connectFailed e)).putBack⟩
    · refine Routine.ends_bind.mpr ((quiet_awaitReport _ _ _ hs₁).imp ?_ ?_)
      · intro up tl₂ hend
        obtain ⟨_, rfl, hs₂⟩ := hend
        rw [List.append_nil] at hs₂
        cases up with
        | true => exact ⟨_, hconnect, hs₂.putBack.note .associated⟩
        | false => exact ⟨_, hconnect, hs₂.putBack.note (.stationUpMissing tl₂.world.status)⟩
      · intro tl₂ hend
        obtain ⟨_, rfl, hg⟩ := hend
        rw [List.append_nil] at hg
        exact ⟨_, hconnect, hg⟩
  · intro tl₁ hend
    obtain ⟨_, rfl, hg⟩ := hend
    exact ⟨_, hconnect, hg⟩

theorem attempt_asks (a : Association) : Asks a.attempt Attempts Attempts := by
  unfold attempt
  have hmode : ∀ as bs, as = [.selectMode .station] → Tame bs → Attempts (as ++ bs) := by
    intro as bs heq hb
    subst heq
    exact ⟨bs, rfl, hb⟩
  refine (asks_ask _ _ _).bind (fun r => ?_) hmode ?_ hmode
  · rcases r with e | ⟨⟩
    · exact ((keeps_note _).then fun _ => (keeps_pure _).quiet).tame
    · refine keeps_world.then fun h => ?_
      split
      · exact ((keeps_note _).then fun _ => (keeps_pure _).quiet).tame
      · exact (keeps_note _).then fun _ => a.request_tame _
  · intro as heq
    subst heq
    exact ⟨[], rfl, tame_nil⟩

theorem associate_asks (a : Association) : Asks a.associate Attempts Attempts := by
  unfold associate
  dsimp only
  exact (attempt_asks _).quietly (fun _ => (keeps_pure _).quiet) fun _ h => h

theorem associateIfAllowed_tame (a : Association) : Asks a.associateIfAllowed Tame Tame := by
  unfold associateIfAllowed
  refine keeps_status.then fun current => ?_
  split
  · exact a.associate_asks.imp (fun _ h => h.tame) fun _ h => h.tame
  · exact ((keeps_note _).then fun _ => (keeps_pure _).quiet).tame

theorem drop_asks (timeout : Nat) :
    Asks (drop timeout) (· = [.disconnect]) (· = [.disconnect]) :=
  (asks_ask _ _ _).quietly (fun _ => (keeps_pure _).quiet) fun _ h => h

end Association

/-- The requests of a reconnect: one disconnect, and then an attempt. -/
def Renews (rs : List Request) : Prop := ∃ more, rs = .disconnect :: more ∧ Attempts more

/-- The requests of a reconnect that may have come to a halt. -/
def BeginsToRenew (rs : List Request) : Prop := ∃ more, rs = .disconnect :: more ∧ Tame more

theorem Renews.begins {rs : List Request} (h : Renews rs) : BeginsToRenew rs := by
  obtain ⟨more, rfl, hm⟩ := h
  exact ⟨more, rfl, hm.tame⟩

namespace Manager

open HostRoutine

theorem renew_asks (m : Manager) : Asks m.renew Renews BeginsToRenew := by
  unfold renew
  have hrenew : ∀ as bs, as = [.disconnect] → Attempts bs → Renews (as ++ bs) := by
    intro as bs heq hb
    subst heq
    exact ⟨bs, rfl, hb⟩
  have hbegin : ∀ as bs, as = [.disconnect] → Tame bs → BeginsToRenew (as ++ bs) := by
    intro as bs heq hb
    subst heq
    exact ⟨bs, rfl, hb⟩
  refine (keeps_note _).then fun _ => ?_
  refine (Association.drop_asks _).bind (fun r => ?_) hrenew ?_ hbegin
  · have hagain : Asks (m.association.associate >>= fun r => pure ({ m with association := r.1 }, r.2))
        Attempts Tame :=
      (m.association.associate_asks.quietly (fun _ => (keeps_pure _).quiet) fun _ h => h).imp
        (fun _ h => h) fun _ h => h.tame
    split
    · exact (keeps_note _).then fun _ => hagain
    · exact hagain
  · intro as heq
    subst heq
    exact ⟨[], rfl, tame_nil⟩

end Manager

/-! ## conservation -/

/-- The operations of the consumer that watch for status updates, make associations or drop them. -/
inductive ConnectionOperation : {β : Type} → HostRoutine β → Prop
  | awaitStatus (accept : RadioStatus → Bool) (timeout : Nat) :
    ConnectionOperation (HostRoutine.awaitStatus accept timeout)
  | awaitStatusIs (target : RadioStatus) (timeout : Nat) :
    ConnectionOperation (HostRoutine.awaitStatusIs target timeout)
  | awaitReport (accept : RadioStatus → Bool) (timeout : Nat) :
    ConnectionOperation (HostRoutine.awaitReport accept timeout)
  | associateIfAllowed (a : Association) : ConnectionOperation a.associateIfAllowed
  | associate (a : Association) : ConnectionOperation a.associate
  | drop (timeout : Nat) : ConnectionOperation (Association.drop timeout)
  | renew (m : Manager) : ConnectionOperation m.renew

theorem ConnectionOperation.asks {β : Type} {x : HostRoutine β} (hx : ConnectionOperation x) :
    HostRoutine.Asks x (fun _ => True) fun _ => True := by
  have hany : ∀ {R E : List Request → Prop}, HostRoutine.Asks x R E →
      HostRoutine.Asks x (fun _ => True) fun _ => True :=
    fun h => h.imp (fun _ _ => trivial) fun _ _ => trivial
  cases hx with
  | awaitStatus accept timeout => exact hany (HostRoutine.quiet_awaitStatus accept timeout)
  | awaitStatusIs target timeout => exact hany (HostRoutine.quiet_awaitStatus _ timeout)
  | awaitReport accept timeout => exact hany (HostRoutine.quiet_awaitReport accept timeout)
  | associateIfAllowed a => exact hany a.associateIfAllowed_tame
  | associate a => exact hany a.associate_asks
  | drop timeout => exact hany (Association.drop_asks timeout)
  | renew m => exact hany m.renew_asks

/-- **No event is lost and none is made up.**  An operation that watches for status updates, makes
an association or drops one, whenever it returns, has left in the mailbox what was pending before
and what the mailbox accepted meanwhile, and nothing else.  So an update is pending afterwards
exactly if it was pending before or was signalled during the operation. -/
theorem pending_after_operation {β : Type} {x : HostRoutine β} (hx : ConnectionOperation x)
    {tl tl' : Timeline Action Host} {b : β} (hreturn : x tl = .ok b tl') :
    ∃ new, tl'.world.trace.toList = tl.world.trace.toList ++ new ∧
      tl'.world.mailbox.claimed = tl.world.mailbox.claimed ∧
      tl'.world.mailbox.pending = tl.world.mailbox.pending ||| acceptedIn new ∧
      (tl'.world.mailbox.pending.Has .statusUpdated ↔
        tl.world.mailbox.pending.Has .statusUpdated ∨
          ∃ events, .accepted events ∈ new ∧ events.Has .statusUpdated) := by
  obtain ⟨_, _, new, ⟨htrace, hclaimed, hpending⟩, _⟩ :=
    (hx.asks tl (since_refl tl.world)).of_ok hreturn
  rw [EventSet.empty, BitVec.or_zero] at hpending
  refine ⟨new, htrace, hclaimed, hpending, ?_⟩
  rw [hpending, EventSet.has_or, has_acceptedIn]

def slowSetup : HostSetup where
  ssid := some none
  feeds := { disconnections := some [{ delay := 5, outcome := .ok () }] }

/-- A claimed mailbox, and a report of the slow co-processor after three ticks. -/
def slowToDisconnect : Timeline Action Host where
  now := slowSetup.clock
  agenda := [⟨3, [.report .stationDown]⟩]
  world := { slowSetup.host with mailbox := { claimed := true } }

/-- Slow to connect as well, and with the credentials of the bench. -/
def slowerSetup : HostSetup where
  feeds := { slowSetup.feeds with connections := some [{ delay := 4, outcome := .ok () }] }

/-- An update is pending, next to another event.  A status is reported while the co-processor
disconnects, another while it connects, and the station comes up after that. -/
def updatedBefore : Timeline Action Host where
  now := slowerSetup.clock
  agenda :=
    [⟨3, [.report .stationDown]⟩, ⟨7, [.report .apDown]⟩, ⟨12, [.report .stationUp]⟩]
  world := { slowerSetup.host with
    mailbox := { claimed := true, pending := .single .statusUpdated ||| .single .linkUp } }

/-- The stale updates are set aside for the request to connect.  The wait for a report takes that of
the second report, which it rejects, and that of the third.  All are put back. -/
theorem pending_after_slow_renew :
    ∃ b tl', ({} : Manager).renew updatedBefore = .ok b tl' ∧ b.2 = .ok .stationUp ∧
      tl'.now = 12 ∧
      ∃ new, tl'.world.trace.toList = updatedBefore.world.trace.toList ++ new ∧
        tl'.world.mailbox.claimed = updatedBefore.world.mailbox.claimed ∧
        tl'.world.mailbox.pending = updatedBefore.world.mailbox.pending ||| acceptedIn new ∧
        (tl'.world.mailbox.pending.Has .statusUpdated ↔
          updatedBefore.world.mailbox.pending.Has .statusUpdated ∨
            ∃ events, .accepted events ∈ new ∧ events.Has .statusUpdated) := by
  have hreturn : ({} : Manager).renew updatedBefore = .ok _ _ := rfl
  exact ⟨_, _, hreturn, rfl, rfl, pending_after_operation (.renew _) hreturn⟩

end Uplink
