import Mathlib.Data.Finset.Lattice.Fold
import Mathlib.Order.Bounds.Basic
import Uplink.Proofs.StrayBits

/-!
# The packet backlog

Packets are counted up when they are queued and down when they are sent, with saturation at zero.
So a packet that is counted down too early is forgotten, and the count stays too high by it.

* `PacketCall`                       counting one packet up or down;
* `balance`, `lowest`                increments minus decrements, and the least of them so far;
* `PacketCount.count_after`          the count is the balance over the lowest one, by induction;
* `IsBacklog`                        what this comes to;
* `Host.Moves.txWaiting_eq`          the counter of a host, from the calls that its trace tells;
* `ManagerBench.txWaiting_perform`   the counter after a step;
* `ManagerBench.backlogAlong_drive`  the backlog after each step of a session;
* `backlog_errs_by_early_decrements` the count, also as any manager shows it.
-/

namespace Uplink

/-- A call on a packet counter. -/
inductive PacketCall where
  | increment
  | decrement
  deriving DecidableEq

namespace PacketCall

def perform (c : PacketCount) : PacketCall → PacketCount
  | increment => c.succ
  | decrement => c.pred

def delta : PacketCall → Int
  | increment => 1
  | decrement => -1

/-- A counter is cut off at zero, and one that is not full nowhere else. -/
theorem count_perform {c : PacketCount} {call : PacketCall}
    (h : call = increment → c.count < PacketCount.limit) :
    ((perform c call).count : Int) = max 0 (c.count + call.delta) := by
  cases call with
  | increment =>
    have hroom := h rfl
    show ((min (c.count + 1) PacketCount.limit : Nat) : Int) = max 0 ((c.count : Int) + 1)
    omega
  | decrement =>
    show ((c.count - 1 : Nat) : Int) = max 0 ((c.count : Int) + -1)
    omega

theorem count_perform_le (c : PacketCount) (call : PacketCall) :
    (perform c call).count ≤ c.count + if call = increment then 1 else 0 := by
  cases call with
  | increment => exact Nat.min_le_left _ _
  | decrement => exact Nat.sub_le _ _

end PacketCall

/-! ## balances -/

section
variable (calls : List PacketCall)

/-- Increments minus decrements among the first `j` calls. -/
def balance (j : Nat) : Int :=
  ((calls.take j).count .increment : Int) - (calls.take j).count .decrement

/-- The least balance, before all calls or after some of them. -/
def lowest : Int :=
  (Finset.range (calls.length + 1)).inf' Finset.nonempty_range_add_one (balance calls)

theorem lowest_le {j : Nat} (hj : j ≤ calls.length) : lowest calls ≤ balance calls j :=
  Finset.inf'_le _ (Finset.mem_range_succ_iff.mpr hj)

theorem exists_balance_eq_lowest : ∃ j ≤ calls.length, balance calls j = lowest calls := by
  obtain ⟨j, hj, heq⟩ := Finset.exists_mem_eq_inf'
    (Finset.nonempty_range_add_one (n := calls.length)) (balance calls)
  exact ⟨j, Finset.mem_range_succ_iff.mp hj, heq.symm⟩

theorem lowest_le_zero : lowest calls ≤ 0 := lowest_le calls (Nat.zero_le _)

variable (call : PacketCall)

theorem balance_append {j : Nat} (hj : j ≤ calls.length) :
    balance (calls ++ [call]) j = balance calls j := by
  unfold balance
  rw [List.take_append_of_le_length hj]

theorem balance_append_length : balance (calls ++ [call]) (calls.length + 1)
    = balance calls calls.length + call.delta := by
  have hall : (calls ++ [call]).take (calls.length + 1) = calls ++ [call] :=
    List.take_of_length_le (by simp)
  unfold balance
  rw [hall, List.take_length]
  cases call <;> simp [PacketCall.delta] <;> omega

/-- With one more call only the balance of all calls is new. -/
theorem lowest_append : lowest (calls ++ [call])
    = min (lowest calls) (balance calls calls.length + call.delta) := by
  have hlength : (calls ++ [call]).length = calls.length + 1 := by simp
  have hold {j : Nat} (hj : j ≤ calls.length) :
      lowest (calls ++ [call]) ≤ balance calls j := by
    rw [← balance_append calls call hj]
    exact lowest_le _ (by omega)
  have hnew : lowest (calls ++ [call]) ≤ balance calls calls.length + call.delta := by
    rw [← balance_append_length]
    exact lowest_le _ (by omega)
  obtain ⟨i, hi, hlowest⟩ := exists_balance_eq_lowest calls
  obtain ⟨j, hj, hreached⟩ := exists_balance_eq_lowest (calls ++ [call])
  have hbefore := hold hi
  by_cases hlast : j = calls.length + 1
  · rw [hlast, balance_append_length] at hreached
    omega
  · have hj' : j ≤ calls.length := by omega
    have hleast := lowest_le calls hj'
    rw [balance_append calls call hj'] at hreached
    omega

end

/-! ## the count -/

namespace PacketCount

/-- What a fresh counter becomes. -/
def after (calls : List PacketCall) : PacketCount := calls.foldl PacketCall.perform {}

theorem after_append (calls : List PacketCall) (call : PacketCall) :
    after (calls ++ [call]) = PacketCall.perform (after calls) call := List.foldl_concat ..

theorem count_after_le (calls : List PacketCall) :
    (after calls).count ≤ calls.count .increment := by
  induction calls using List.reverseRecOn with
  | nil => exact Nat.le_refl 0
  | append_singleton calls call ih =>
    have hstep := PacketCall.count_perform_le (after calls) call
    rw [after_append, List.count_append, List.count_singleton]
    simp only [beq_iff_eq]
    omega

/-- **The count is the balance over the lowest balance.**  Induction on the calls, from the last
one: at zero a decrement lowers the balance and the lowest balance alike. -/
theorem count_after {calls : List PacketCall} (hfew : calls.count .increment ≤ limit) :
    ((after calls).count : Int) = balance calls calls.length - lowest calls := by
  induction calls using List.reverseRecOn with
  | nil => rfl
  | append_singleton calls call ih =>
    rw [List.count_append, List.count_singleton] at hfew
    simp only [beq_iff_eq] at hfew
    have hcount := ih (by omega)
    have hroom : call = .increment → (after calls).count < limit := by
      intro hcall
      have hle := count_after_le calls
      rw [hcall, if_pos rfl] at hfew
      omega
    rw [after_append, PacketCall.count_perform hroom, hcount, lowest_append, List.length_append,
      List.length_singleton, balance_append_length]
    omega

end PacketCount

/-- What the count tells of the calls. -/
structure IsBacklog (calls : List PacketCall) (count : Nat) : Prop where
  eq_sub_lowest : (count : Int) = balance calls calls.length - lowest calls
  eq_balance : (∀ j ≤ calls.length, 0 ≤ balance calls j) →
    (count : Int) = balance calls calls.length
  /-- It does not wrap around. -/
  le_increments : count ≤ calls.count .increment
  balance_le : balance calls calls.length ≤ count
  /-- It is too high by the largest deficit of a prefix. -/
  error : IsGreatest {d | ∃ j ≤ calls.length, d = -balance calls j}
    (count - balance calls calls.length)

theorem isBacklog_after {calls : List PacketCall}
    (hfew : calls.count .increment ≤ PacketCount.limit) :
    IsBacklog calls (PacketCount.after calls).count := by
  have hcount := PacketCount.count_after hfew
  have hzero := lowest_le_zero calls
  obtain ⟨i, hi, hlowest⟩ := exists_balance_eq_lowest calls
  refine
    { eq_sub_lowest := hcount
      eq_balance := fun hnone => ?_
      le_increments := PacketCount.count_after_le calls
      balance_le := by omega
      error := ⟨⟨i, hi, by omega⟩, ?_⟩ }
  · have hi := hnone i hi
    omega
  · intro d hd
    obtain ⟨j, hj, rfl⟩ := hd
    have hleast := lowest_le calls hj
    omega

/-! ## the counter of a host -/

/-- The calls on the counter of packets to be sent. -/
def Action.packetCalls : Action → List PacketCall
  | addWaiting n => List.replicate n .increment
  | subWaiting n => List.replicate n .decrement
  | _ => []

def TraceEntry.packetCalls (e : TraceEntry) : List PacketCall :=
  (e.action?.map Action.packetCalls).getD []

namespace PacketCount

theorem foldl_replicate (c : PacketCount) (call : PacketCall) (n : Nat) :
    (List.replicate n call).foldl PacketCall.perform c
      = n.repeat (fun c => PacketCall.perform c call) c := by
  induction n with
  | zero => rfl
  | succ n ih => rw [List.replicate_succ', List.foldl_concat, ih, Nat.repeat]

end PacketCount

namespace Host

variable {h h' : Host}

theorem txWaiting_perform (a : Action) (h : Host) :
    (a.perform h).2.queues.txWaiting
      = a.packetCalls.foldl PacketCall.perform h.queues.txWaiting := by
  by_cases ha : a.tells = true
  · obtain ⟨mailbox, status, trace, log, heq⟩ := exists_tells_eq ha h
    rw [heq]
    cases a with
    | addWaiting n => cases ha
    | subWaiting n => cases ha
    | _ => rfl
  · cases a with
    | addWaiting n => exact (PacketCount.foldl_replicate _ .increment n).symm
    | subWaiting n => exact (PacketCount.foldl_replicate _ .decrement n).symm
    | observe snapshot =>
      obtain ⟨mailbox, trace, log, heq⟩ := exists_observe_eq h snapshot
      exact congrArg (·.queues.txWaiting) heq
    | changeInterface flags ipv4 =>
      obtain ⟨mailbox, trace, log, heq⟩ := exists_changeInterface_eq h
        ((Action.changeInterface flags ipv4).changed h.interface)
      exact congrArg (·.queues.txWaiting) heq
    | writeStore ssid psk => rfl
    | configureInterface change => rfl
    | configureCoprocessor change => rfl
    | _ => exact absurd rfl ha

theorem retold_txWaiting : Retold (fun h => h.queues.txWaiting)
    fun c e => e.packetCalls.foldl PacketCall.perform c where
  frame _ _ _ _ _ _ := rfl
  asked _ _ _ _ := rfl
  accepted _ _ := rfl
  called h now call := by
    obtain ⟨mailbox, trace, log, heq⟩ := exists_use_eq h now call
    rw [heq]
    rfl
  fired h _ a _ := txWaiting_perform a h

/-- The calls on the counter of packets to be sent between two moments of a host. -/
def packetCallsSince (h h' : Host) : List PacketCall :=
  (entriesSince h h').flatMap TraceEntry.packetCalls

/-- **The trace tells the counter.** -/
theorem Moves.txWaiting_eq (hm : Moves h h') : h'.queues.txWaiting
    = (packetCallsSince h h').foldl PacketCall.perform h.queues.txWaiting := by
  rw [packetCallsSince, List.foldl_flatMap]
  exact hm.writes.view_eq retold_txWaiting

/-- Counter and view tell the backlog of the calls, unless there are more increments than a word of
32 bits can count. -/
def ShowsBacklog (calls : List PacketCall) (h : Host) : Prop :=
  calls.count .increment < 2 ^ 32 →
    IsBacklog calls h.queues.txWaiting.count ∧
    ∀ m : Manager, m.showsBacklog = true → IsBacklog calls (m.view h).txPending

theorem showsBacklog_of_eq {calls : List PacketCall}
    (hcounter : h.queues.txWaiting = PacketCount.after calls) : ShowsBacklog calls h := by
  intro hfew
  have hbacklog : IsBacklog calls h.queues.txWaiting.count := by
    rw [hcounter]
    exact isBacklog_after (Nat.le_of_lt_succ hfew)
  refine ⟨hbacklog, fun m hshows => ?_⟩
  rw [Manager.view, if_pos hshows]
  exact hbacklog

end Host

/-! ## sessions -/

namespace ManagerBench

open Routine (left)

/-- The calls in the course of a step.  What is done as a step of its own does not go to the
trace. -/
def packetCalls (s : Step) (h h' : Host) : List PacketCall :=
  match s with
  | .host (.act a) => a.packetCalls
  | _ => Host.packetCallsSince h h'

variable (rounds : Nat)

theorem txWaiting_perform (m : Manager) (s : Step) (tl : Timeline Action Host) :
    (left (perform rounds m s tl)).world.queues.txWaiting
      = (packetCalls s tl.world (left (perform rounds m s tl)).world).foldl PacketCall.perform
          tl.world.queues.txWaiting := by
  unfold packetCalls
  split
  · rename_i a
    exact Host.txWaiting_perform a tl.world
  · rename_i hact
    exact (moves_perform rounds m hact tl).txWaiting_eq

/-- After each step of a session that begins at a host whose counter has had `calls`, the backlog of
all calls so far is shown. -/
def BacklogAlong {τ ρ : Type} :
    List PacketCall → Host → List Step → List (Entry Action Host τ ρ) → Prop
  | calls, h, s :: steps, e :: entries =>
    Host.ShowsBacklog (calls ++ packetCalls s h e.after.world) e.after.world ∧
      BacklogAlong (calls ++ packetCalls s h e.after.world) e.after.world.clear steps entries
  | _, _, _, _ => True

/-- Induction on the steps: the counter is what all calls so far make of a fresh one. -/
theorem backlogAlong_drive (steps : List Step) (m : Manager) (calls : List PacketCall)
    (tl : Timeline Action Host) (hcounter : tl.world.queues.txWaiting = PacketCount.after calls) :
    BacklogAlong calls tl.world steps (Session.drive (perform rounds) Host.clear m tl steps).1 := by
  induction steps generalizing m calls tl with
  | nil => trivial
  | cons s steps ih =>
    have hstep := txWaiting_perform rounds m s tl
    rw [hcounter, PacketCount.after, ← List.foldl_append] at hstep
    unfold Session.drive
    cases hx : perform rounds m s tl with
    | ok r tl₁ =>
      rw [hx] at hstep
      exact ⟨Host.showsBacklog_of_eq hstep,
        ih r.1 _ { tl₁ with world := tl₁.world.clear } hstep⟩
    | error e tl₁ =>
      rw [hx] at hstep
      exact ⟨Host.showsBacklog_of_eq hstep, by cases steps <;> trivial⟩

end ManagerBench

/-- **The backlog errs by the early decrements.**  Whatever the order of the calls on a fresh
counter, with fewer than `2 ^ 32` increments, the count is the balance of all calls minus the lowest
balance on the way: it is the balance if no prefix has a deficit, it is never below it and has not
wrapped around, and it is above it by the largest deficit of a prefix.  So it is after each step of
any session that begins with a fresh counter, and so any manager that shows the backlog has it. -/
theorem backlog_errs_by_early_decrements :
    (∀ calls : List PacketCall, calls.count .increment < 2 ^ 32 →
      IsBacklog calls (PacketCount.after calls).count) ∧
    ∀ (rounds : Nat) (m : Manager) (steps : List ManagerBench.Step) (tl : Timeline Action Host),
      tl.world.queues.txWaiting = {} →
      ManagerBench.BacklogAlong [] tl.world steps
        (Session.drive (ManagerBench.perform rounds) Host.clear m tl steps).1 := by
  constructor
  · intro calls hfew
    exact isBacklog_after (Nat.le_of_lt_succ hfew)
  · intro rounds m steps tl hfresh
    exact ManagerBench.backlogAlong_drive rounds steps m [] tl hfresh

/-- One decrement is too early, and so is one of the last three. -/
def hastyCalls : List PacketCall :=
  [.decrement, .increment, .increment, .decrement, .decrement, .decrement, .increment]

/-- The same calls on the counter of a host, most of them in the course of time. -/
def hastySteps : List ManagerBench.Step :=
  [.host (.act (.subWaiting 1)), .host (.schedule 5 (.addWaiting 2)),
    .host (.schedule 7 (.subWaiting 3)), .host (.advance 8), .host (.act (.addWaiting 1))]

/-- Two decrements too early leave the count two too high. -/
theorem hasty_calls_leave_two :
    (IsBacklog hastyCalls (PacketCount.after hastyCalls).count ∧
      (PacketCount.after hastyCalls).count = 1 ∧
      balance hastyCalls 7 = -1 ∧ lowest hastyCalls = -2) ∧
    ManagerBench.BacklogAlong [] (HostSetup.host {}) hastySteps
      (Session.drive (ManagerBench.perform 1) Host.clear { showsBacklog := true }
        (HostSetup.timeline {}) hastySteps).1 ∧
    ((Session.drive (ManagerBench.perform 1) Host.clear { showsBacklog := true }
        (HostSetup.timeline {}) hastySteps).1.map fun e =>
      (Manager.view { showsBacklog := true } e.after.world).txPending) = [0, 0, 0, 0, 1] := by
  obtain ⟨hcalls, hsessions⟩ := backlog_errs_by_early_decrements
  refine ⟨⟨hcalls hastyCalls (by decide), by decide, by decide, by decide⟩, ?_, by decide +kernel⟩
  exact hsessions 1 { showsBacklog := true } hastySteps (HostSetup.timeline {}) rfl

end Uplink
