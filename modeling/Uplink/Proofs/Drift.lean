import Uplink.Proofs.Ending
import Uplink.Proofs.Modest

/-!
# Drift

While the manager asks or waits it leaves its host alone, but for its own mailbox and the log.  The
host drifts: reports come in, and what others have on the agenda happens.

* `Host.Stirs`, `Host.Drifts`  one thing that happens to a host meanwhile, and any number of them;
* `Timeline.Within`            the agenda holds only actions of a given kind;
* `HostRoutine.Drifting`       a routine that lets the host drift and goes on along the agenda.

What asks or waits is drifting: every modest routine (`Modest.drifting`) and the queries of startup
(`drifting_identifyModule`).
-/

namespace Uplink

namespace Host

/-- One thing that happens to a host while the manager asks or waits.  The actions of others are
among `A`. -/
inductive Stirs (A : Action → Prop) : Host → Host → Prop
  /-- The manager writes to the log, but does not tell of a report. -/
  | note {h : Host} (e : LogEntry) : e.reported? = none → Stirs A h (h.note e)
  | take {h : Host} (target : EventSet) : Stirs A h (port.take target h).2
  | putBack {h : Host} (events : EventSet) : Stirs A h (port.putBack events h)
  /-- A request of the manager; the co-processor draws its response. -/
  | ask {h : Host} (coprocessor : Coprocessor) (now : Nat) (request : Request) (timeout : Nat) :
    Stirs A h ({ h with coprocessor }.record (.asked now request timeout))
  | report {h : Host} (status : RadioStatus) : Stirs A h (h.report status)
  | react {h : Host} (now : Nat) (a : Action) : A a → Stirs A h (Reactive.react now a h)

abbrev Drifts (A : Action → Prop) : Host → Host → Prop := Relation.ReflTransGen (Stirs A)

variable {A : Action → Prop} {h₀ h : Host}

theorem Drifts.note (hd : Drifts A h₀ h) {e : LogEntry} (he : e.reported? = none) :
    Drifts A h₀ (h.note e) := hd.tail (.note e he)

theorem Drifts.take (hd : Drifts A h₀ h) (target : EventSet) :
    Drifts A h₀ (port.take target h).2 := hd.tail (.take target)

theorem Tends.drifts (ht : Tends h₀ h) : Drifts A h₀ h := by
  induction ht with
  | refl => exact .refl
  | tail _ hs ih =>
    cases hs with
    | note e he => exact ih.note he
    | take target => exact ih.take target
    | putBack events => exact ih.tail (.putBack events)

theorem Drifts.report (hd : Drifts A h₀ h) (status : RadioStatus) :
    Drifts A h₀ (h.report status) := hd.tail (.report status)

theorem Drifts.reportCodes (hd : Drifts A h₀ h) (codes : List UInt8) :
    Drifts A h₀ (h.reportCodes codes) := by
  induction codes generalizing h with
  | nil => exact hd
  | cons code codes ih => exact ih (hd.report (RadioStatus.ofCode code))

theorem Drifts.fire (hd : Drifts A h₀ h) (t : Nat) {as : List Action} (has : ∀ a ∈ as, A a) :
    Drifts A h₀ (Uplink.fire t as h) := by
  induction as generalizing h with
  | nil => exact hd
  | cons a as ih =>
    obtain ⟨ha, has⟩ := List.forall_mem_cons.mp has
    exact ih (hd.tail (.react t a ha)) has

end Host

/-! ## along the agenda -/

namespace Timeline

/-- Every action on the agenda is among `A`. -/
def Within {α σ : Type} (A : α → Prop) (tl : Timeline α σ) : Prop :=
  ∀ b ∈ tl.agenda, ∀ a ∈ b.actions, A a

/-- The way from one timeline to a later one: the agenda went on and the host drifted. -/
structure DriftsTo (A : Action → Prop) (tl tl' : Timeline Action Host) : Prop where
  agenda : tl'.agenda <:+ tl.agenda
  world : Host.Drifts A tl.world tl'.world

variable {A : Action → Prop} {tl tl₁ tl' : Timeline Action Host}

theorem DriftsTo.within (hd : DriftsTo A tl tl') (hin : tl.Within A) : tl'.Within A :=
  fun b hb => hin b (hd.agenda.subset hb)

theorem DriftsTo.trans (hd : DriftsTo A tl tl₁) (hd' : DriftsTo A tl₁ tl') : DriftsTo A tl tl' :=
  ⟨hd'.agenda.trans hd.agenda, hd.world.trans hd'.world⟩

theorem DriftsTo.of_world (hd : Host.Drifts A tl.world tl'.world) (hg : tl'.agenda = tl.agenda) :
    DriftsTo A tl tl' :=
  ⟨hg ▸ List.suffix_refl _, hd⟩

end Timeline

/-! ## routines -/

namespace HostRoutine

open Host

/-- Whether it returns or comes to a halt, the routine lets the host drift, and goes on along the
agenda. -/
def Drifting {β : Type} (x : HostRoutine β) : Prop :=
  ∀ ⦃A : Action → Prop⦄ (tl : Timeline Action Host), tl.Within A →
    x.Ends tl (fun _ tl' => tl.DriftsTo A tl') (fun tl' => tl.DriftsTo A tl')

section
variable {β γ : Type}

theorem drifting_act {f : Nat → Host → β × Host}
    (hf : ∀ {A : Action → Prop} now h, Drifts A h (f now h).2) : Drifting (Routine.act f) := by
  intro A tl _
  exact Routine.ends_act (.of_world (hf tl.now tl.world) rfl)

theorem drifting_change {f : Host → Host} (hf : ∀ {A : Action → Prop} h, Drifts A h (f h)) :
    Drifting (Routine.change f) :=
  drifting_act (f := fun _ h => ((), f h)) fun _ h => hf h

theorem drifting_pure (b : β) : Drifting (pure b : HostRoutine β) := by
  intro A tl _
  exact Routine.ends_pure (.of_world .refl rfl)

theorem drifting_halt (e : Halt) : Drifting (Routine.halt e : HostRoutine β) := by
  intro A tl _
  exact Routine.ends_halt (.of_world .refl rfl)

theorem Drifting.bind {x : HostRoutine β} {f : β → HostRoutine γ} (hx : Drifting x)
    (hf : ∀ b, Drifting (f b)) : Drifting (x >>= f) := by
  intro A tl hin
  refine Routine.ends_bind.mpr ((hx tl hin).imp ?_ fun _ h => h)
  intro b tl₁ hd
  exact (hf b tl₁ (hd.within hin)).imp (fun _ _ => hd.trans) fun _ => hd.trans

theorem drifting_await {ρ : Type} {w : Wait Host ρ β}
    (hlook : ∀ {A : Action → Prop} t r h, Drifts A h (w.look t r h).2)
    (hexpire : ∀ {A : Action → Prop} r h, Drifts A h (w.expire r h).2)
    (deadline : Option Nat) (r : ρ) : Drifting (Routine.await w deadline r) := by
  intro A tl hin
  -- nothing is known of the actions before the wait is over, as they are then the first of `tl`
  have hover : Routine.Over (fun as _ h => (∀ a ∈ as, A a) → Drifts A tl.world h)
      (fun as (_ : ρ) h => (∀ a ∈ as, A a) → Drifts A tl.world h) tl.agenda []
      (Routine.await w deadline r tl) := by
    refine Routine.await_over
      (I := fun as _ h => (∀ a ∈ as, A a) → Drifts A tl.world h) ?_ ?_ ?_ fun _ => .refl
    · intro as t r h hd
      have hl := fun has => (hd has).trans (hlook t r h)
      rcases hw : w.look t r h with ⟨v | r', h'⟩ <;> (rw [hw] at hl; exact hl)
    · intro past r h t as hd has
      obtain ⟨hpast, has⟩ := List.forall_mem_append.mp has
      exact (hd hpast).fire t has
    · intro as r h hd has
      exact (hd has).trans (hexpire r h)
  have hpassed : ∀ {tl' : Timeline Action Host},
      Routine.Passed tl.agenda [] (fun as h => (∀ a ∈ as, A a) → Drifts A tl.world h) tl' →
        tl.DriftsTo A tl' := by
    intro tl' hend
    obtain ⟨passed, hg, hd⟩ := hend
    refine ⟨⟨passed, hg.symm⟩, hd fun a ha => ?_⟩
    obtain ⟨b, hb, ha⟩ := List.mem_flatMap.mp ha
    refine hin b ?_ a ha
    rw [hg]
    exact List.mem_append_left _ hb
  refine hover.imp (fun _ _ => hpassed) ?_
  intro tl' hend
  obtain ⟨passed, hg, _, hd⟩ := hend
  exact hpassed ⟨passed, hg, hd⟩

theorem drifting_sleep (ticks : Nat) : Drifting (Routine.sleep ticks) := by
  intro A tl hin
  unfold Routine.Ends Routine.sleep
  split
  · exact drifting_await (w := Routine.timer) (fun _ _ _ => .refl) (fun _ _ => .refl) _ () tl hin
  · exact .of_world .refl rfl

end

/-! ### requests -/

theorem drifting_ask {α : Type} (request : Request)
    (draw : Coprocessor → Response α × Coprocessor) (timeout : Nat) :
    Drifting (ask request draw timeout) := by
  unfold ask
  refine (drifting_act fun now h => .single (.ask _ now request timeout)).bind fun response => ?_
  refine (drifting_change fun h => Drifts.reportCodes .refl _).bind fun _ => ?_
  have hanswer : Drifting (do
      Routine.change (·.reportCodes response.late)
      return response.outcome : HostRoutine (Except TransportFault α)) :=
    (drifting_change fun h => Drifts.reportCodes .refl _).bind fun _ => drifting_pure _
  split
  · exact (drifting_sleep _).bind fun _ => drifting_pure _
  · split
    · exact (drifting_sleep _).bind fun _ => hanswer
    · exact hanswer

/-- **What asks or waits lets the host drift.** -/
theorem Modest.drifting {β : Type} {x : HostRoutine β} (hx : Modest x) : Drifting x := by
  induction hx with
  | step hf => exact drifting_act fun now h => (hf now h).drifts
  | await deadline r hlook hexpire =>
    exact drifting_await (fun t r h => (hlook t r h).drifts) (fun r h => (hexpire r h).drifts) _ _
  | ask request timeout _ => exact drifting_ask request _ timeout
  | bind _ _ ihx ihf => exact ihx.bind ihf

end HostRoutine

/-! ## startup -/

namespace Manager

open HostRoutine

theorem drifting_identifyModule (settings : Settings) (rounds attempt : Nat) :
    Drifting (identifyModule settings rounds attempt) := by
  induction rounds generalizing attempt with
  | zero => exact drifting_halt _
  | succ rounds ih =>
    refine (modest_identifyOnce _).drifting.bind fun answer => ?_
    split
    · exact drifting_pure _
    · split
      · exact (modest_note rfl).drifting.bind fun _ => (drifting_sleep _).bind fun _ => ih _
      · exact (modest_note rfl).drifting.bind fun _ => drifting_pure _

end Manager

end Uplink
