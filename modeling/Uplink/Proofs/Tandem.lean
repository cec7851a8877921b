import Uplink.Proofs.Ending
import Uplink.Proofs.Heedless
import Uplink.Proofs.Veil

/-!
# Routines in tandem

Two routines on timelines with one plain form.  What others do to the interface meanwhile has to
fit, change by change; the changes are read off the traces that the two leave.  As long as they fit,
the two do the same up to the plain form.

* `Timeline.plain`              the plain form of a timeline;
* `Routine.left`                the timeline that a routine leaves, however it ends;
* `Host.Abreast`                two results that have one plain form if the changes on the way fit;
* `HostRoutine.Tandem`          two routines whose results do;
* `HostRoutine.tandem_await`    a wait, by induction on what is on the agenda;
* `HostRoutine.Heedless.tandem` every routine that pays no heed to stray bits.
-/

namespace Uplink

open Host

/-! ## timelines and results -/

/-- What a routine of the host comes to. -/
abbrev HostResult (β : Type) : Type := EStateM.Result Halt (Timeline Action Host) β

def Timeline.plain (tl : Timeline Action Host) : Timeline Action Host :=
  { tl with agenda := tl.agenda.mapActions Action.plain, world := tl.world.plain }

namespace Routine

/-- The timeline that is left, whether the routine returns or comes to a halt. -/
def left {α σ β : Type} : EStateM.Result Halt (Timeline α σ) β → Timeline α σ
  | .ok _ tl => tl
  | .error _ tl => tl

def plainResult {β : Type} : HostResult β → HostResult β
  | .ok b tl => .ok b tl.plain
  | .error e tl => .error e tl.plain

/-- What two results with one plain form are. -/
theorem cases_of_plainResult_eq {β : Type} {r r' : HostResult β}
    (h : plainResult r = plainResult r') :
    (∃ b tl tl', r = .ok b tl ∧ r' = .ok b tl' ∧ tl.plain = tl'.plain) ∨
      ∃ e tl tl', r = .error e tl ∧ r' = .error e tl' ∧ tl.plain = tl'.plain := by
  cases r with
  | ok b tl =>
    cases r' with
    | ok b' tl' =>
      obtain ⟨rfl, htl⟩ := EStateM.Result.ok.inj h
      exact Or.inl ⟨b, tl, tl', rfl, rfl, htl⟩
    | error e tl' => cases h
  | error e tl =>
    cases r' with
    | ok b tl' => cases h
    | error e' tl' =>
      obtain ⟨rfl, htl⟩ := EStateM.Result.error.inj h
      exact Or.inr ⟨e, tl, tl', rfl, rfl, htl⟩

end Routine

open Routine

/-! ## abreast -/

namespace Host

variable {β γ : Type} {h h' k k' : Host} {r r' : HostResult β}

/-- The changes of the interface by others on the way to a result. -/
def changesTo (h : Host) (r : HostResult β) : List Change :=
  changesSince h (left r).world

/-- As many changes fit as both ways have, and then the two ends have `P`. -/
def Matches (cs cs' : List Change) (P : Prop) : Prop :=
  Agree Change.Fits cs cs' → P ∧ cs.length = cs'.length

/-- Two results of two hosts.  If the changes on the way fit, they have one plain form. -/
structure Abreast (h h' : Host) (r r' : HostResult β) : Prop where
  moves : Moves h (left r).world
  moves' : Moves h' (left r').world
  same : Matches (changesTo h r) (changesTo h' r') (plainResult r = plainResult r')

/-- What holds of one part and then of the next holds of both. -/
theorem Matches.append {as as' bs bs' : List Change} {P Q : Prop} (ha : Matches as as' P)
    (hb : P → Matches bs bs' Q) : Matches (as ++ bs) (as' ++ bs') Q := by
  intro hfit
  obtain ⟨hP, hlen⟩ := ha hfit.left
  obtain ⟨hQ, hlen'⟩ := hb hP (hfit.right hlen)
  exact ⟨hQ, by rw [List.length_append, List.length_append, hlen, hlen']⟩

theorem Matches.imp {cs cs' : List Change} {P Q : Prop} (h : Matches cs cs' P) (hPQ : P → Q) :
    Matches cs cs' Q := by
  intro hfit
  obtain ⟨hP, hlen⟩ := h hfit
  exact ⟨hPQ hP, hlen⟩

/-- The manager alone changes nothing that has to fit. -/
theorem matches_of_owns {P : Prop} (ho : Owns h k) (ho' : Owns h' k') (hP : P) :
    Matches (changesSince h k) (changesSince h' k') P := by
  intro _
  rw [ho.changesSince, ho'.changesSince]
  exact ⟨hP, rfl⟩

theorem abreast_of_owns (ho : Owns h (left r).world) (ho' : Owns h' (left r').world)
    (heq : plainResult r = plainResult r') : Abreast h h' r r' :=
  ⟨ho.moves, ho'.moves, matches_of_owns ho ho' heq⟩

/-- First the hosts move on, and then results follow from what they have become. -/
theorem Abreast.after (F F' : Host → HostResult β)
    (hm : Moves h k) (hm' : Moves h' k')
    (hfirst : Matches (changesSince h k) (changesSince h' k') (k.plain = k'.plain))
    (hrest : ∀ {k k' : Host}, k.plain = k'.plain → Abreast k k' (F k) (F' k')) :
    Abreast h h' (F k) (F' k') := by
  have hk : Moves k (left (F k)).world := (hrest rfl).moves
  have hk' : Moves k' (left (F' k')).world := (hrest rfl).moves'
  refine ⟨hm.trans hk, hm'.trans hk', ?_⟩
  unfold changesTo
  rw [hm.changesSince_trans hk, hm'.changesSince_trans hk']
  exact hfirst.append fun heq => (hrest heq).same

theorem Abreast.after_owns (F F' : Host → HostResult β)
    (ho : Owns h k) (ho' : Owns h' k') (heq : k.plain = k'.plain)
    (hrest : ∀ {k k' : Host}, k.plain = k'.plain → Abreast k k' (F k) (F' k')) :
    Abreast h h' (F k) (F' k') :=
  Abreast.after F F' ho.moves ho'.moves (matches_of_owns ho ho' heq) hrest

/-! ### actions -/

variable {a a' : Action}

theorem isChange_plain (a : Action) : a.plain.isChange = a.isChange := by cases a <;> rfl

theorem length_change? (a : Action) (s : Scene) :
    (a.change? s).toList.length = if a.isChange then 1 else 0 := by cases a <;> rfl

/-- **Two actions with one plain form.** -/
theorem perform_plain_eq (ha : a.plain = a'.plain) (hh : h.plain = h'.plain) :
    Matches (a.change? h.scene).toList (a'.change? h'.scene).toList
      ((a.perform h).1 = (a'.perform h').1 ∧ (a.perform h).2.plain = (a'.perform h').2.plain) := by
  have hkind : a.isChange = a'.isChange := by rw [← isChange_plain, ha, isChange_plain]
  intro hfit
  refine ⟨?_, by rw [length_change?, length_change?, hkind]⟩
  cases hc : a.isChange with
  | false =>
    have hsame := h.plain_perform hc
    rw [ha, hh, h'.plain_perform (hkind ▸ hc)] at hsame
    obtain ⟨hanswer, hleft⟩ := Prod.mk.inj hsame
    exact ⟨hanswer.symm, hleft.symm⟩
  | true =>
    cases a with
    | changeInterface flags ipv4 =>
      cases a' with
      | changeInterface flags' ipv4' =>
        obtain ⟨hflags, rfl⟩ := Action.changeInterface.inj ha
        have hbefore : h.interface.plain = h'.interface.plain := congrArg Host.interface hh
        have hafter : ((Action.changeInterface flags ipv4).changed h.interface).plain
            = ((Action.changeInterface flags' ipv4).changed h'.interface).plain := by
          have hchosen (f : Option Flags) (i : Interface) :
              (f.getD i.snapshot.flags).plain
                = (f.map Flags.plain).getD i.plain.snapshot.flags := by
            cases f <;> rfl
          have hshape (f : Option Flags) (i : Interface) :
              ((Action.changeInterface f ipv4).changed i).plain
                = i.plain.withSnapshot
                  { flags := (f.map Flags.plain).getD i.plain.snapshot.flags
                    ipv4 := ipv4.getD i.plain.snapshot.ipv4 } := by
            rw [← hchosen]
            rfl
          rw [hshape, hshape, hflags, hbefore]
        exact ⟨rfl, changeInterface_plain_eq hh hafter (hfit _ List.mem_cons_self)⟩
      | _ => cases ha
    | _ => cases hc

theorem react_plain_eq (t : Nat) (ha : a.plain = a'.plain) (hh : h.plain = h'.plain) :
    Matches (changesSince h (Reactive.react t a h)) (changesSince h' (Reactive.react t a' h'))
      ((Reactive.react t a h).plain = (Reactive.react t a' h').plain) := by
  rw [changesSince_react, changesSince_react]
  intro hfit
  obtain ⟨⟨hanswer, hleft⟩, hlen⟩ := perform_plain_eq ha hh hfit
  refine ⟨?_, hlen⟩
  show ((a.perform h).2.record (.fired t a _)).plain
    = ((a'.perform h').2.record (.fired t a' _)).plain
  rw [plain_record, plain_record, hleft, TraceEntry.plain, TraceEntry.plain, hanswer, ha]

/-- **What is due at one instant**, action by action. -/
theorem fire_plain_eq (t : Nat) {as as' : List Action}
    (has : as.map Action.plain = as'.map Action.plain) (hh : h.plain = h'.plain) :
    Matches (changesSince h (fire t as h)) (changesSince h' (fire t as' h'))
      ((fire t as h).plain = (fire t as' h').plain) := by
  induction as generalizing as' h h' with
  | nil =>
    rw [List.map_nil, eq_comm, List.map_eq_nil_iff] at has
    subst has
    exact matches_of_owns .refl .refl hh
  | cons a as ih =>
    obtain _ | ⟨a', as'⟩ := as'
    · cases has
    obtain ⟨ha, has⟩ := List.cons.inj has
    have hm (h : Host) (a : Action) : Moves h (Reactive.react t a h) := .single (.react t a)
    rw [fire_cons, fire_cons, (hm h a).changesSince_trans (moves_fire _ t as),
      (hm h' a').changesSince_trans (moves_fire _ t as')]
    exact (react_plain_eq t ha hh).append fun heq => ih has heq

end Host

/-! ## tandem -/

namespace HostRoutine

variable {ρ β γ : Type} {x y : HostRoutine β} {f g : β → HostRoutine γ}

/-- On timelines with one plain form the two routines come to results that are abreast. -/
def Tandem (x y : HostRoutine β) : Prop :=
  ∀ tl tl' : Timeline Action Host, tl.plain = tl'.plain →
    Abreast tl.world tl'.world (x tl) (y tl')

/-- Two timelines with one plain form have the same clock and horizon. -/
theorem timeline_plain_eq_iff {tl tl' : Timeline Action Host} : tl.plain = tl'.plain ↔
    tl.now = tl'.now ∧ tl.horizon = tl'.horizon ∧
      tl.agenda.mapActions Action.plain = tl'.agenda.mapActions Action.plain ∧
      tl.world.plain = tl'.world.plain := by
  unfold Timeline.plain
  rw [Timeline.mk.injEq]

theorem Tandem.bind (hx : Tandem x y) (hf : ∀ b, Tandem (f b) (g b)) :
    Tandem (x >>= f) (y >>= g) := by
  intro tl tl' heq
  obtain ⟨hm, hm', hsame⟩ := hx tl tl' heq
  have hmoves : Moves (left (x tl)).world (left ((x >>= f) tl)).world := by
    rw [bind_apply]
    cases x tl with
    | ok b tl₁ => exact (hf b tl₁ tl₁ rfl).moves
    | error e tl₁ => exact .refl
  have hmoves' : Moves (left (y tl')).world (left ((y >>= g) tl')).world := by
    rw [bind_apply]
    cases y tl' with
    | ok b tl₁ => exact (hf b tl₁ tl₁ rfl).moves'
    | error e tl₁ => exact .refl
  refine ⟨hm.trans hmoves, hm'.trans hmoves', ?_⟩
  unfold changesTo
  rw [hm.changesSince_trans hmoves, hm'.changesSince_trans hmoves']
  refine hsame.append fun hresult => ?_
  rw [bind_apply, bind_apply]
  obtain ⟨b, tl₁, tl₁', hx', hy', htl⟩ | ⟨e, tl₁, tl₁', hx', hy', htl⟩ :=
    cases_of_plainResult_eq hresult
  · rw [hx', hy']
    exact (hf b tl₁ tl₁' htl).same
  · rw [hx', hy']
    have hover : Abreast tl₁.world tl₁'.world (.error e tl₁ : HostResult γ) (.error e tl₁') :=
      abreast_of_owns .refl .refl (congrArg (EStateM.Result.error e) htl)
    exact hover.same

/-! ### waits -/

variable {w : Wait Host ρ β} {h h' : Host}

/-- What a wait comes to with its next look. -/
def lookThen (w : Wait Host ρ β) (t : Nat) (r : ρ) (stop : β → Host → HostResult γ)
    (goOn : ρ → Host → HostResult γ) (h : Host) : HostResult γ :=
  match w.look t r h with
  | (.done v, h) => stop v h
  | (.pending r, h) => goOn r h

theorem abreast_lookThen (hw : w.Heedless) (t : Nat) (r : ρ)
    {stop stop' : β → Host → HostResult γ}
    {goOn goOn' : ρ → Host → HostResult γ}
    (hstop : ∀ v {k k' : Host}, k.plain = k'.plain → Abreast k k' (stop v k) (stop' v k'))
    (hgoOn : ∀ r {k k' : Host}, k.plain = k'.plain → Abreast k k' (goOn r k) (goOn' r k'))
    (hh : h.plain = h'.plain) :
    Abreast h h' (lookThen w t r stop goOn h) (lookThen w t r stop' goOn' h') := by
  obtain ⟨hfound, hleft⟩ := (hw.look r).same t hh
  have ho : Owns h (w.look t r h).2 := (hw.look r).owns t h
  have ho' : Owns h' (w.look t r h').2 := (hw.look r).owns t h'
  unfold lookThen
  rcases hl : w.look t r h with ⟨found, k⟩
  rcases hl' : w.look t r h' with ⟨found', k'⟩
  simp only [hl, hl'] at hfound hleft ho ho'
  subst hfound
  cases found with
  | done v => exact Abreast.after_owns (stop v) (stop' v) ho ho' hleft (hstop v)
  | pending r => exact Abreast.after_owns (goOn r) (goOn' r) ho ho' hleft (hgoOn r)

theorem abreast_ringAt (hw : w.Heedless) (t : Nat) (r : ρ) (tl tl' : Timeline Action Host)
    (heq : tl.plain = tl'.plain) :
    Abreast tl.world tl'.world (ringAt w t r tl) (ringAt w t r tl') := by
  obtain ⟨hnow, hhorizon, hagenda, hworld⟩ := timeline_plain_eq_iff.mp heq
  obtain ⟨hanswer, hleft⟩ := (hw.expire r).same tl.now hworld
  unfold ringAt
  rw [← hhorizon, ← hnow]
  split
  · refine abreast_of_owns ((hw.expire r).owns tl.now _) ((hw.expire r).owns tl.now _) ?_
    dsimp only
    rw [hanswer]
    exact congrArg (EStateM.Result.ok _) (timeline_plain_eq_iff.mpr ⟨rfl, rfl, hagenda, hleft⟩)
  · refine abreast_of_owns .refl .refl ?_
    exact congrArg (EStateM.Result.error _)
      (timeline_plain_eq_iff.mpr ⟨rfl, rfl, hagenda, hworld⟩)

theorem follow_cons (w : Wait Host ρ β) (ring horizon : Option Nat) (b : Batch Action)
    (rest : Agenda Action) (now : Nat) (r : ρ) (h : Host) :
    follow w ring horizon (b :: rest) now r h =
      match ring.filter (· < b.time) with
      | some t => ringAt w t r ⟨now, horizon, b :: rest, h⟩
      | none =>
        if mayReach horizon b.time then
          lookThen w b.time r (fun v k => .ok v ⟨b.time, horizon, rest, k⟩)
            (fun r k =>
              if ring = some b.time then ringAt w b.time r ⟨b.time, horizon, rest, k⟩
              else follow w ring horizon rest b.time r k)
            (fire b.time b.actions h)
        else .error .limit ⟨horizon.getD now, horizon, b :: rest, h⟩ := by
  rw [follow]
  cases ring.filter (· < b.time) with
  | some t => rfl
  | none =>
    dsimp only
    split
    · unfold lookThen
      rcases w.look b.time r (fire b.time b.actions h) with ⟨found | r', k⟩ <;> rfl
    · rfl

/-- Induction on the agenda: each batch that happens is followed by one more look. -/
theorem abreast_follow (hw : w.Heedless) (ring horizon : Option Nat)
    {agenda agenda' : Agenda Action}
    (hg : agenda.mapActions Action.plain = agenda'.mapActions Action.plain) (now : Nat) (r : ρ)
    {h h' : Host} (hh : h.plain = h'.plain) :
    Abreast h h' (follow w ring horizon agenda now r h)
      (follow w ring horizon agenda' now r h') := by
  induction agenda generalizing agenda' now r h h' with
  | nil =>
    obtain rfl : agenda' = [] := List.map_eq_nil_iff.mp hg.symm
    have heq : (⟨now, horizon, [], h⟩ : Timeline Action Host).plain
        = (⟨now, horizon, [], h'⟩ : Timeline Action Host).plain :=
      timeline_plain_eq_iff.mpr ⟨rfl, rfl, rfl, hh⟩
    unfold follow
    split
    · exact abreast_of_owns .refl .refl (congrArg (EStateM.Result.error _) heq)
    · exact abreast_ringAt hw _ r _ _ heq
  | cons b rest ih =>
    obtain _ | ⟨b', rest'⟩ := agenda'
    · cases hg
    obtain ⟨hb, hrest⟩ := List.cons.inj hg
    obtain ⟨htime, hactions⟩ := Batch.mk.inj hb
    have heq : (⟨now, horizon, b :: rest, h⟩ : Timeline Action Host).plain
        = (⟨now, horizon, b' :: rest', h'⟩ : Timeline Action Host).plain :=
      timeline_plain_eq_iff.mpr ⟨rfl, rfl, hg, hh⟩
    rw [follow_cons, follow_cons, ← htime]
    split
    · exact abreast_ringAt hw _ r _ _ heq
    · split
      · refine Abreast.after (lookThen w b.time r _ _) (lookThen w b.time r _ _)
          (moves_fire h b.time b.actions) (moves_fire h' b.time b'.actions)
          (fire_plain_eq b.time hactions hh) ?_
        refine abreast_lookThen hw b.time r ?_ ?_
        · intro v k k' hk
          refine abreast_of_owns .refl .refl (congrArg (EStateM.Result.ok v) ?_)
          exact timeline_plain_eq_iff.mpr ⟨rfl, rfl, hrest, hk⟩
        · intro r k k' hk
          split
          · refine abreast_ringAt hw _ r ⟨_, _, rest, k⟩ ⟨_, _, rest', k'⟩ ?_
            exact timeline_plain_eq_iff.mpr ⟨rfl, rfl, hrest, hk⟩
          · exact ih hrest _ r hk
      · refine abreast_of_owns .refl .refl (congrArg (EStateM.Result.error _) ?_)
        exact timeline_plain_eq_iff.mpr ⟨rfl, rfl, hg, hh⟩

theorem await_eq (w : Wait Host ρ β) (deadline : Option Nat) (r : ρ) (tl : Timeline Action Host) :
    Routine.await w deadline r tl =
      lookThen w tl.now r (fun v k => .ok v ⟨tl.now, tl.horizon, tl.agenda, k⟩)
        (fun r k => lookThen w tl.now r
          (fun v k => .ok v ⟨tl.now, tl.horizon, tl.agenda.later tl.now, k⟩)
          (fun r k =>
            if Clock.passed (Clock.ring? deadline) tl.now then
              ringAt w tl.now r ⟨tl.now, tl.horizon, tl.agenda.later tl.now, k⟩
            else
              follow w (Clock.ring? deadline) tl.horizon (tl.agenda.later tl.now) tl.now r k)
          (fire tl.now (tl.agenda.due tl.now) k))
        tl.world := by
  unfold Routine.await lookThen
  rcases w.look tl.now r tl.world with ⟨found | r₁, k⟩
  · rfl
  · dsimp only [Timeline.settle]
    rcases w.look tl.now r₁ (fire tl.now (tl.agenda.due tl.now) k) with ⟨found | r₂, k₂⟩ <;> rfl

/-- **A wait** runs in tandem with itself. -/
theorem tandem_await (hw : w.Heedless) (deadline : Option Nat) (r : ρ) :
    Tandem (Routine.await w deadline r) (Routine.await w deadline r) := by
  intro tl tl' heq
  obtain ⟨hnow, hhorizon, hagenda, hworld⟩ := timeline_plain_eq_iff.mp heq
  have hdue : (tl.agenda.due tl.now).map Action.plain
      = (tl'.agenda.due tl.now).map Action.plain := by
    rw [← Agenda.due_mapActions, hagenda, Agenda.due_mapActions]
  have hlater : (tl.agenda.later tl.now).mapActions Action.plain
      = (tl'.agenda.later tl.now).mapActions Action.plain := by
    rw [← Agenda.later_mapActions, hagenda, Agenda.later_mapActions]
  rw [await_eq, await_eq, ← hnow, ← hhorizon]
  refine abreast_lookThen hw tl.now r ?_ ?_ hworld
  · intro v k k' hk
    refine abreast_of_owns .refl .refl (congrArg (EStateM.Result.ok v) ?_)
    exact timeline_plain_eq_iff.mpr ⟨rfl, rfl, hagenda, hk⟩
  · intro r k k' hk
    refine Abreast.after (lookThen w tl.now r _ _) (lookThen w tl.now r _ _)
      (moves_fire k tl.now _) (moves_fire k' tl.now _) (fire_plain_eq tl.now hdue hk) ?_
    refine abreast_lookThen hw tl.now r ?_ ?_
    · intro v k k' hk
      refine abreast_of_owns .refl .refl (congrArg (EStateM.Result.ok v) ?_)
      exact timeline_plain_eq_iff.mpr ⟨rfl, rfl, hlater, hk⟩
    · intro r k k' hk
      split
      · refine abreast_ringAt hw _ r ⟨_, _, _, k⟩ ⟨_, _, _, k'⟩ ?_
        exact timeline_plain_eq_iff.mpr ⟨rfl, rfl, hlater, hk⟩
      · exact abreast_follow hw _ _ hlater _ r hk

theorem tandem_act {f : Nat → Host → β × Host} {g : β → HostRoutine γ} (hf : Host.Heedless f)
    (hg : ∀ now h, Tandem (g (f now h).1) (g (f now h).1)) :
    Tandem (Routine.act f >>= g) (Routine.act f >>= g) := by
  intro tl tl' heq
  obtain ⟨hnow, hhorizon, hagenda, hworld⟩ := timeline_plain_eq_iff.mp heq
  obtain ⟨hanswer, hleft⟩ := hf.same tl.now hworld
  rw [bind_apply, bind_apply, act_apply, act_apply, ← hnow]
  dsimp only
  rw [← hanswer]
  refine Abreast.after_owns
    (fun k => g (f tl.now tl.world).1 { tl with world := k })
    (fun k => g (f tl.now tl.world).1 { tl' with now := tl.now, world := k })
    (hf.owns tl.now tl.world) (hf.owns tl.now tl'.world) hleft fun {k k'} hk => ?_
  exact hg tl.now tl.world { tl with world := k } { tl' with now := tl.now, world := k' }
    (timeline_plain_eq_iff.mpr ⟨rfl, hhorizon, hagenda, hk⟩)

theorem tandem_read {g : Host → HostRoutine γ} (hg : ∀ h, g h.plain = g h)
    (ht : ∀ h, Tandem (g h) (g h)) : Tandem (Routine.world >>= g) (Routine.world >>= g) := by
  intro tl tl' heq
  have hworld : tl.world.plain = tl'.world.plain := congrArg Timeline.world heq
  rw [bind_apply, bind_apply, world_apply, world_apply]
  show Abreast _ _ (g tl.world tl) (g tl'.world tl')
  rw [← hg tl'.world, ← hworld, hg tl.world]
  exact ht tl.world tl tl' heq

/-! ### steps on the host -/

theorem tandem_schedule (ticks : Nat) {a a' : Action} (ha : a.plain = a'.plain) :
    Tandem (Routine.schedule ticks a) (Routine.schedule ticks a') := by
  intro tl tl' heq
  obtain ⟨hnow, hhorizon, hagenda, hworld⟩ := timeline_plain_eq_iff.mp heq
  refine abreast_of_owns .refl .refl (congrArg (EStateM.Result.ok ()) ?_)
  refine timeline_plain_eq_iff.mpr ⟨hnow, hhorizon, ?_, hworld⟩
  show (tl.agenda.insert (Clock.afterSat tl.now ticks) a).mapActions Action.plain
    = (tl'.agenda.insert (Clock.afterSat tl'.now ticks) a').mapActions Action.plain
  rw [← Agenda.insert_mapActions, ← Agenda.insert_mapActions, hagenda, ha, hnow]

theorem moves_passTo (goal : Nat) (g : Agenda Action) (h : Host) :
    Moves h (Timeline.passTo goal g h).2 := by
  induction g generalizing h with
  | nil => exact .refl
  | cons b g ih =>
    unfold Timeline.passTo
    split
    · exact (moves_fire h b.time b.actions).trans (ih _)
    · exact .refl

theorem passTo_plain_eq (goal : Nat) {g g' : Agenda Action}
    (hg : g.mapActions Action.plain = g'.mapActions Action.plain) (hh : h.plain = h'.plain) :
    Matches (changesSince h (Timeline.passTo goal g h).2)
      (changesSince h' (Timeline.passTo goal g' h').2)
      ((Timeline.passTo goal g h).1.mapActions Action.plain
          = (Timeline.passTo goal g' h').1.mapActions Action.plain ∧
        (Timeline.passTo goal g h).2.plain = (Timeline.passTo goal g' h').2.plain) := by
  induction g generalizing g' h h' with
  | nil =>
    obtain rfl : g' = [] := List.map_eq_nil_iff.mp hg.symm
    exact matches_of_owns .refl .refl ⟨rfl, hh⟩
  | cons b g ih =>
    obtain _ | ⟨b', g'⟩ := g'
    · cases hg
    obtain ⟨hb, hrest⟩ := List.cons.inj hg
    obtain ⟨htime, hactions⟩ := Batch.mk.inj hb
    unfold Timeline.passTo
    rw [← htime]
    split
    · rw [(moves_fire h b.time b.actions).changesSince_trans (moves_passTo goal g _),
        (moves_fire h' b.time b'.actions).changesSince_trans (moves_passTo goal g' _)]
      exact (fire_plain_eq b.time hactions hh).append fun heq => ih hrest heq
    · exact matches_of_owns .refl .refl ⟨hg, hh⟩

/-- **Time that passes** with nobody waiting. -/
theorem tandem_advance (ticks : Nat) :
    Tandem (Routine.advance ticks) (Routine.advance ticks) := by
  intro tl tl' heq
  obtain ⟨hnow, hhorizon, hagenda, hworld⟩ := timeline_plain_eq_iff.mp heq
  have hdue := congrArg (fun g : Agenda Action => g.due tl.now) hagenda
  have hlater := congrArg (fun g : Agenda Action => g.later tl.now) hagenda
  simp only [Agenda.due_mapActions, Agenda.later_mapActions] at hdue hlater
  have hm := moves_fire tl.world tl.now (tl.agenda.due tl.now)
  have hm' := moves_fire tl'.world tl.now (tl'.agenda.due tl.now)
  have hpass := moves_passTo (Clock.afterSat tl.now ticks) (tl.agenda.later tl.now)
    (fire tl.now (tl.agenda.due tl.now) tl.world)
  have hpass' := moves_passTo (Clock.afterSat tl.now ticks) (tl'.agenda.later tl.now)
    (fire tl.now (tl'.agenda.due tl.now) tl'.world)
  unfold Routine.advance Timeline.advance Timeline.settle
  dsimp only
  rw [← hnow]
  refine ⟨hm.trans hpass, hm'.trans hpass', ?_⟩
  unfold changesTo left
  dsimp only
  rw [hm.changesSince_trans hpass, hm'.changesSince_trans hpass']
  refine (fire_plain_eq tl.now hdue hworld).append fun hfired => ?_
  refine (passTo_plain_eq (Clock.afterSat tl.now ticks) hlater hfired).imp fun hpassed => ?_
  exact congrArg (EStateM.Result.ok ())
    (timeline_plain_eq_iff.mpr ⟨rfl, hhorizon, hpassed.1, hpassed.2⟩)

/-- **A routine that pays no heed to stray bits** runs in tandem with itself. -/
theorem Heedless.tandem (hx : Heedless x) : Tandem x x := by
  induction hx with
  | pure b =>
    intro tl tl' heq
    exact abreast_of_owns .refl .refl (congrArg (EStateM.Result.ok b) heq)
  | act hf _ ih => exact tandem_act hf ih
  | read hg _ ih => exact tandem_read hg ih
  | await deadline r hw => exact tandem_await hw deadline r
  | limit ticks =>
    intro tl tl' heq
    obtain ⟨hnow, _, hagenda, hworld⟩ := timeline_plain_eq_iff.mp heq
    refine abreast_of_owns .refl .refl (congrArg (EStateM.Result.ok ()) ?_)
    exact timeline_plain_eq_iff.mpr ⟨hnow, by rw [hnow], hagenda, hworld⟩
  | halt e =>
    intro tl tl' heq
    exact abreast_of_owns .refl .refl (congrArg (EStateM.Result.error e) heq)
  | bind _ _ ihx ihf => exact ihx.bind ihf

end HostRoutine

end Uplink
