import Uplink.Proofs.Chronicle

/-!
# The discipline of address acquisition

Acquisition is started from two places, at startup and by reconciliation, and whether it runs is
known to the interface.  Whatever fails and whatever others do to link and address in between, the
flag of the manager agrees with the interface, and the calls of the manager keep a discipline.

* `Deed.Lawful`                   it is started while the link is up and it does not run, and
                                  stopped while the link is down and there is something to stop;
* `Disciplined`                   lawful deeds, with few calls among them;
* `Seamless`                      between two deeds of the manager nobody starts or stops it;
* `Manager.Observes`              a part of the manager keeps flag and discipline;
* `acquisition_is_disciplined`    every chronicle keeps them, and starts and stops take turns.
-/

namespace Uplink

open Host HostRoutine

/-! ## lawful deeds -/

/-- A call that starts or stops acquisition. -/
def Deed.isAcquisition (d : Deed) : Bool :=
  match d.work with
  | .call .startAcquisition | .call .releaseAndStop => true
  | _ => false

structure Deed.Lawful (d : Deed) : Prop where
  starts : d.work = .call .startAcquisition →
    d.before.interface.snapshot.hasLink = true ∧ d.before.interface.acquiring = false
  releases : d.work = .call .releaseAndStop →
    d.before.interface.snapshot.hasLink = false ∧
      (d.before.interface.snapshot.hasAddress = true ∨ d.before.interface.acquiring = true)

/-- Lawful deeds, at most `n` of them about acquisition. -/
structure Disciplined (n : Nat) (ds : List Deed) : Prop where
  lawful : ∀ d ∈ ds, d.Lawful
  few : ds.countP Deed.isAcquisition ≤ n

/-- The work is all requests. -/
def Requests (ws : List Work) : Prop := ∀ w ∈ ws, w.isRequest = true

section
variable {n k : Nat} {as bs ds : List Deed} {d : Deed}

theorem Disciplined.append (ha : Disciplined n as) (hb : Disciplined k bs) :
    Disciplined (n + k) (as ++ bs) where
  lawful := List.forall_mem_append.mpr ⟨ha.lawful, hb.lawful⟩
  few := by
    rw [List.countP_append]
    exact Nat.add_le_add ha.few hb.few

theorem Disciplined.mono (h : Disciplined n ds) (hle : n ≤ k) : Disciplined k ds :=
  ⟨h.lawful, Nat.le_trans h.few hle⟩

theorem disciplined_of_none (h : ∀ d ∈ ds, d.isAcquisition = false) : Disciplined 0 ds := by
  refine ⟨fun d hd => ⟨fun hw => ?_, fun hw => ?_⟩, ?_⟩
  · have hnone := h d hd
    unfold Deed.isAcquisition at hnone
    rw [hw] at hnone
    cases hnone
  · have hnone := h d hd
    unfold Deed.isAcquisition at hnone
    rw [hw] at hnone
    cases hnone
  · exact Nat.le_of_eq (List.countP_eq_zero.mpr fun d hd => ne_true_of_eq_false (h d hd))

theorem disciplined_nil : Disciplined 0 [] :=
  disciplined_of_none fun _ h => absurd h List.not_mem_nil

theorem disciplined_one (h : d.Lawful) : Disciplined 1 [d] :=
  ⟨fun _ hd => List.mem_singleton.mp hd ▸ h, List.countP_le_length⟩

theorem disciplined_of_requests (h : Requests (ds.map Deed.work)) : Disciplined 0 ds := by
  refine disciplined_of_none fun d hd => ?_
  have hr := h d.work (List.mem_map_of_mem hd)
  unfold Deed.isAcquisition
  cases hw : d.work with
  | request _ _ => rfl
  | call _ =>
    rw [hw] at hr
    cases hr

end

/-! ## nobody else starts or stops it -/

/-- Whether acquisition runs after the deed. -/
def Deed.leaves (d : Deed) : Bool :=
  match d.work with
  | .call call => (d.before.interface.attempt call).acquiring
  | .request _ _ => d.before.interface.acquiring

/-- Each deed finds acquisition as the one before has left it; the first finds it as `b` says, and
the last leaves it as `b'` says. -/
def Seamless (b : Bool) : List Deed → Bool → Prop
  | [], b' => b = b'
  | d :: ds, b' => d.before.interface.acquiring = b ∧ Seamless d.leaves ds b'

section
variable {b b₁ b' : Bool} {as bs ds : List Deed}

theorem seamless_append :
    Seamless b (as ++ bs) b' ↔ ∃ b₁, Seamless b as b₁ ∧ Seamless b₁ bs b' := by
  induction as generalizing b with
  | nil => exact ⟨fun h => ⟨b, rfl, h⟩, fun ⟨_, hb, h⟩ => hb ▸ h⟩
  | cons d as ih =>
    constructor
    · rintro ⟨hbefore, h⟩
      obtain ⟨b₁, ha, hb⟩ := ih.mp h
      exact ⟨b₁, ⟨hbefore, ha⟩, hb⟩
    · rintro ⟨b₁, ⟨hbefore, ha⟩, hb⟩
      exact ⟨hbefore, ih.mpr ⟨b₁, ha, hb⟩⟩

/-- Induction on the trace: others leave acquisition as it is. -/
theorem seamless_happenings (s : Surroundings) (entries : List TraceEntry) :
    Seamless s.interface.acquiring (deedsOf (happenings s entries))
      (s.afterAll entries).interface.acquiring := by
  induction entries generalizing s with
  | nil => rfl
  | cons e es ih =>
    cases e with
    | asked time request timeout => exact ⟨rfl, ih (s.after (.asked time request timeout))⟩
    | called time call => exact ⟨rfl, ih (s.after (.called time call))⟩
    | fired time a result =>
      have hrest := ih (s.after (.fired time a result))
      rw [show (s.after (.fired time a result)).interface.acquiring = s.interface.acquiring
        from a.acquiring_changed s.interface] at hrest
      exact hrest
    | accepted events => exact ih _

theorem Host.Does.seamless {h h' : Host} (hd : Does ds h h') :
    Seamless h.interface.acquiring ds h'.interface.acquiring := by
  obtain ⟨entries, hr, rfl⟩ := hd
  have hs := seamless_happenings h.surroundings entries
  rw [← hr.surroundings_eq] at hs
  exact hs

theorem Seamless.of_requests (h : Seamless b ds b') (hr : Requests (ds.map Deed.work)) :
    b' = b := by
  induction ds generalizing b with
  | nil => exact h.symm
  | cons d ds ih =>
    obtain ⟨hbefore, hrest⟩ := h
    obtain ⟨hd, hds⟩ := List.forall_mem_cons.mp hr
    have hleaves : d.leaves = b := by
      unfold Deed.leaves
      cases hw : d.work with
      | request _ _ => exact hbefore
      | call _ =>
        rw [hw] at hd
        cases hd
    rw [ih hrest hds, hleaves]

/-- Acquisition runs on as long as nobody stops it. -/
theorem Seamless.runs_on (h : Seamless b ds b') (hb : b = true)
    (hnone : ∀ d ∈ ds, ¬ (d.work = .call .releaseAndStop ∧ d.succeeds = true)) : b' = true := by
  induction ds generalizing b with
  | nil => exact h.symm.trans hb
  | cons d ds ih =>
    obtain ⟨hbefore, hrest⟩ := h
    obtain ⟨hd, hds⟩ := List.forall_mem_cons.mp hnone
    refine ih hrest ?_ hds
    rw [hb] at hbefore
    unfold Deed.leaves
    cases hw : d.work with
    | request _ _ => exact hbefore
    | call call =>
      dsimp only
      unfold Interface.attempt
      split
      · rename_i haccepted
        cases call with
        | releaseAndStop =>
          refine absurd ⟨hw, ?_⟩ hd
          unfold Deed.succeeds
          rw [hw]
          exact Option.isNone_iff_eq_none.mpr haccepted
        | startAcquisition => rfl
        | _ => exact hbefore
      · exact hbefore

theorem leaves_of_started {d : Deed} (hw : d.work = .call .startAcquisition)
    (hs : d.succeeds = true) : d.leaves = true := by
  unfold Deed.succeeds at hs
  unfold Deed.leaves
  rw [hw] at hs ⊢
  dsimp only
  unfold Interface.attempt
  rw [if_pos (Option.isNone_iff_eq_none.mp hs)]
  rfl

/-- **Starts and stops take turns**: before a second start that succeeds there is a stop that
does. -/
theorem Seamless.stopped_between {cs : List Deed} {d₁ d₂ : Deed}
    (h : Seamless b (as ++ d₁ :: (bs ++ d₂ :: cs)) b')
    (hw : d₁.work = .call .startAcquisition) (hs : d₁.succeeds = true)
    (hidle : d₂.before.interface.acquiring = false) :
    ∃ d ∈ bs, d.work = .call .releaseAndStop ∧ d.succeeds = true := by
  obtain ⟨_, _, _, hrest⟩ := seamless_append.mp h
  rw [leaves_of_started hw hs] at hrest
  obtain ⟨b₁, hbetween, hbefore, _⟩ := seamless_append.mp hrest
  refine Classical.byContradiction fun hnone => ?_
  have hruns := hbetween.runs_on rfl fun d hd hstopped => hnone ⟨d, hd, hstopped⟩
  rw [hidle, hruns] at hbefore
  cases hbefore

end

/-! ## parts of a manager -/

theorem requests_of_association {ws : List Work} (h : ∀ w ∈ ws, w.isAssociation = true) :
    Requests ws := by
  intro w hw
  have ha := h w hw
  cases w with
  | request _ _ => rfl
  | call _ => cases ha

theorem Queries.requests {ds : List Deed} (h : Queries ds) : Requests (ds.map Deed.work) := by
  intro w hw
  obtain ⟨d, hd, rfl⟩ := List.mem_map.mp hw
  have hq := h d hd
  unfold Deed.isQuery at hq
  cases hwork : d.work with
  | request _ _ => rfl
  | call _ =>
    rw [hwork] at hq
    cases hq

namespace Manager

/-- The calls on acquisition between two moments of a host, all lawful, and at most `n`. -/
def Acts (n : Nat) (h h' : Host) : Prop := ∃ ds, Does ds h h' ∧ Disciplined n ds

variable {β γ : Type} {x : HostRoutine β} {m : Manager} {m' : β → Manager} {h h₁ h' : Host}
  {n k : Nat}

theorem Acts.trans (ha : Acts n h h₁) (hb : Acts k h₁ h') : Acts (n + k) h h' := by
  obtain ⟨ds, hd, ha⟩ := ha
  obtain ⟨es, he, hb⟩ := hb
  exact ⟨ds ++ es, hd.trans he, ha.append hb⟩

theorem Acts.mono (ha : Acts n h h') (hle : n ≤ k) : Acts k h h' := by
  obtain ⟨ds, hd, ha⟩ := ha
  exact ⟨ds, hd, ha.mono hle⟩

/-- Begun with a flag that agrees with the interface, the routine makes at most `n` calls on
acquisition, all lawful, and the flag agrees again afterwards. -/
def Observes (n : Nat) (x : HostRoutine β) (m : Manager) (m' : β → Manager) : Prop :=
  ∀ tl, m.acquiring = tl.world.interface.acquiring → x.Ends tl
    (fun b tl' => (m' b).acquiring = tl'.world.interface.acquiring ∧ Acts n tl.world tl'.world)
    fun tl' => Acts n tl.world tl'.world

theorem Observes.bind {f : β → HostRoutine γ} {m₂ : γ → Manager} (hx : Observes n x m m')
    (hf : ∀ b, Observes k (f b) (m' b) m₂) : Observes (n + k) (x >>= f) m m₂ := by
  intro tl hm
  refine Routine.ends_bind.mpr ((hx tl hm).imp ?_ ?_)
  · rintro b tl₁ ⟨hm₁, hacts⟩
    exact (hf b tl₁ hm₁).imp (fun _ _ h => ⟨h.1, hacts.trans h.2⟩) fun _ h => hacts.trans h
  · exact fun _ hacts => hacts.mono (Nat.le_add_right n k)

theorem Observes.then {f : β → HostRoutine γ} {m₂ : γ → Manager} (hx : Observes 0 x m m')
    (hf : ∀ b, Observes k (f b) (m' b) m₂) : Observes k (x >>= f) m m₂ := by
  have hboth := hx.bind hf
  rwa [Nat.zero_add] at hboth

theorem Observes.last {f : β → HostRoutine γ} {m₂ : γ → Manager} (hx : Observes n x m m')
    (hf : ∀ b, Observes 0 (f b) (m' b) m₂) : Observes n (x >>= f) m m₂ := hx.bind hf

theorem observes_pure {b : β} (hb : m' b = m) : Observes 0 (pure b : HostRoutine β) m m' :=
  fun _ hm => Routine.ends_pure ⟨hb ▸ hm, [], does_refl _, disciplined_nil⟩

theorem observes_act {f : Nat → Host → β × Host}
    (hf : ∀ now h, m.acquiring = h.interface.acquiring →
      (m' (f now h).1).acquiring = (f now h).2.interface.acquiring ∧ Acts n h (f now h).2) :
    Observes n (Routine.act f) m m' := fun tl hm => Routine.ends_act (hf tl.now tl.world hm)

/-- What only asks the co-processor does not touch acquisition. -/
theorem observes_of_requests (hx : ∀ tl, x.Ends tl
    (fun b tl' => (m' b).acquiring = m.acquiring ∧ Achieves Requests tl.world tl'.world)
    fun tl' => Achieves Requests tl.world tl'.world) : Observes 0 x m m' := by
  intro tl hm
  refine (hx tl).imp ?_ ?_
  · rintro b tl' ⟨hsame, ds, hd, hr⟩
    exact ⟨hsame.trans (hm.trans (hd.seamless.of_requests hr).symm), ds, hd,
      disciplined_of_requests hr⟩
  · rintro tl' ⟨ds, hd, hr⟩
    exact ⟨ds, hd, disciplined_of_requests hr⟩

theorem observes_idle (hx : Idles x) : Observes 0 x m fun _ => m :=
  observes_of_requests fun tl => (hx.does tl).imp
    (fun _ _ hd => ⟨rfl, [], hd, fun _ h => absurd h List.not_mem_nil⟩)
    fun _ hd => ⟨[], hd, fun _ h => absurd h List.not_mem_nil⟩

theorem Tries.asks {asked : Prop} {W : List Work → Prop}
    {r : Manager × Option (Except AttemptFault AttemptOutcome)} (ht : m.Tries asked W h r h')
    (hW : ∀ ws, W ws → Requests ws) :
    r.1.acquiring = m.acquiring ∧ Achieves Requests h h' := by
  obtain ⟨_, ⟨_, _, rfl⟩, ha⟩ | ⟨_, rfl, hd⟩ := ht
  · exact ⟨rfl, ha.imp hW⟩
  · exact ⟨rfl, [], hd, fun _ h => absurd h List.not_mem_nil⟩

theorem observes_associateIfNeeded (m : Manager) : Observes 0 m.associateIfNeeded m Prod.fst :=
  observes_of_requests fun tl => (m.associateIfNeeded_does tl).imp
    (fun _ _ h => h.asks fun _ hw => requests_of_association hw.isAssociation)
    fun _ h => h.2.imp fun _ hw => requests_of_association hw.isAssociation

theorem observes_renewIfAsked (m : Manager) (events : EventSet) :
    Observes 0 (m.renewIfAsked events) m Prod.fst :=
  observes_of_requests fun tl => (m.renewIfAsked_does tl events).imp
    (fun _ _ h => h.asks fun _ hw => requests_of_association hw.begun.isAssociation)
    fun _ h => h.2.imp fun _ hw => requests_of_association hw.isAssociation

theorem observes_renew (m : Manager) : Observes 0 m.renew m Prod.fst :=
  observes_of_requests fun tl => (m.renew_does tl).imp
    (fun _ _ h => ⟨h.1 ▸ rfl,
      h.2.2.imp fun _ hw => requests_of_association hw.begun.isAssociation⟩)
    fun _ h => h.imp fun _ hw => requests_of_association hw.isAssociation

/-! ### calls -/

theorem disciplined_mirror (m : Manager) (now : Nat) (h : Host) :
    Disciplined 0 ((m.mirrorStatus now h).1.2.toList.map (h.calling ·.call)) := by
  refine disciplined_of_none fun d hd => ?_
  obtain ⟨change, _, rfl⟩ := List.mem_map.mp hd
  cases change <;> rfl

/-- The call that is due is lawful. -/
theorem disciplined_due (hm : m.acquiring = h.interface.acquiring) :
    Disciplined 1 ((m.dueCall h.interface.snapshot).toList.map h.calling) := by
  cases hd : m.dueCall h.interface.snapshot with
  | none => exact disciplined_nil.mono (Nat.zero_le 1)
  | some call =>
    refine disciplined_one ⟨fun hw => ?_, fun hw => ?_⟩
    · cases hw
      have hstart := dueCall_eq_start_iff.mp hd
      rw [hm] at hstart
      exact hstart
    · cases hw
      have hrelease := dueCall_eq_release_iff.mp hd
      rw [hm] at hrelease
      exact hrelease

theorem observes_mirror (m : Manager) : Observes 0 (Routine.act m.mirrorStatus) m (·.1) :=
  observes_act fun now h hm => ⟨agrees_mirrorStatus now hm, _, m.does_mirrorStatus now h,
    m.disciplined_mirror now h⟩

theorem observes_reconcile (m : Manager) : Observes 1 (Routine.act m.reconcileAddress) m (·.1) :=
  observes_act fun now h hm => ⟨agrees_reconcile now hm, _, m.does_reconcile now h,
    disciplined_due hm⟩

theorem observes_tend (m : Manager) (events : EventSet) :
    Observes 1 (m.tend events) m (·.1) := by
  have hadjust : Observes 1 (Routine.act m.adjust) m (·.1) :=
    m.observes_mirror.then fun mirrored =>
      mirrored.1.observes_reconcile.last fun _ => observes_pure rfl
  unfold tend
  split
  · exact (observes_idle (passes_note _).idles).then fun _ => hadjust
  · exact hadjust

/-- **A cycle** makes one call on acquisition at most. -/
theorem observes_cycle (m : Manager) : Observes 1 m.cycle m Prod.fst := by
  rw [cycle_eq_parts]
  refine m.observes_associateIfNeeded.then fun r => ?_
  refine (observes_idle (idles_awaitAny _ _)).then fun events => ?_
  refine (r.1.observes_tend events).last fun adjusted => ?_
  exact (adjusted.1.observes_renewIfAsked events).then fun _ => observes_pure rfl

/-! ### startup -/

theorem acquiring_raised (module : ModuleIdentity) (now : Nat) (h : Host) :
    (raised now h module).interface.acquiring = h.interface.acquiring := by
  unfold raised
  rw [acquiring_use _ now (by decide) (by decide), acquiring_use _ now (by decide) (by decide)]
  exact acquiring_use h now (fun e => nomatch e) fun e => nomatch e

/-- On a lifted link that has no acquisition yet, to start it is lawful. -/
theorem lawful_lifted (now : Nat) (hidle : h.interface.acquiring = false) :
    ((lifted now h).calling .startAcquisition).Lawful := by
  refine ⟨fun _ => ⟨?_, ?_⟩, fun hw => nomatch hw⟩
  · show (lifted now h).interface.snapshot.hasLink = true
    unfold lifted
    rw [interface_use]
    exact h.interface.hasLink_setLinkUp
  · show (lifted now h).interface.acquiring = false
    unfold lifted
    rw [acquiring_use _ now (by decide) (by decide)]
    exact hidle

/-- **A registration** starts acquisition once at most, and only if the station is associated. -/
theorem acts_attach (m : Manager) (module : ModuleIdentity) (now : Nat)
    (hidle : h.interface.acquiring = false) : Acts 1 h (m.attach module now h).2 := by
  obtain ⟨_, _, _, hd⟩ | ⟨_, _, _, hd⟩ := m.attach_does now h module
  · exact ⟨_, hd, (disciplined_of_none (List.forall_mem_singleton.mpr rfl)).mono (Nat.zero_le 1)⟩
  · have hregistration : Disciplined 0 (registration now h module) :=
      disciplined_of_none (by simp [registration, Deed.isAcquisition, Host.calling])
    refine ⟨_, hd, Nat.zero_add 1 ▸ hregistration.append ?_⟩
    split
    · have hlift : Disciplined 0 [(raised now h module).calling .setLinkUp] :=
        disciplined_of_none (List.forall_mem_singleton.mpr rfl)
      have hstart := disciplined_one
        (lawful_lifted (h := raised now h module) now ((acquiring_raised module now h).trans hidle))
      exact Nat.zero_add 1 ▸ hlift.append hstart
    · exact disciplined_nil.mono (Nat.zero_le 1)

/-- **An attempt to establish** a manager starts acquisition once at most.  If it fails, acquisition
does not run. -/
theorem acts_establish (m : Manager) (rounds : Nat) (tl : Timeline Action Host)
    (hm : m.acquiring = tl.world.interface.acquiring) (hidle : m.acquiring = false) :
    (m.establish rounds).Ends tl
      (fun r tl' => r.1.acquiring = tl'.world.interface.acquiring ∧
        (r.2 ≠ .ok () → r.1.acquiring = false) ∧ Acts 1 tl.world tl'.world)
      fun tl' => Acts 1 tl.world tl'.world := by
  have hqueried : ∀ {ds : List Deed} {h : Host}, Does ds tl.world h → Queries ds →
      Acts 0 tl.world h ∧ m.acquiring = h.interface.acquiring := by
    intro ds h hd hq
    exact ⟨⟨ds, hd, disciplined_of_requests hq.requests⟩,
      hm.trans (hd.seamless.of_requests hq.requests).symm⟩
  refine Routine.ends_bind.mpr ((works_identifyModule m.settings rounds 1 tl).imp ?_ ?_)
  · rintro answer tl₁ ⟨ds, hd, hqueries, _⟩
    obtain ⟨hacts, hm₁⟩ := hqueried hd hqueries
    cases answer with
    | error e => exact ⟨hm₁, fun _ => hidle, hacts.mono (Nat.zero_le 1)⟩
    | ok module =>
      refine Routine.ends_act ⟨agrees_attach module tl₁.now hm₁, fun hfailed => ?_, ?_⟩
      · obtain ⟨_, heq⟩ | ⟨hok, _⟩ := m.attach_eq module tl₁.now tl₁.world
        · rw [heq]
          exact hidle
        · exact absurd hok hfailed
      · exact Nat.zero_add 1 ▸ hacts.trans
          (m.acts_attach module tl₁.now (hm₁.symm.trans hidle))
  · rintro tl₁ ⟨ds, hd, hqueries⟩
    exact (hqueried hd hqueries).1.mono (Nat.zero_le 1)

end Manager

/-! ## turns -/

/-- From `tl` to `tl'` at most one call on acquisition was made, a lawful one, and nobody else
touched it. -/
structure Orderly (tl tl' : Timeline Action Host) : Prop where
  disciplined : Disciplined 1 (deedsOf (happened tl tl'))
  seamless : Seamless tl.world.interface.acquiring (deedsOf (happened tl tl'))
    tl'.world.interface.acquiring

theorem Manager.Acts.orderly {tl tl' : Timeline Action Host} {n : Nat}
    (ha : Manager.Acts n tl.world tl'.world) (hn : n ≤ 1) : Orderly tl tl' := by
  obtain ⟨ds, hd, hdisciplined⟩ := ha
  have hdeeds := hd.deeds
  exact ⟨by rw [hdeeds]; exact hdisciplined.mono hn, by rw [hdeeds]; exact hd.seamless⟩

/-- A turn that is a part of a manager that is up, or one that idles. -/
theorem Manager.Observes.orderly {x : HostRoutine β} {r : β → Stage × Manager} {m : Manager}
    {n : Nat} (hx : m.Observes n x fun b => (r b).2) (hn : n ≤ 1) {tl : Timeline Action Host}
    (hm : m.acquiring = tl.world.interface.acquiring)
    (hidle : ∀ b, ¬ (r b).1.IsUp → (r b).2.acquiring = false) :
    (x >>= fun b => pure (r b)).Ends tl
      (fun r tl' => r.2.acquiring = tl'.world.interface.acquiring ∧
        (¬ r.1.IsUp → r.2.acquiring = false) ∧ Orderly tl tl')
      fun tl' => Orderly tl tl' := by
  refine Routine.ends_bind.mpr ((hx tl hm).imp ?_ fun _ h => h.orderly hn)
  rintro b tl' ⟨hm', hacts⟩
  exact ⟨hm', hidle b, hacts.orderly hn⟩

/-- **Every turn** is orderly, and leaves a flag that agrees with the interface. -/
theorem Turn.orderly (t : Turn) {s : Stage} {m : Manager} {tl : Timeline Action Host}
    (ht : t.MayTake s) (hm : m.acquiring = tl.world.interface.acquiring)
    (hidle : ¬ s.IsUp → m.acquiring = false) :
    (t.perform s m).Ends tl
      (fun r tl' => r.2.acquiring = tl'.world.interface.acquiring ∧
        (¬ r.1.IsUp → r.2.acquiring = false) ∧ Orderly tl tl')
      fun tl' => Orderly tl tl' := by
  cases t with
  | others step =>
    refine Routine.ends_bind.mpr ((step.perform_idles tl).imp ?_ fun _ h => h.elim)
    rintro _ tl' ⟨⟨entries, heq, hnone⟩, hsame⟩
    have hdeeds := deedsOf_idle heq hnone
    refine ⟨hm.trans hsame.symm, hidle, ?_, ?_⟩
    · show Disciplined 1 (deedsOf (happened tl tl'))
      rw [hdeeds]
      exact disciplined_nil.mono (Nat.zero_le 1)
    · show Seamless _ (deedsOf (happened tl tl')) _
      rw [hdeeds]
      exact hsame.symm
  | note e =>
    exact Manager.Observes.orderly (r := fun _ => (s, m)) (m.observes_idle (passes_note e).idles)
      (Nat.zero_le 1) hm fun _ => hidle
  | sleep ticks =>
    exact Manager.Observes.orderly (r := fun _ => (s, m)) (m.observes_idle (idles_sleep ticks))
      (Nat.zero_le 1) hm fun _ => hidle
  | awaitStack =>
    refine Manager.Observes.orderly (r := fun _ => (.starting, m))
      (m.observes_idle Manager.idles_awaitStack) (Nat.zero_le 1) hm fun _ _ => hidle ?_
    obtain rfl | rfl := ht
    · rintro (h | h) <;> cases h
    · rintro (h | h) <;> cases h
  | establish rounds =>
    obtain rfl := ht
    have hnot : ¬ Stage.IsUp .starting := by
      rintro (h | h) <;> cases h
    refine Routine.ends_bind.mpr ((m.acts_establish rounds tl hm (hidle hnot)).imp ?_
      fun _ h => h.orderly (Nat.le_refl 1))
    rintro r tl' ⟨hm', hfailed, hacts⟩
    refine ⟨hm', fun hnot' => hfailed fun hok => hnot' ?_, hacts.orderly (Nat.le_refl 1)⟩
    exact Or.inl (if_pos hok)
  | cycle =>
    exact m.observes_cycle.orderly (r := fun b : Manager × CycleReport => (.serving, b.1))
      (Nat.le_refl 1) hm fun _ hnot => absurd (Or.inr rfl) hnot
  | mirror =>
    exact m.observes_mirror.orderly (r := fun b : Manager × Option LinkChange => (s, b.1))
      (Nat.zero_le 1) hm fun _ hnot => absurd ht hnot
  | reconcile =>
    exact m.observes_reconcile.orderly (r := fun b : Manager × Option AddressChange => (s, b.1))
      (Nat.le_refl 1) hm fun _ hnot => absurd ht hnot
  | renew =>
    exact m.observes_renew.orderly
      (r := fun b : Manager × Except AttemptFault AttemptOutcome => (s, b.1))
      (Nat.zero_le 1) hm fun _ hnot => absurd ht hnot

/-! ## chronicles -/

/-- The state of a manager and its acquisition after the happenings `xs`. -/
structure Regular (s : Stage) (xs : List Happening) (m : Manager) (tl : Timeline Action Host) :
    Prop where
  agrees : m.acquiring = tl.world.interface.acquiring
  idle : ¬ s.IsUp → m.acquiring = false
  seamless : Seamless false (deedsOf xs) tl.world.interface.acquiring
  lawful : ∀ d ∈ deedsOf xs, d.Lawful

section
variable {s₀ s : Stage} {m₀ m : Manager} {tl₀ tl : Timeline Action Host} {xs : List Happening}

theorem keeps_regular : Keeps Regular fun xs tl =>
    Seamless false (deedsOf xs) tl.world.interface.acquiring ∧ ∀ d ∈ deedsOf xs, d.Lawful := by
  intro s xs m tl t hregular ht
  have hboth : ∀ {tl' : Timeline Action Host}, Orderly tl tl' →
      Seamless false (deedsOf (xs ++ happened tl tl')) tl'.world.interface.acquiring ∧
        ∀ d ∈ deedsOf (xs ++ happened tl tl'), d.Lawful := by
    intro tl' ho
    rw [deedsOf_append]
    exact ⟨seamless_append.mpr ⟨_, hregular.seamless, ho.seamless⟩,
      List.forall_mem_append.mpr ⟨hregular.lawful, ho.disciplined.lawful⟩⟩
  refine (t.orderly ht hregular.agrees hregular.idle).imp ?_ fun _ ho => hboth ho
  rintro r tl' ⟨hm, hidle, ho⟩
  exact ⟨hm, hidle, (hboth ho).1, (hboth ho).2⟩

theorem regular_begin (hm : m₀.acquiring = false)
    (hi : tl₀.world.interface.acquiring = false) : Regular s₀ [] m₀ tl₀ :=
  ⟨hm.trans hi.symm, fun _ => hm, hi.symm, fun _ hd => absurd hd List.not_mem_nil⟩

/-- **Address acquisition is disciplined.**  Take all that is told of a manager that was created
while acquisition did not run, also if its last turn came to a halt.  It started acquisition only
while the link was up and acquisition did not run, and stopped it only while the link was down and
there was an address or a running acquisition to give up.  After a start that succeeded there was no
other before a stop that did.  At every moment between two turns the flag of the manager agrees with
the interface, and a turn, be it a cycle or an attempt to establish the manager, makes at most one
such call. -/
theorem acquisition_is_disciplined (hm : m₀.acquiring = false)
    (hi : tl₀.world.interface.acquiring = false) :
    (∀ xs tl, Told s₀ m₀ tl₀ xs tl →
      (∀ d ∈ deedsOf xs, d.work = .call .startAcquisition →
        d.before.interface.snapshot.hasLink = true ∧ d.before.interface.acquiring = false) ∧
      (∀ d ∈ deedsOf xs, d.work = .call .releaseAndStop →
        d.before.interface.snapshot.hasLink = false ∧
          (d.before.interface.snapshot.hasAddress = true ∨ d.before.interface.acquiring = true)) ∧
      ∀ as d₁ bs d₂ cs, deedsOf xs = as ++ d₁ :: (bs ++ d₂ :: cs) →
        d₁.work = .call .startAcquisition → d₁.succeeds = true →
        d₂.work = .call .startAcquisition →
        ∃ d ∈ bs, d.work = .call .releaseAndStop ∧ d.succeeds = true) ∧
    ∀ s xs m tl, Chronicle s₀ m₀ tl₀ s xs m tl →
      m.acquiring = tl.world.interface.acquiring ∧
      ∀ t : Turn, t.MayTake s → (t.perform s m).Ends tl
        (fun _ tl' => (deedsOf (happened tl tl')).countP Deed.isAcquisition ≤ 1)
        fun tl' => (deedsOf (happened tl tl')).countP Deed.isAcquisition ≤ 1 := by
  have hbegin : Regular s₀ [] m₀ tl₀ := regular_begin hm hi
  refine ⟨fun xs tl told => ?_, fun s xs m tl ch => ?_⟩
  · obtain ⟨hseamless, hlawful⟩ := told.preserves hbegin keeps_regular
      fun _ _ _ _ h => ⟨h.seamless, h.lawful⟩
    refine ⟨fun d hd => (hlawful d hd).starts, fun d hd => (hlawful d hd).releases, ?_⟩
    intro as d₁ bs d₂ cs heq hw₁ hs₁ hw₂
    rw [heq] at hseamless hlawful
    have hidle := ((hlawful d₂ (by simp)).starts hw₂).2
    exact hseamless.stopped_between hw₁ hs₁ hidle
  · have hregular := ch.preserves hbegin keeps_regular
    refine ⟨hregular.agrees, fun t ht => ?_⟩
    exact (t.orderly ht hregular.agrees hregular.idle).imp (fun _ _ h => h.2.2.disciplined.few)
      fun _ h => h.disciplined.few

/-- A station that is up, goes down and comes up again: acquisition is started at startup, given up,
and started again. -/
theorem acquisition_of_flapping_station :
    ∃ xs tl, Told .starting {} slowToDisconnect xs tl ∧
      ((deedsOf xs).filter Deed.isAcquisition).map Deed.work
        = [.call .startAcquisition, .call .releaseAndStop, .call .startAcquisition] ∧
      ∀ d ∈ deedsOf xs, d.work = .call .startAcquisition →
        d.before.interface.snapshot.hasLink = true ∧ d.before.interface.acquiring = false := by
  have ch : Chronicle .starting {} slowToDisconnect .serving _ _ _ :=
    ((((Chronicle.begin.turn (.others (.act (.report .stationUp))) trivial rfl).turn
      (.establish 1) rfl rfl).turn (.others (.act (.report .stationDown))) trivial rfl).turn
      .cycle (Or.inl rfl) rfl).turn (.others (.act (.report .stationUp))) trivial rfl |>.turn
      .cycle (Or.inr rfl) rfl
  have told := Told.goesOn ch
  refine ⟨_, _, told, rfl, ?_⟩
  exact ((acquisition_is_disciplined rfl rfl).1 _ _ told).1

end

end Uplink
