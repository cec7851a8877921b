import Uplink.Proofs.Iterations
import Uplink.Proofs.StartupGate

/-!
# The order of startup

A manager keeps an order from its creation on.  It does nothing before the stack was reported to be
ready.  Then it asks the module who it is, and registers the interface with the address that it was
told; all else comes after a registration that succeeded, and nothing of startup comes then.

* `Always`                  every element fits what came before it;
* `Deed.InOrder`            what came before a deed;
* `Turn.starts`,
  `Turn.serves`             the deeds of a turn before and after the registration;
* `Chronicle.account`       until the first cycle the gate takes an event, and nobody another one;
* `startup_in_order`        every chronicle and every run keeps the order.
-/

namespace Uplink

open Host HostRoutine

/-! ## what came before -/

section
variable {α : Type} {P : List α → α → Prop} {x : α} {xs ys : List α}

/-- Every element of the list fits what came before it. -/
def Always (P : List α → α → Prop) (xs : List α) : Prop :=
  ∀ past x later, xs = past ++ x :: later → P past x

theorem always_nil (P : List α → α → Prop) : Always P [] := by
  intro past x later h
  simp at h

theorem Always.append (ha : Always P xs) (hb : Always (fun past => P (xs ++ past)) ys) :
    Always P (xs ++ ys) := by
  intro past x later h
  obtain ⟨ws, rfl, hys⟩ | ⟨ws, rfl, hlater⟩ := List.append_eq_append_iff.mp h
  · exact hb ws x later hys
  · cases ws with
    | nil =>
      have hx := hb [] x later hlater.symm
      rwa [List.append_nil, List.append_nil] at hx
    | cons w ws =>
      obtain ⟨rfl, _⟩ := List.cons.inj hlater
      exact ha past x ws rfl

theorem Always.cons (hx : P [] x) (hxs : Always (fun past => P (x :: past)) xs) :
    Always P (x :: xs) := by
  have hfirst : Always P [x] := by
    intro past y later h
    cases past with
    | nil =>
      obtain ⟨rfl, _⟩ := List.cons.inj h
      exact hx
    | cons z past => simp at h
  exact hfirst.append hxs

end

/-! ## deeds in order -/

/-- A query of the module or a registration. -/
def Work.isStartup : Work → Bool
  | request .firmwareVersion _ | request .hardwareAddress _ | call (.register _) => true
  | _ => false

/-- A registration has succeeded. -/
def Registered (ds : List Deed) : Prop :=
  ∃ d ∈ ds, (∃ mac, d.work = .call (.register mac)) ∧ d.succeeds = true

structure Deed.InOrder (timeout : Nat) (past : List Deed) (d : Deed) : Prop where
  startup : d.work.isStartup = true → ¬ Registered past
  service : d.work.isStartup = false → Registered past
  /-- Right before a registration both queries of one attempt were answered, the second with the
  address that is registered. -/
  register : ∀ mac, d.work = .call (.register mac) → ∃ before d₁ d₂ module,
    past = before ++ [d₁, d₂] ∧ Identified timeout module d₁ d₂ ∧ mac = module.mac

/-- Nothing of startup is among the deeds. -/
def InService (ds : List Deed) : Prop := ∀ d ∈ ds, d.work.isStartup = false

theorem inService_nil : InService [] := fun _ hd => absurd hd List.not_mem_nil

section
variable {timeout : Nat} {past as bs ds : List Deed} {d : Deed}

theorem registered_append : Registered (as ++ bs) ↔ Registered as ∨ Registered bs := by
  unfold Registered
  simp only [List.mem_append, or_and_right, exists_or]

theorem isStartup_of_isQuery (h : d.isQuery = true) : d.work.isStartup = true := by
  unfold Deed.isQuery at h
  split at h
  · rename_i hw
    rw [hw]
    rfl
  · rename_i hw
    rw [hw]
    rfl
  · cases h

theorem Queries.not_registered (h : Queries ds) : ¬ Registered ds := by
  rintro ⟨d, hd, ⟨mac, hw⟩, _⟩
  have hq := h d hd
  unfold Deed.isQuery at hq
  rw [hw] at hq
  cases hq

/-- **Queries** are in order as long as no registration has succeeded. -/
theorem Queries.inOrder (h : Queries ds) (hpast : ¬ Registered past) :
    Always (fun before => Deed.InOrder timeout (past ++ before)) ds := by
  rintro before d later rfl
  have hbefore : Queries before := fun d hd => h d (List.mem_append_left _ hd)
  have hq := h d (by simp)
  refine ⟨fun _ hr => ?_, fun hs => ?_, fun mac hw => ?_⟩
  · obtain hr | hr := registered_append.mp hr
    · exact hpast hr
    · exact hbefore.not_registered hr
  · rw [isStartup_of_isQuery hq] at hs
    cases hs
  · unfold Deed.isQuery at hq
    rw [hw] at hq
    cases hq

/-- **All else** is in order once a registration has succeeded. -/
theorem InService.inOrder (h : InService ds) (hpast : Registered past) :
    Always (fun before => Deed.InOrder timeout (past ++ before)) ds := by
  rintro before d later rfl
  have hs := h d (by simp)
  refine ⟨fun hstart => ?_, fun _ => registered_append.mpr (Or.inl hpast), fun mac hw => ?_⟩
  · rw [hs] at hstart
    cases hstart
  · rw [hw] at hs
    cases hs

end

/-! ## an attempt to establish the manager -/

namespace Manager

variable {m : Manager} {module : ModuleIdentity} {r : Manager × Except StartFault Unit}
  {timeout : Nat} {past ds : List Deed} {d d₁ d₂ : Deed}

/-- The manager knows the module whose address was registered. -/
def Knows (m : Manager) (ds : List Deed) : Prop :=
  ∃ module, m.module = some module ∧
    ∃ d ∈ ds, d.work = .call (.register module.mac) ∧ d.succeeds = true

/-- The registration itself. -/
theorem inOrder_register (hw : d.work = .call (.register module.mac))
    (hid : Identified timeout module d₁ d₂) (hpast : ¬ Registered (past ++ [d₁, d₂])) :
    d.InOrder timeout (past ++ [d₁, d₂]) := by
  refine ⟨fun _ => hpast, fun hs => ?_, fun mac hw' => ?_⟩
  · rw [hw] at hs
    cases hs
  · rw [hw] at hw'
    cases hw'
    exact ⟨past, d₁, d₂, module, rfl, hid, rfl⟩

/-- **A registration** right after the queries is in order. -/
theorem Attaches.inOrder (ha : m.Attaches module r ds) (hid : Identified timeout module d₁ d₂)
    (hpast : ¬ Registered (past ++ [d₁, d₂])) :
    Always (fun before => Deed.InOrder timeout (past ++ [d₁, d₂] ++ before)) ds ∧
      (Registered ds ↔ r.2 = .ok ()) ∧ (r.2 = .ok () → r.1.Knows ds) := by
  have hfirst : ∀ {d : Deed}, d.work = .call (.register module.mac) →
      d.InOrder timeout (past ++ [d₁, d₂] ++ []) := by
    intro d hw
    rw [List.append_nil]
    exact inOrder_register hw hid hpast
  cases ha with
  | @refused h e hrefused =>
    have hfails : (h.calling (.register module.mac)).succeeds = false := by
      show (h.interface.refusal (.register module.mac)).isNone = false
      rw [hrefused]
      rfl
    refine ⟨Always.cons (hfirst rfl) (always_nil _), ⟨?_, fun hok => nomatch hok⟩,
      fun hok => nomatch hok⟩
    rintro ⟨d, hd, _, hs⟩
    rw [List.mem_singleton.mp hd, hfails] at hs
    cases hs
  | @attached now h m' haccepted hmodule _ _ =>
    have hsucceeds : (h.calling (.register module.mac)).succeeds = true := by
      show (h.interface.refusal (.register module.mac)).isNone = true
      rw [haccepted]
      rfl
    have hrest : ∀ ds, InService ds → Always
        (fun before => Deed.InOrder timeout (past ++ [d₁, d₂] ++ before))
        (h.calling (.register module.mac) :: ds) := by
      intro ds hservice
      refine Always.cons (hfirst rfl) ?_
      have hregistered : Registered (past ++ [d₁, d₂] ++ [h.calling (.register module.mac)]) :=
        registered_append.mpr (Or.inr ⟨_, List.mem_singleton.mpr rfl, ⟨_, rfl⟩, hsucceeds⟩)
      have hinOrder : Always (fun before => Deed.InOrder timeout
          (past ++ [d₁, d₂] ++ [h.calling (.register module.mac)] ++ before)) ds :=
        hservice.inOrder hregistered
      simp only [List.append_assoc, List.singleton_append] at hinOrder ⊢
      exact hinOrder
    have hmem : h.calling (.register module.mac) ∈ registration now h module ++
        if (raised now h module).status.isAssociated then
          [(raised now h module).calling .setLinkUp,
            (lifted now (raised now h module)).calling .startAcquisition] else [] :=
      List.mem_append_left _ List.mem_cons_self
    refine ⟨?_, ⟨fun _ => rfl, fun _ => ⟨_, hmem, ⟨_, rfl⟩, hsucceeds⟩⟩,
      fun _ => ⟨module, hmodule, _, hmem, rfl, hsucceeds⟩⟩
    refine hrest _ ?_
    split
    · simp [InService, Host.calling, Work.isStartup]
    · simp [InService, Host.calling, Work.isStartup]

/-- **An attempt to establish** the manager is in order as long as no registration has succeeded,
and succeeds exactly if a registration does. -/
theorem Establishes.inOrder (he : m.Establishes r ds) (hpast : ¬ Registered past) :
    Always (fun before => Deed.InOrder m.settings.queryTimeout (past ++ before)) ds ∧
      (Registered ds ↔ r.2 = .ok ()) ∧ (r.2 = .ok () → r.1.Knows ds) := by
  cases he with
  | unidentified hqueries =>
    exact ⟨hqueries.inOrder hpast, ⟨fun h => absurd h hqueries.not_registered, fun h => nomatch h⟩,
      fun h => nomatch h⟩
  | @identified module d₁ d₂ before after _ hbefore hid hattaches =>
    have hqueries := hbefore.append hid.queries
    have hnone : ¬ Registered (past ++ before ++ [d₁, d₂]) := by
      rw [List.append_assoc]
      intro h
      obtain h | h := registered_append.mp h
      · exact hpast h
      · exact hqueries.not_registered h
    obtain ⟨hinOrder, hiff, hknows⟩ := hattaches.inOrder hid hnone
    refine ⟨(hqueries.inOrder hpast).append ?_, ?_, fun hok => ?_⟩
    · simp only [List.append_assoc] at hinOrder ⊢
      exact hinOrder
    · rw [registered_append, or_iff_right hqueries.not_registered, hiff]
    · obtain ⟨module', hmodule, d, hd, hw, hs⟩ := hknows hok
      exact ⟨module', hmodule, d, List.mem_append_right _ hd, hw, hs⟩

end Manager

/-! ## turns -/

theorem Work.not_startup_of_association {w : Work} (h : w.isAssociation = true) :
    w.isStartup = false := by
  cases w with
  | call _ => cases h
  | request request _ => cases request <;> first | rfl | cases h

theorem DoneIf.forall_mem {asked : Prop} {W : List Work → Prop} {ws : List Work} {p : Work → Prop}
    (h : DoneIf asked W ws) (hW : W ws → ∀ w ∈ ws, p w) : ∀ w ∈ ws, p w := by
  obtain ⟨_, hw⟩ | ⟨_, rfl⟩ := h
  · exact hW hw
  · exact fun _ hw => absurd hw List.not_mem_nil

theorem Adjustment.not_startup {report : CycleReport} {ws : List Work} (h : Adjustment report ws) :
    ∀ w ∈ ws, w.isStartup = false := by
  obtain ⟨address, rfl, haddress⟩ := h
  intro w hw
  obtain ⟨call, hcall, rfl⟩ := List.mem_map.mp hw
  obtain hlink | hdue := List.mem_append.mp hcall
  · obtain ⟨change, _, rfl⟩ := Option.map_eq_some_iff.mp (Option.mem_toList.mp hlink)
    cases change <;> rfl
  · obtain rfl | rfl := haddress call (Option.mem_toList.mp hdue)
    · rfl
    · rfl

section
variable {m : Manager} {tl tl' : Timeline Action Host}

theorem inService_of_works (h : ∀ w ∈ worksIn (written tl tl'), w.isStartup = false) :
    InService (deedsOf (happened tl tl')) := by
  intro d hd
  refine h d.work ?_
  rw [← works_happened]
  exact List.mem_map_of_mem hd

theorem Host.Does.inService {ds : List Deed} (hd : Does ds tl.world tl'.world) (h : InService ds) :
    InService (deedsOf (happened tl tl')) := by
  rw [hd.deeds]
  exact h

theorem inService_calls (h : Host) {calls : List InterfaceCall}
    (hcalls : ∀ call ∈ calls, ∀ mac, call ≠ .register mac) : InService (calls.map h.calling) := by
  intro d hd
  obtain ⟨call, hcall, rfl⟩ := List.mem_map.mp hd
  cases call with
  | register mac => exact absurd rfl (hcalls _ hcall mac)
  | _ => rfl

theorem Manager.Iterates.inService {report : CycleReport} {waited adjusted : Timeline Action Host}
    (h : m.Iterates tl report waited adjusted tl') : InService (deedsOf (happened tl tl')) := by
  refine inService_of_works ?_
  rw [written_eq h.trace_eq, worksIn_append, worksIn_append]
  refine List.forall_mem_append.mpr ⟨?_, List.forall_mem_append.mpr ⟨?_, ?_⟩⟩
  · exact h.attempt.forall_mem fun htried w hw =>
      Work.not_startup_of_association (htried.isAssociation w hw)
  · exact h.adjustment.not_startup
  · exact h.renewal.forall_mem fun hrenewed w hw =>
      Work.not_startup_of_association (hrenewed.begun.isAssociation w hw)

theorem Manager.Stops.inService (h : m.Stops tl tl') : InService (deedsOf (happened tl tl')) := by
  refine inService_of_works ?_
  cases h with
  | waiting _ _ hattempt =>
    exact hattempt.forall_mem fun hbegun w hw =>
      Work.not_startup_of_association (hbegun.isAssociation w hw)
  | renewing _ htrace hattempt hadjustment _ hrenewal =>
    rw [written_eq htrace, worksIn_append, worksIn_append]
    refine List.forall_mem_append.mpr ⟨?_, List.forall_mem_append.mpr ⟨?_, ?_⟩⟩
    · exact hattempt.forall_mem fun htried w hw =>
        Work.not_startup_of_association (htried.isAssociation w hw)
    · exact hadjustment.not_startup
    · exact fun w hw => Work.not_startup_of_association (hrenewal.isAssociation w hw)

theorem Manager.Tries.module_eq {asked : Prop} {W : List Work → Prop} {h h' : Host}
    {r : Manager × Option (Except AttemptFault AttemptOutcome)} (ht : m.Tries asked W h r h') :
    r.1.module = m.module := by
  obtain ⟨_, ⟨_, _, rfl⟩, _⟩ | ⟨_, rfl, _⟩ := ht
  · rfl
  · rfl

theorem Manager.module_mirrorStatus (m : Manager) (now : Nat) (h : Host) :
    (m.mirrorStatus now h).1.1.module = m.module := by
  unfold mirrorStatus
  dsimp only
  split
  · rfl
  · rfl

theorem Manager.module_reconcile (m : Manager) (now : Nat) (h : Host) :
    (m.reconcileAddress now h).1.1.module = m.module := by
  obtain ⟨_, heq⟩ := m.reconcileAddress_eq now h
  rw [heq]

/-- **A cycle** does not change what the manager knows of the module. -/
theorem Manager.module_cycle (m : Manager) (tl : Timeline Action Host) :
    m.cycle.Ends tl (fun r _ => r.1.module = m.module) fun _ => True := by
  rw [cycle_eq]
  refine Routine.ends_bind.mpr ((m.hear_does tl).imp ?_ fun _ _ => trivial)
  rintro ⟨m₁, attempt, events⟩ waited htries
  unfold Routine.Ends
  rw [answer_eq]
  refine Routine.ends_bind.mpr ((renewIfAsked_does _ (m₁.adjusted events waited) events).imp ?_
    fun _ _ => trivial)
  rintro ⟨m₃, renewal⟩ tl' htries'
  show m₃.module = m.module
  rw [← htries.module_eq, htries'.module_eq]
  exact (module_reconcile _ _ _).trans (module_mirrorStatus _ _ _)

end

/-- A turn of a manager that is up, or of others meanwhile. -/
theorem Turn.serves (t : Turn) {s : Stage} {m : Manager} {tl : Timeline Action Host} (hs : s.IsUp)
    (ht : t.MayTake s) : (t.perform s m).Ends tl
      (fun r tl' => r.1.IsUp ∧ r.2.module = m.module ∧ InService (deedsOf (happened tl tl')))
      fun tl' => InService (deedsOf (happened tl tl')) := by
  have hidle : t.IsIdle → t ≠ .awaitStack → (t.perform s m).Ends tl
      (fun r tl' => r.1.IsUp ∧ r.2.module = m.module ∧ InService (deedsOf (happened tl tl')))
      fun tl' => InService (deedsOf (happened tl tl')) := by
    intro hidle hother
    refine (t.idles hidle s m tl).imp ?_ ?_
    · rintro r tl' ⟨hsame | ⟨hwaits, _⟩, heq, hnone⟩
      · rw [hsame, heq, hnone]
        exact ⟨hs, rfl, inService_nil⟩
      · exact absurd hwaits hother
    · intro tl' hnone
      rw [hnone]
      exact inService_nil
  cases t with
  | others _ | note _ | sleep _ => exact hidle trivial fun h => nomatch h
  | awaitStack =>
    obtain rfl | rfl := hs
    · obtain h | h := ht <;> cases h
    · obtain h | h := ht <;> cases h
  | establish rounds =>
    obtain rfl | rfl := hs
    · cases ht
    · cases ht
  | cycle =>
    refine Routine.ends_bind.mpr (((m.cycle_iterates tl).and (m.module_cycle tl)).imp ?_ ?_)
    · rintro r tl' ⟨⟨⟨waited, adjusted, hiterates⟩, _⟩, hmodule⟩
      exact ⟨Or.inr rfl, hmodule, hiterates.inService⟩
    · rintro tl' ⟨hstops, _⟩
      exact hstops.inService
  | mirror =>
    refine Routine.ends_bind.mpr (Routine.ends_act ⟨hs, m.module_mirrorStatus _ _, ?_⟩)
    refine (m.does_mirrorStatus tl.now tl.world).inService ?_
    intro d hd
    obtain ⟨change, _, rfl⟩ := List.mem_map.mp hd
    cases change <;> rfl
  | reconcile =>
    refine Routine.ends_bind.mpr (Routine.ends_act ⟨hs, m.module_reconcile _ _, ?_⟩)
    refine (m.does_reconcile tl.now tl.world).inService (inService_calls _ ?_)
    rintro call hcall mac rfl
    obtain h | h := Manager.dueCall_cases (Option.mem_toList.mp hcall) <;> cases h
  | renew =>
    have hservice : ∀ {tl' : Timeline Action Host},
        Achieves (m.RenewalBegun tl) tl.world tl'.world →
        InService (deedsOf (happened tl tl')) := fun hachieves =>
      inService_of_works fun w hw =>
        Work.not_startup_of_association (hachieves.written.2.isAssociation w hw)
    refine Routine.ends_bind.mpr ((m.renew_does tl).imp ?_ fun _ h => hservice h)
    rintro ⟨m', outcome⟩ tl' ⟨rfl, _, hachieves⟩
    exact ⟨hs, rfl, hservice (hachieves.imp fun _ => Manager.Renewed.begun)⟩

/-- A turn before a registration has succeeded: nothing, or an attempt to establish the manager. -/
theorem Turn.starts (t : Turn) {s : Stage} {m : Manager} {tl : Timeline Action Host} (hs : ¬ s.IsUp)
    (ht : t.MayTake s) : (t.perform s m).Ends tl
      (fun r tl' => (¬ r.1.IsUp ∧ r.2 = m ∧ deedsOf (happened tl tl') = []) ∨
        ∃ outcome, r.1 = Stage.after outcome ∧
          m.Establishes (r.2, outcome) (deedsOf (happened tl tl')))
      fun tl' => Queries (deedsOf (happened tl tl')) := by
  have hidle : t.IsIdle → (t.perform s m).Ends tl
      (fun r tl' => (¬ r.1.IsUp ∧ r.2 = m ∧ deedsOf (happened tl tl') = []) ∨
        ∃ outcome, r.1 = Stage.after outcome ∧
          m.Establishes (r.2, outcome) (deedsOf (happened tl tl')))
      fun tl' => Queries (deedsOf (happened tl tl')) := by
    intro hidle
    refine (t.idles hidle s m tl).imp ?_ ?_
    · rintro r tl' ⟨hsame | ⟨_, hstarting⟩, heq, hnone⟩
      · exact Or.inl ⟨hsame ▸ hs, heq, hnone⟩
      · refine Or.inl ⟨?_, heq, hnone⟩
        rw [hstarting]
        rintro (h | h) <;> cases h
    · intro tl' hnone
      rw [hnone]
      exact queries_nil
  cases t with
  | others _ | note _ | sleep _ | awaitStack => exact hidle trivial
  | establish rounds =>
    refine Routine.ends_bind.mpr ((m.works_establish rounds tl).imp ?_ ?_)
    · rintro r tl' ⟨ds, hd, hestablishes⟩
      refine Or.inr ⟨r.2, rfl, ?_⟩
      show m.Establishes r (deedsOf (happened tl tl'))
      rw [hd.deeds]
      exact hestablishes
    · rintro tl' ⟨ds, hd, hqueries⟩
      rw [hd.deeds]
      exact hqueries
  | cycle | mirror | reconcile | renew => exact absurd ht hs

theorem Stage.isUp_after {outcome : Except StartFault Unit} :
    (Stage.after outcome).IsUp ↔ outcome = .ok () := by
  unfold Stage.after
  split
  · exact ⟨fun _ => by assumption, fun _ => Or.inl rfl⟩
  · rename_i hfailed
    refine ⟨?_, fun hok => absurd hok hfailed⟩
    rintro (h | h) <;> cases h

/-! ## chronicles -/

/-- The deeds of a manager are in order so far, and a registration has succeeded exactly if the
manager is up. -/
structure Starts (m₀ : Manager) (s : Stage) (xs : List Happening) (m : Manager)
    (_ : Timeline Action Host) : Prop where
  inOrder : Always (Deed.InOrder m₀.settings.queryTimeout) (deedsOf xs)
  registered_iff : Registered (deedsOf xs) ↔ s.IsUp
  knows : s.IsUp → m.Knows (deedsOf xs)
  settings_eq : m.settings = m₀.settings

theorem Manager.Knows.more {m m' : Manager} {as bs : List Deed} (h : m.Knows as)
    (heq : m'.module = m.module) : m'.Knows (as ++ bs) := by
  obtain ⟨module, hmodule, d, hd, hregistered⟩ := h
  exact ⟨module, heq.trans hmodule, d, List.mem_append_left _ hd, hregistered⟩

theorem keeps_starts (m₀ : Manager) : Keeps (Starts m₀) fun xs _ =>
    Always (Deed.InOrder m₀.settings.queryTimeout) (deedsOf xs) := by
  intro s xs m tl t hstarts ht
  by_cases hs : s.IsUp
  · have hregistered := hstarts.registered_iff.mpr hs
    refine ((t.serves hs ht).and (t.counts s m tl)).imp ?_ ?_
    · rintro r tl' ⟨⟨hup, hmodule, hservice⟩, hcounts⟩
      refine ⟨?_, ?_, fun _ => ?_, hcounts.settings_eq.trans hstarts.settings_eq⟩
      · rw [deedsOf_append]
        exact hstarts.inOrder.append (hservice.inOrder hregistered)
      · rw [deedsOf_append, registered_append]
        exact ⟨fun _ => hup, fun _ => Or.inl hregistered⟩
      · rw [deedsOf_append]
        exact (hstarts.knows hs).more hmodule
    · rintro tl' ⟨hservice, _⟩
      rw [deedsOf_append]
      exact hstarts.inOrder.append (hservice.inOrder hregistered)
  · have hnot : ¬ Registered (deedsOf xs) := fun h => hs (hstarts.registered_iff.mp h)
    refine ((t.starts hs ht).and (t.counts s m tl)).imp ?_ ?_
    · rintro r tl' ⟨⟨hdown, hsame, hnone⟩ | ⟨outcome, hstage, hestablishes⟩, hcounts⟩
      · refine ⟨?_, ?_, fun hup => absurd hup hdown, hcounts.settings_eq.trans hstarts.settings_eq⟩
        · rw [deedsOf_append, hnone, List.append_nil]
          exact hstarts.inOrder
        · rw [deedsOf_append, hnone, List.append_nil]
          exact ⟨fun h => absurd h hnot, fun hup => absurd hup hdown⟩
      · obtain ⟨hinOrder, hregistered, hknows⟩ := hestablishes.inOrder hnot
        rw [hstarts.settings_eq] at hinOrder
        refine ⟨?_, ?_, fun hup => ?_, hcounts.settings_eq.trans hstarts.settings_eq⟩
        · rw [deedsOf_append]
          exact hstarts.inOrder.append hinOrder
        · rw [deedsOf_append, registered_append, or_iff_right hnot, hregistered, hstage,
            Stage.isUp_after]
        · rw [hstage, Stage.isUp_after] at hup
          obtain ⟨module, hmodule, d, hd, hw⟩ := hknows hup
          rw [deedsOf_append]
          exact ⟨module, hmodule, d, List.mem_append_right _ hd, hw⟩
    · rintro tl' ⟨hqueries, _⟩
      rw [deedsOf_append]
      exact hstarts.inOrder.append (hqueries.inOrder hnot)

theorem starts_begin (m₀ : Manager) (tl₀ : Timeline Action Host) {s₀ : Stage} (hs : ¬ s₀.IsUp) :
    Starts m₀ s₀ [] m₀ tl₀ := by
  refine ⟨always_nil _, ⟨?_, fun h => absurd h hs⟩, fun h => absurd h hs, rfl⟩
  rintro ⟨_, hd, _⟩
  exact absurd hd List.not_mem_nil

/-- What a manager that is up knows of the module stays. -/
theorem Chronicle.module_eq {s₀ s : Stage} {m₀ m : Manager} {tl₀ tl : Timeline Action Host}
    {xs : List Happening} (ch : Chronicle s₀ m₀ tl₀ s xs m tl) (hup : s₀.IsUp) :
    m.module = m₀.module := by
  have hboth := ch.preserves (I := fun s _ m _ => s.IsUp ∧ m.module = m₀.module)
    (E := fun _ _ => True) ⟨hup, rfl⟩ fun s xs m tl t hI ht =>
      (t.serves hI.1 ht).imp (fun _ _ h => ⟨h.1, h.2.1.trans hI.2⟩) fun _ _ => trivial
  exact hboth.2

/-! ## the gate -/

/-- **The gate** takes the event of the stack, which it waited for, and no other. -/
theorem Manager.awaitStack_takes {h₀ : Host} {owed : EventSet} {rs : List Request}
    {tl : Timeline Action Host} (hs : Since h₀ owed rs tl.world) : awaitStack.Ends tl
      (fun _ tl' => ∃ seen, (∀ e, EventSet.Has seen e → e = .linkStackReady) ∧
        seen.Has .linkStackReady ∧ Since h₀ (owed ||| seen) rs tl'.world) fun _ => True := by
  unfold awaitStack
  refine Routine.ends_bind.mpr ?_
  have hwait := (awaitAll_ends gate noTimeout (hs.note .awaitingStack)).and
    (Routine.ends_self (awaitAll gate noTimeout) { tl with world := tl.world.note .awaitingStack })
  refine Routine.ends_bind.mpr (hwait.imp ?_ fun _ _ => trivial)
  rintro events tl₁ ⟨⟨seen, rfl, haim, hs₁⟩, heq⟩
  refine ⟨seen, fun e he => ?_, ?_, hs₁.note .stackReady⟩
  · have hgate := haim e he
    revert hgate
    cases e <;> decide
  · -- the deadline never rings, so the wait was ended by the event
    unfold HostRoutine.awaitAll at heq
    rw [Port.awaitAll_apply] at heq
    obtain ⟨t, seen', h', hfound⟩ := Routine.await_found (ring_noTimeout tl.now) heq
    unfold Port.gather at hfound
    dsimp only at hfound
    split at hfound
    · rename_i hcovers
      have hboth : gate &&& (seen' ||| (port.take gate h').1) = gate &&& seen :=
        Look.done.inj (congrArg Prod.fst hfound)
      have hhas := (EventSet.has_and gate _ .linkStackReady).mpr
        ⟨by decide, (covers_gate _).mp hcovers⟩
      rw [hboth] at hhas
      exact ((EventSet.has_and _ _ _).mp hhas).2
    · cases congrArg Prod.fst hfound

/-- Until the first cycle the mailbox has all that it had and accepted, up to the event of the
stack, which was taken at the gate. -/
def Accounted (tl₀ : Timeline Action Host) (s : Stage) (tl : Timeline Action Host) : Prop :=
  s ≠ .serving → ∃ owed rs, (∀ e, EventSet.Has owed e → e = .linkStackReady) ∧
    (s ≠ .outside → owed.Has .linkStackReady) ∧ Since tl₀.world owed rs tl.world

theorem Turn.stays_serving {t : Turn} (ht : t.MayTake .serving) (m : Manager)
    (tl : Timeline Action Host) :
    (t.perform .serving m).Ends tl (fun r _ => r.1 = .serving) fun _ => True := by
  cases t with
  | awaitStack => obtain h | h := ht <;> cases h
  | establish _ => cases ht
  | _ => exact Routine.ends_bind_last fun _ _ => Routine.ends_pure rfl

/-- A turn that keeps the accounts, and does not pass the gate. -/
theorem Accounted.asks {tl₀ tl : Timeline Action Host} {s : Stage} (ha : Accounted tl₀ s tl)
    (hserving : s ≠ .serving) {x : HostRoutine β} {R E : List Request → Prop} (hx : Asks x R E)
    {r : β → Stage × Manager} (hstage : ∀ b, s = .outside → (r b).1 = .outside) :
    (x >>= fun b => pure (r b)).Ends tl (fun r tl' => Accounted tl₀ r.1 tl') fun _ => True := by
  obtain ⟨owed, rs, haim, hpassed, hs⟩ := ha hserving
  refine Routine.ends_bind.mpr ((hx tl hs).imp ?_ fun _ _ => trivial)
  rintro b tl' ⟨more, _, hs'⟩ _
  exact ⟨owed, _, haim, fun h => hpassed fun hout => h (hstage b hout), hs'⟩

/-- **Until the first cycle** no turn takes an event from the mailbox, up to the one at the gate. -/
theorem keeps_accounted {tl₀ : Timeline Action Host}
    (hclaimed : tl₀.world.mailbox.claimed = true) :
    Keeps (fun s _ _ tl => Accounted tl₀ s tl) fun _ _ => True := by
  intro s xs m tl t haccounted ht
  by_cases hserving : s = .serving
  · subst hserving
    exact (t.stays_serving ht m tl).imp (fun _ _ h hnot => absurd h hnot) fun _ h => h
  cases t with
  | others step =>
    obtain ⟨owed, rs, haim, hpassed, hs⟩ := haccounted hserving
    obtain ⟨entries, hleads, _⟩ := id hs
    have hstep := step.perform_ends (hleads.claimed_eq.trans hclaimed) hs
    refine Routine.ends_bind.mpr (hstep.imp ?_ fun _ _ => trivial)
    intro _ tl' hs' _
    exact ⟨owed, _, haim, hpassed, hs'⟩
  | note e =>
    exact haccounted.asks hserving (r := fun _ => (s, m)) (keeps_note e) fun _ h => h
  | sleep ticks =>
    exact haccounted.asks hserving (r := fun _ => (s, m)) (quiet_sleep ticks) fun _ h => h
  | awaitStack =>
    obtain ⟨owed, rs, haim, _, hs⟩ := haccounted hserving
    refine Routine.ends_bind.mpr ((Manager.awaitStack_takes hs).imp ?_ fun _ h => h)
    rintro _ tl' ⟨seen, honly, hseen, hs'⟩ _
    refine ⟨owed ||| seen, rs, fun e he => ?_, fun _ => ?_, hs'⟩
    · obtain he | he := (EventSet.has_or _ _ _).mp he
      · exact haim e he
      · exact honly e he
    · exact (EventSet.has_or _ _ _).mpr (Or.inr hseen)
  | establish rounds =>
    obtain rfl := ht
    exact haccounted.asks hserving (m.establish_tame rounds)
      (r := fun b : Manager × Except StartFault Unit => (Stage.after b.2, b.1)) fun _ h => nomatch h
  | cycle =>
    exact (Routine.ends_bind_last fun _ _ => Routine.ends_pure rfl :
      Routine.Ends _ tl (fun r _ => r.1 = Stage.serving) fun _ => True).imp
      (fun _ _ h hnot => absurd h hnot) fun _ h => h
  | mirror =>
    have hmirror : HostRoutine.Keeps (Routine.act m.mirrorStatus) :=
      keeps_act fun now h hs => (m.handles_mirrorStatus now h).since hs
    exact haccounted.asks hserving hmirror
      (r := fun b : Manager × Option LinkChange => (s, b.1)) fun _ h => h
  | reconcile =>
    have hreconcile : HostRoutine.Keeps (Routine.act m.reconcileAddress) :=
      keeps_act fun now h hs => (m.handles_reconcile now h).since hs
    exact haccounted.asks hserving hreconcile
      (r := fun b : Manager × Option AddressChange => (s, b.1)) fun _ h => h
  | renew =>
    exact haccounted.asks hserving m.renew_asks
      (r := fun b : Manager × Except AttemptFault AttemptOutcome => (s, b.1)) fun _ h => h

/-- The mailbox has accepted the event of the stack, on the way so far or before it. -/
def Opened (tl₀ : Timeline Action Host) (past : List Happening) : Prop :=
  tl₀.world.mailbox.pending.Has .linkStackReady ∨
    ∃ x ∈ past, ∃ events, x.entry = .accepted events ∧ events.Has .linkStackReady

section
variable {s : Stage} {m₀ m : Manager} {tl₀ tl : Timeline Action Host} {xs ys : List Happening}

theorem Opened.append (h : Opened tl₀ xs) : Opened tl₀ (xs ++ ys) := by
  obtain h | ⟨x, hx, hevents⟩ := h
  · exact Or.inl h
  · exact Or.inr ⟨x, List.mem_append_left _ hx, hevents⟩

/-- The accounts of a chronicle that has no cycle yet. -/
theorem Chronicle.account (ch : Chronicle .outside m₀ tl₀ s xs m tl)
    (hclaimed : tl₀.world.mailbox.claimed = true) (hs : s ≠ .serving) :
    ∃ owed, (∀ e, EventSet.Has owed e → e = .linkStackReady) ∧
      (s ≠ .outside → owed.Has .linkStackReady) ∧
      tl.world.mailbox.pending ||| owed
        = tl₀.world.mailbox.pending ||| acceptedIn (xs.map Happening.entry) := by
  have hbegin : Accounted tl₀ .outside tl₀ := fun _ =>
    ⟨EventSet.empty, [], fun e he => absurd he (EventSet.not_has_empty e), fun h => absurd rfl h,
      since_refl _⟩
  obtain ⟨owed, rs, haim, hpassed, entries, hleads, _⟩ :=
    ch.preserves hbegin (keeps_accounted hclaimed) hs
  have hentries : entries = xs.map Happening.entry :=
    List.append_cancel_left (hleads.trace_eq.symm.trans ch.trace_eq)
  exact ⟨owed, haim, hpassed, hentries ▸ hleads.pending_eq⟩

/-- **Nobody passes the gate** before the event has been accepted. -/
theorem Chronicle.opened (ch : Chronicle .outside m₀ tl₀ s xs m tl)
    (hclaimed : tl₀.world.mailbox.claimed = true) (hs : s ≠ .outside) : Opened tl₀ xs := by
  induction ch with
  | begin => exact absurd rfl hs
  | @turn s s' xs m m' tl tl' t ch ht hp ih =>
    by_cases hserving : s' = .serving
    · refine (ih fun hout => ?_).append
      subst hout
      have hnot : ¬ Stage.IsUp .outside := by
        rintro (h | h) <;> cases h
      obtain ⟨hdown, _⟩ | ⟨outcome, hafter, _⟩ := (t.starts hnot ht).of_ok hp
      · exact hdown (Or.inr hserving)
      · dsimp only at hafter
        rw [hserving] at hafter
        unfold Stage.after at hafter
        split at hafter <;> cases hafter
    · obtain ⟨owed, _, hpassed, heq⟩ := (ch.turn t ht hp).account hclaimed hserving
      have hhas : (tl₀.world.mailbox.pending |||
          acceptedIn ((xs ++ happened tl tl').map Happening.entry)).Has .linkStackReady := by
        rw [← heq]
        exact (EventSet.has_or _ _ _).mpr (Or.inr (hpassed hs))
      obtain hbefore | haccepted := (EventSet.has_or _ _ _).mp hhas
      · exact Or.inl hbefore
      · obtain ⟨events, hmem, hready⟩ := (has_acceptedIn _ _).mp haccepted
        obtain ⟨x, hx, hentry⟩ := List.mem_map.mp hmem
        exact Or.inr ⟨x, hx, events, hentry, hready⟩

/-- The manager does nothing before the event of the stack has been accepted. -/
def Ready (tl₀ : Timeline Action Host) (xs : List Happening) : Prop :=
  Always (fun past x => x.entry.work?.isSome = true → Opened tl₀ past) xs

theorem Told.ready (told : Told .outside m₀ tl₀ xs tl)
    (hclaimed : tl₀.world.mailbox.claimed = true) : Ready tl₀ xs := by
  refine told.preserves (I := fun s xs m tl => Chronicle .outside m₀ tl₀ s xs m tl ∧ Ready tl₀ xs)
    (E := fun xs _ => Ready tl₀ xs) ⟨.begin, always_nil _⟩ ?_ fun _ _ _ _ h => h.2
  rintro s xs m tl t ⟨ch, hready⟩ ht
  have hturn : (t.perform s m).Ends tl (fun _ tl' => Ready tl₀ (xs ++ happened tl tl'))
      fun tl' => Ready tl₀ (xs ++ happened tl tl') := by
    by_cases hs : s = .outside
    · have hidle : t.IsIdle := by
        subst hs
        cases t with
        | others _ | note _ | sleep _ | awaitStack => trivial
        | establish _ => cases ht
        | _ => obtain h | h := ht <;> cases h
      have hquiet : ∀ {tl' : Timeline Action Host}, deedsOf (happened tl tl') = [] →
          Ready tl₀ (xs ++ happened tl tl') := by
        intro tl' hnone
        refine hready.append ?_
        rintro past x later heq hsome
        have hx := List.filterMap_eq_nil_iff.mp hnone x (by rw [heq]; simp)
        unfold Happening.deed? at hx
        rw [Option.map_eq_none_iff] at hx
        rw [hx] at hsome
        cases hsome
      exact (t.idles hidle s m tl).imp (fun _ _ h => hquiet h.2.2) fun _ h => hquiet h
    · have hopened := ch.opened hclaimed hs
      have hall : ∀ tl', Ready tl₀ (xs ++ happened tl tl') := fun tl' =>
        hready.append fun _ _ _ _ _ => hopened.append
      exact (Routine.ends_self _ tl).imp (fun _ tl' _ => hall tl') fun tl' _ => hall tl'
  exact ((ch.performs t ht).and hturn).imp (fun _ _ h => h) fun _ h => h.2

/-! ## the order -/

/-- What is told of a manager by the moment `tl`, all that was written to the trace, is in order. -/
structure StartsInOrder (m₀ : Manager) (tl₀ : Timeline Action Host) (xs : List Happening)
    (tl : Timeline Action Host) : Prop where
  trace_eq : tl.world.trace.toList = tl₀.world.trace.toList ++ xs.map Happening.entry
  ready : Ready tl₀ xs
  inOrder : Always (Deed.InOrder m₀.settings.queryTimeout) (deedsOf xs)

theorem Told.startsInOrder (told : Told .outside m₀ tl₀ xs tl)
    (hclaimed : tl₀.world.mailbox.claimed = true) : StartsInOrder m₀ tl₀ xs tl where
  trace_eq := told.trace_eq
  ready := told.ready hclaimed
  inOrder := told.preserves (starts_begin m₀ tl₀ (by rintro (h | h) <;> cases h)) (keeps_starts m₀)
    fun _ _ _ _ h => h.inOrder

/-- **A manager starts up in order.**  Take all that is told of a manager with a claimed mailbox, of
a start and what comes after it or of a whole run.  It does nothing before the event of the stack
has been accepted.  It registers the interface right after the two queries of one attempt were
answered, and with the address of the second; queries and registrations come only before a
registration has succeeded, and all other requests and calls only after that.  What it knows of the
module then stays.  And when its first cycle begins, every other event that was pending at first or
was accepted since is pending. -/
theorem startup_in_order (hclaimed : tl₀.world.mailbox.claimed = true) :
    (∀ xs tl, Told .outside m₀ tl₀ xs tl → StartsInOrder m₀ tl₀ xs tl) ∧
    (∀ rounds e tl, m₀.run rounds tl₀ = .error e tl →
      StartsInOrder m₀ tl₀ (happened tl₀ tl) tl) ∧
    ∀ s xs m tl, Chronicle .outside m₀ tl₀ s xs m tl →
      (s ≠ .serving → ∀ e, e ≠ .linkStackReady →
        (tl.world.mailbox.pending.Has e ↔ tl₀.world.mailbox.pending.Has e ∨
          ∃ events, .accepted events ∈ xs.map Happening.entry ∧ events.Has e)) ∧
      (Registered (deedsOf xs) → m.Knows (deedsOf xs) ∧
        ∀ s' ys m' tl', Chronicle s m tl s' ys m' tl' → m'.module = m.module) := by
  refine ⟨fun xs tl told => told.startsInOrder hclaimed,
    fun rounds e tl h => (told_run h).startsInOrder hclaimed, fun s xs m tl ch => ⟨?_, ?_⟩⟩
  · intro hs e he
    obtain ⟨owed, haim, _, heq⟩ := ch.account hclaimed hs
    rw [← has_acceptedIn, ← EventSet.has_or, ← heq, EventSet.has_or]
    exact ⟨Or.inl, fun h => h.resolve_right fun howed => he (haim e howed)⟩
  · intro hregistered
    have hstarts := ch.preserves (starts_begin m₀ tl₀ (by rintro (h | h) <;> cases h))
      (keeps_starts m₀)
    have hup := hstarts.registered_iff.mp hregistered
    exact ⟨hstarts.knows hup, fun s' ys m' tl' later => later.module_eq hup⟩

/-- A reconnect was requested before the stack was ready; it waits for the first cycle. -/
theorem request_waits_for_startup :
    ∃ xs m tl, Chronicle .outside {} slowToDisconnect .established xs m tl ∧
      StartsInOrder {} slowToDisconnect xs tl ∧
      (worksIn (xs.map Happening.entry)).map Work.isStartup = [true, true, true, false, false] ∧
      tl.world.mailbox.pending.Has .reconnectRequested := by
  have ch : Chronicle .outside {} slowToDisconnect .established _ _ _ :=
    (((Chronicle.begin.turn (.others (.act .requestReconnect)) trivial rfl).turn
      (.others (.act .stackReady)) trivial rfl).turn .awaitStack (Or.inl rfl) rfl).turn
      (.establish 1) rfl rfl
  obtain ⟨htold, _, hchronicle⟩ := @startup_in_order {} slowToDisconnect rfl
  refine ⟨_, _, _, ch, htold _ _ (.goesOn ch), rfl, ?_⟩
  refine ((hchronicle _ _ _ _ ch).1 (by decide) .reconnectRequested (by decide)).mpr (Or.inr ?_)
  exact ⟨EventSet.single .reconnectRequested, List.mem_cons_self, by decide⟩

end

end Uplink
