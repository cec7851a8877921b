import Uplink.Proofs.Chronicle

/-!
# The shape of an iteration

One cycle writes at most four pieces of work to the trace, in this order: an attempt before the main
wait, a call on the link and a call on acquisition after it, and a reconnect.  Whether the first and
the last of these are there is known beforehand, from the status and from what the wait delivered.

* `DoneIf`               a piece of work that is there exactly if it was asked for;
* `Adjustment`           the calls on link and acquisition;
* `Manager.Iterates`     the shape of a cycle that returned;
* `Manager.Stops`        the shape of one that came to a halt;
* `Manager.Counts`       the counter of attempts counts the selections of a mode;
* `iterations_in_order`  every cycle of a chronicle has that shape, and the counter is exact.
-/

namespace Uplink

open Host HostRoutine

/-! ## pieces of work -/

/-- Work such that `W` if it was asked for, and none otherwise. -/
def DoneIf (asked : Prop) (W : List Work → Prop) (ws : List Work) : Prop :=
  (asked ∧ W ws) ∨ (¬ asked ∧ ws = [])

theorem DoneIf.imp {asked : Prop} {W W' : List Work → Prop} {ws : List Work}
    (h : DoneIf asked W ws) (hW : W ws → W' ws) : DoneIf asked W' ws := by
  obtain ⟨hasked, hw⟩ | hnone := h
  · exact Or.inl ⟨hasked, hW hw⟩
  · exact Or.inr hnone

/-- At most one call on the link, the one that belongs to the reported change, and then at most one
on acquisition. -/
def Adjustment (report : CycleReport) (ws : List Work) : Prop :=
  ∃ address : Option InterfaceCall,
    ws = ((report.link.map LinkChange.call).toList ++ address.toList).map Work.call ∧
    (∀ call ∈ address, call = .startAcquisition ∨ call = .releaseAndStop)

/-! ## selections of a mode -/

def Work.selectsMode : Work → Bool
  | request (.selectMode _) _ => true
  | _ => false

/-- How often a mode was selected. -/
def selections (ws : List Work) : Nat := ws.countP Work.selectsMode

theorem selections_append (as bs : List Work) :
    selections (as ++ bs) = selections as + selections bs := List.countP_append

theorem selections_eq_zero {ws : List Work} (h : ∀ w ∈ ws, w.selectsMode = false) :
    selections ws = 0 :=
  List.countP_eq_zero.mpr fun w hw => ne_true_of_eq_false (h w hw)

theorem selections_calls (calls : List InterfaceCall) : selections (calls.map Work.call) = 0 := by
  refine selections_eq_zero fun w hw => ?_
  obtain ⟨call, _, rfl⟩ := List.mem_map.mp hw
  rfl

theorem Association.Tried.selections_eq {s : AssociationSettings} {tl : Timeline Action Host}
    {ws : List Work} (h : Tried s tl ws) : selections ws = 1 := by
  cases h <;> rfl

theorem Manager.Renewed.selections_eq {m : Manager} {tl : Timeline Action Host} {ws : List Work}
    (h : m.Renewed tl ws) : selections ws = 1 := by
  obtain ⟨_, htried⟩ := h
  exact htried.selections_eq

namespace Manager

variable {m m₁ m' : Manager} {tl tl₁ tl' : Timeline Action Host} {as bs ws : List Work}

/-- From `m` to `m'` the settings stay as they are, and the counter of attempts counts the
selections of a mode among `ws`, in a word of 32 bits. -/
structure Counts (m : Manager) (ws : List Work) (m' : Manager) : Prop where
  settings_eq : m'.settings = m.settings
  association_eq : m'.association.settings = m.association.settings
  attempts_eq : m'.association.attempts = m.association.attempts + UInt32.ofNat (selections ws)

theorem counts_none (hs : m'.settings = m.settings) (ha : m'.association = m.association)
    (hnone : selections ws = 0) : m.Counts ws m' := by
  refine ⟨hs, by rw [ha], ?_⟩
  rw [ha, hnone]
  exact (UInt32.add_zero _).symm

theorem counts_refl (m : Manager) : m.Counts [] m := counts_none rfl rfl rfl

theorem counts_one (hs : m'.settings = m.settings)
    (ha : m'.association = m.association.counted) (hone : selections ws = 1) : m.Counts ws m' := by
  refine ⟨hs, by rw [ha]; rfl, ?_⟩
  rw [ha, hone]
  rfl

theorem Counts.trans (ha : m.Counts as m₁) (hb : m₁.Counts bs m') : m.Counts (as ++ bs) m' where
  settings_eq := hb.settings_eq.trans ha.settings_eq
  association_eq := hb.association_eq.trans ha.association_eq
  attempts_eq := by
    rw [hb.attempts_eq, ha.attempts_eq, selections_append, UInt32.ofNat_add, UInt32.add_assoc]

theorem Counts.dropWork_eq (hc : m.Counts ws m₁) : m₁.dropWork = m.dropWork :=
  congrArg (fun s : Settings => Work.request .disconnect s.disconnectTimeout) hc.settings_eq

theorem Renewed.of_counts (hc : m.Counts ws m₁) (h : m₁.Renewed tl bs) : m.Renewed tl bs := by
  obtain ⟨hdrop, htried⟩ := h
  rw [hc.settings_eq] at hdrop
  rw [hc.association_eq] at htried
  rw [hc.dropWork_eq]
  exact .mk hdrop htried

theorem RenewalBegun.of_counts (hc : m.Counts ws m₁) (h : m₁.RenewalBegun tl bs) :
    m.RenewalBegun tl bs := by
  cases h with
  | dropping hdrop =>
    rw [hc.settings_eq] at hdrop
    rw [hc.dropWork_eq]
    exact .dropping hdrop
  | trying hdrop hbegun =>
    rw [hc.settings_eq] at hdrop
    rw [hc.association_eq] at hbegun
    rw [hc.dropWork_eq]
    exact .trying hdrop hbegun

/-! ## the parts of a cycle in the trace -/

theorem does_nothing_written (hd : Does [] tl.world tl'.world) :
    tl'.world.trace.toList = tl.world.trace.toList ++ written tl tl' ∧
      worksIn (written tl tl') = [] := (achieves_nothing hd).written

/-- What a part of a cycle did that makes an attempt if `asked`. -/
theorem Tries.told {asked : Prop} {W : List Work → Prop}
    {r : Manager × Option (Except AttemptFault AttemptOutcome)}
    (h : m.Tries asked W tl.world r tl'.world) (hone : ∀ ws, W ws → selections ws = 1) :
    tl'.world.trace.toList = tl.world.trace.toList ++ written tl tl' ∧
      DoneIf asked W (worksIn (written tl tl')) ∧ m.Counts (worksIn (written tl tl')) r.1 ∧
      r.2 ≠ some (.ok .alreadyActive) := by
  obtain ⟨hasked, ⟨outcome, hne, rfl⟩, ha⟩ | ⟨hasked, rfl, hd⟩ := h
  · obtain ⟨htrace, hw⟩ := ha.written
    exact ⟨htrace, Or.inl ⟨hasked, hw⟩, counts_one rfl rfl (hone _ hw),
      fun h => hne (Option.some.inj h)⟩
  · obtain ⟨htrace, hnone⟩ := does_nothing_written hd
    refine ⟨htrace, Or.inr ⟨hasked, hnone⟩, ?_, fun h => nomatch h⟩
    rw [hnone]
    exact m.counts_refl

theorem BeginsToTry.told {asked : Prop} {W : List Work → Prop}
    (h : BeginsToTry asked W tl.world tl'.world) :
    tl'.world.trace.toList = tl.world.trace.toList ++ written tl tl' ∧
      DoneIf asked W (worksIn (written tl tl')) := by
  obtain ⟨hasked, ha⟩ | ⟨hasked, hd⟩ := h
  · exact ⟨ha.written.1, Or.inl ⟨hasked, ha.written.2⟩⟩
  · exact ⟨(does_nothing_written hd).1, Or.inr ⟨hasked, (does_nothing_written hd).2⟩⟩

/-- The moment of a cycle at which link and acquisition have been adjusted, if its main wait was
over at `tl`. -/
def adjusted (m : Manager) (events : EventSet) (tl : Timeline Action Host) : Timeline Action Host :=
  { tl with world := (m.adjust tl.now (afterWait events tl.world)).2 }

theorem calls_of_change (change : Option LinkChange) (h : Host) :
    (change.toList.map (h.calling ·.call)).map Deed.work
      = (change.map LinkChange.call).toList.map Work.call := by
  cases change <;> rfl

theorem calls_of_due (due : Option InterfaceCall) (h : Host) :
    (due.toList.map h.calling).map Deed.work = due.toList.map Work.call := by
  cases due <;> rfl

theorem mirrorStatus_counts (m : Manager) (now : Nat) (h : Host) {calls : List InterfaceCall} :
    m.Counts (calls.map Work.call) (m.mirrorStatus now h).1.1 := by
  unfold mirrorStatus
  dsimp only
  split
  · exact counts_none rfl rfl (selections_calls _)
  · exact counts_none rfl rfl (selections_calls _)

theorem reconcile_counts (m : Manager) (now : Nat) (h : Host) {calls : List InterfaceCall} :
    m.Counts (calls.map Work.call) (m.reconcileAddress now h).1.1 := by
  obtain ⟨acquiring, heq⟩ := m.reconcileAddress_eq now h
  rw [heq]
  exact counts_none rfl rfl (selections_calls _)

/-- **The adjustment** in the trace. -/
theorem adjusted_told (m : Manager) (attempt : Option (Except AttemptFault AttemptOutcome))
    (events : EventSet) (renewal : Option (Except AttemptFault AttemptOutcome))
    (tl : Timeline Action Host) :
    let r := (m.adjust tl.now (afterWait events tl.world)).1
    (m.adjusted events tl).world.trace.toList
        = tl.world.trace.toList ++ written tl (m.adjusted events tl) ∧
      Adjustment ⟨events, attempt, renewal, r.2.1, r.2.2⟩
        (worksIn (written tl (m.adjusted events tl))) ∧
      m.Counts (worksIn (written tl (m.adjusted events tl))) r.1 := by
  let h := afterWait events tl.world
  have hwaited : Does [] tl.world h := by
    show Does [] tl.world (if events = EventSet.empty then _ else _)
    split
    · exact (does_refl _).note _
    · exact does_refl _
  have hdoes : Does _ tl.world (m.adjusted events tl).world :=
    hwaited.after_nothing (m.does_adjust tl.now h)
  rw [hdoes.works_eq, List.map_append, calls_of_change, calls_of_due]
  refine ⟨Timeline.Leads.trace_eq ⟨_, hdoes⟩, ⟨_, List.map_append.symm, ?_⟩, ?_⟩
  · exact fun call hcall => dueCall_cases hcall
  · exact (m.mirrorStatus_counts tl.now h).trans (reconcile_counts _ tl.now _)

/-! ## cycles -/

/-- The shape of a cycle that returned: its main wait was over at `waited`, and link and acquisition
were adjusted at `adjusted`. -/
structure Iterates (m : Manager) (tl : Timeline Action Host) (report : CycleReport)
    (waited adjusted tl' : Timeline Action Host) : Prop where
  heard : ∃ m₁, m.hear tl = .ok (m₁, report.attempt, report.events) waited
  trace_eq : tl'.world.trace.toList = tl.world.trace.toList ++
    (written tl waited ++ (written waited adjusted ++ written adjusted tl'))
  attempt : DoneIf (tl.world.status = .none ∨ tl.world.status = .stationDown)
    (Association.Tried m.association.settings tl) (worksIn (written tl waited))
  adjustment : Adjustment report (worksIn (written waited adjusted))
  renewal : DoneIf (report.events.Has .reconnectRequested) (m.Renewed adjusted)
    (worksIn (written adjusted tl'))
  attempt_ne : report.attempt ≠ some (.ok .alreadyActive)
  renewal_ne : report.renewal ≠ some (.ok .alreadyActive)

/-- The shape of a cycle that came to a halt: before its main wait was over, or in a reconnect. -/
inductive Stops (m : Manager) (tl tl' : Timeline Action Host) : Prop
  | waiting {e : Halt} : m.hear tl = .error e tl' →
    tl'.world.trace.toList = tl.world.trace.toList ++ written tl tl' →
    DoneIf (tl.world.status = .none ∨ tl.world.status = .stationDown)
      (Association.Begun m.association.settings tl) (worksIn (written tl tl')) → Stops m tl tl'
  | renewing {m₁ : Manager} {report : CycleReport} {waited adjusted : Timeline Action Host} :
    m.hear tl = .ok (m₁, report.attempt, report.events) waited →
    tl'.world.trace.toList = tl.world.trace.toList ++
      (written tl waited ++ (written waited adjusted ++ written adjusted tl')) →
    DoneIf (tl.world.status = .none ∨ tl.world.status = .stationDown)
      (Association.Tried m.association.settings tl) (worksIn (written tl waited)) →
    Adjustment report (worksIn (written waited adjusted)) →
    report.events.Has .reconnectRequested →
    m.RenewalBegun adjusted (worksIn (written adjusted tl')) → Stops m tl tl'

/-- **A cycle** does its work in order, and counts its selections of a mode. -/
theorem cycle_iterates (m : Manager) (tl : Timeline Action Host) : m.cycle.Ends tl
    (fun r tl' => (∃ waited adjusted, m.Iterates tl r.2 waited adjusted tl') ∧
      m.Counts (worksIn (written tl tl')) r.1)
    fun tl' => m.Stops tl tl' := by
  rw [cycle_eq]
  refine Routine.ends_bind.mpr (((m.hear_does tl).and (Routine.ends_self _ tl)).imp ?_ ?_)
  · rintro ⟨m₁, attempt, events⟩ waited ⟨htries, hheard⟩
    obtain ⟨htrace, hattempt, hcounts, hne⟩ := htries.told fun _ h => h.selections_eq
    rw [tl.world.status.mayAssociate_iff] at hattempt
    unfold Routine.Ends
    rw [answer_eq]
    dsimp only
    refine Routine.ends_bind.mpr
      ((renewIfAsked_does _ (m₁.adjusted events waited) events).imp ?_ ?_)
    · rintro ⟨m₃, renewal⟩ tl' htries'
      obtain ⟨htrace₁, hadjustment, hcounts₁⟩ := m₁.adjusted_told attempt events renewal waited
      obtain ⟨htrace₂, hrenewal, hcounts₂, hne'⟩ := htries'.told fun _ h => h.selections_eq
      have hall : tl'.world.trace.toList = tl.world.trace.toList ++ (written tl waited ++
          (written waited (m₁.adjusted events waited) ++
            written (m₁.adjusted events waited) tl')) := by
        rw [htrace₂, htrace₁, htrace, List.append_assoc, List.append_assoc]
      refine ⟨⟨waited, m₁.adjusted events waited, ?_⟩, ?_⟩
      · exact
          { heard := ⟨m₁, hheard⟩
            trace_eq := hall
            attempt := hattempt
            adjustment := hadjustment
            renewal := hrenewal.imp fun h => (h.of_counts hcounts₁).of_counts hcounts
            attempt_ne := hne
            renewal_ne := hne' }
      · show m.Counts (worksIn (written tl tl')) m₃
        rw [written_eq hall, worksIn_append, worksIn_append]
        exact hcounts.trans (hcounts₁.trans hcounts₂)
    · rintro tl' ⟨hasked, hachieves⟩
      obtain ⟨htrace₁, hadjustment, hcounts₁⟩ := m₁.adjusted_told attempt events none waited
      obtain ⟨htrace₂, hbegun⟩ := hachieves.written
      refine .renewing hheard ?_ hattempt hadjustment hasked
        ((hbegun.of_counts hcounts₁).of_counts hcounts)
      rw [htrace₂, htrace₁, htrace, List.append_assoc, List.append_assoc]
  · rintro tl' ⟨hbegins, e, hheard⟩
    obtain ⟨htrace, hattempt⟩ := hbegins.told
    rw [tl.world.status.mayAssociate_iff] at hattempt
    exact .waiting hheard htrace hattempt

/-! ## turns -/

theorem selections_of_queries {ds : List Deed} (h : Queries ds) :
    selections (ds.map Deed.work) = 0 := by
  refine selections_eq_zero fun w hw => ?_
  obtain ⟨d, hd, rfl⟩ := List.mem_map.mp hw
  have hquery := h d hd
  unfold Deed.isQuery at hquery
  split at hquery
  · rename_i hwork
    rw [hwork]
    rfl
  · rename_i hwork
    rw [hwork]
    rfl
  · cases hquery

theorem Establishes.counts {r : Manager × Except StartFault Unit} {ds : List Deed}
    (h : m.Establishes r ds) : m.Counts (ds.map Deed.work) r.1 := by
  cases h with
  | unidentified hqueries => exact counts_none rfl rfl (selections_of_queries hqueries)
  | @identified module d₁ d₂ before after _ hbefore hid hattaches =>
    obtain ⟨calls, hcalls, _⟩ := hattaches.works_eq
    have hnone : selections ((before ++ [d₁, d₂] ++ after).map Deed.work) = 0 := by
      rw [List.map_append, selections_append, hcalls, selections_calls,
        selections_of_queries (hbefore.append hid.queries)]
    cases hattaches with
    | refused _ => exact counts_none rfl rfl hnone
    | attached _ _ hsettings hassociation => exact counts_none hsettings hassociation hnone

theorem counts_does {ds : List Deed} (hd : Does ds tl.world tl'.world)
    (hc : m.Counts (ds.map Deed.work) m') : m.Counts (worksIn (written tl tl')) m' := by
  rw [hd.works_eq]
  exact hc

end Manager

/-- **Every turn** counts its selections of a mode. -/
theorem Turn.counts (t : Turn) (s : Stage) (m : Manager) (tl : Timeline Action Host) :
    (t.perform s m).Ends tl (fun r tl' => m.Counts (worksIn (written tl tl')) r.2)
      fun _ => True := by
  have hidle : t.IsIdle → (t.perform s m).Ends tl
      (fun r tl' => m.Counts (worksIn (written tl tl')) r.2) fun _ => True := by
    intro ht
    refine (t.idles ht s m tl).imp ?_ fun _ _ => trivial
    rintro r tl' ⟨_, heq, hnone⟩
    rw [heq, ← works_happened, hnone]
    exact m.counts_refl
  cases t with
  | others _ | note _ | sleep _ | awaitStack => exact hidle trivial
  | establish rounds =>
    refine Routine.ends_bind.mpr ((m.works_establish rounds tl).imp ?_ fun _ _ => trivial)
    rintro r tl' ⟨ds, hd, hestablishes⟩
    exact Manager.counts_does hd hestablishes.counts
  | cycle =>
    exact Routine.ends_bind.mpr ((m.cycle_iterates tl).imp (fun _ _ h => h.2) fun _ _ => trivial)
  | mirror =>
    refine Routine.ends_bind.mpr (Routine.ends_act ?_)
    refine Manager.counts_does (m.does_mirrorStatus tl.now tl.world) ?_
    rw [Manager.calls_of_change]
    exact m.mirrorStatus_counts tl.now tl.world
  | reconcile =>
    refine Routine.ends_bind.mpr (Routine.ends_act ?_)
    refine Manager.counts_does (m.does_reconcile tl.now tl.world) ?_
    rw [Manager.calls_of_due]
    exact m.reconcile_counts tl.now tl.world
  | renew =>
    refine Routine.ends_bind.mpr ((m.renew_does tl).imp ?_ fun _ _ => trivial)
    rintro ⟨m', outcome⟩ tl' ⟨rfl, _, ds, hd, hrenewed⟩
    exact Manager.counts_does hd (Manager.counts_one rfl rfl hrenewed.selections_eq)

/-! ## chronicles -/

section
variable {s₀ s : Stage} {m₀ m : Manager} {tl₀ tl : Timeline Action Host} {xs : List Happening}

theorem Chronicle.counts (ch : Chronicle s₀ m₀ tl₀ s xs m tl) :
    m₀.Counts (worksIn (xs.map Happening.entry)) m := by
  refine ch.preserves (I := fun _ xs m _ => m₀.Counts (worksIn (xs.map Happening.entry)) m)
    (E := fun _ _ => True) m₀.counts_refl ?_
  intro s xs m tl t hcounts _
  refine (t.counts s m tl).imp (fun r tl' hturn => ?_) fun _ h => h
  show m₀.Counts (worksIn ((xs ++ happened tl tl').map Happening.entry)) r.2
  rw [List.map_append, entries_happened, worksIn_append]
  exact hcounts.trans hturn

/-- **Every iteration does its work in order, and the counter of attempts is exact.**  At every
moment of a chronicle the counter of a manager that began with none tells how often a mode was
selected since, in a word of 32 bits.  From there a cycle makes an attempt exactly if the status is
none or station down; after its main wait it makes at most one call on the link and then at most one
on acquisition; and it drops the association and makes another attempt exactly if the wait delivered
a request for a reconnect.  Its attempts are never reported as not made.  A cycle that comes to a
halt has done the beginning of that. -/
theorem iterations_in_order (ch : Chronicle s₀ m₀ tl₀ s xs m tl)
    (hnew : m₀.association.attempts = 0) :
    tl.world.trace.toList = tl₀.world.trace.toList ++ xs.map Happening.entry ∧
    m.settings = m₀.settings ∧ m.association.settings = m₀.association.settings ∧
    m.association.attempts.toNat = selections (worksIn (xs.map Happening.entry)) % UInt32.size ∧
    (∀ r tl', m.cycle tl = .ok r tl' →
      ∃ waited adjusted, m.Iterates tl r.2 waited adjusted tl') ∧
    ∀ e tl', m.cycle tl = .error e tl' → m.Stops tl tl' := by
  have hcounts := ch.counts
  refine ⟨ch.trace_eq, hcounts.settings_eq, hcounts.association_eq, ?_, ?_, ?_⟩
  · rw [hcounts.attempts_eq, hnew, UInt32.zero_add, UInt32.toNat_ofNat']
  · intro r tl' hcycle
    exact ((m.cycle_iterates tl).of_ok hcycle).1
  · intro e tl' hcycle
    exact (m.cycle_iterates tl).of_error hcycle

/-- A start and a cycle that serves a reconnect select the mode twice. -/
theorem two_attempts_are_counted :
    ∃ xs m tl, Chronicle .starting {} slowToDisconnect .serving xs m tl ∧
      m.association.attempts = 2 ∧
      selections (worksIn (xs.map Happening.entry)) % UInt32.size = 2 := by
  have ch : Chronicle .starting {} slowToDisconnect .serving _ _ _ :=
    ((Chronicle.begin.turn (.establish 1) rfl rfl).turn (.others (.act .requestReconnect))
      trivial rfl).turn .cycle (Or.inl rfl) rfl
  obtain ⟨_, _, _, hcounted, _⟩ := iterations_in_order ch rfl
  exact ⟨_, _, _, ch, rfl, hcounted.symm⟩

end

end Uplink
