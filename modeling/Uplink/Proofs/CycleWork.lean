import Uplink.Proofs.Deeds
import Uplink.Proofs.RetryTimers

/-!
# The work of a cycle

An attempt selects the mode of a station, and asks to connect exactly if that succeeded and the
store holds credentials then.  A cycle makes one before its main wait if the status asks for one;
after the wait it makes at most one call on the link and at most one on acquisition; and if the wait
delivered a request for a reconnect, it drops the association and makes another attempt.

* `Association.Tried`, `Association.Begun`          the requests of an attempt that returned, and of
                                                    one that may have come to a halt;
* `Manager.Renewed`, `Manager.RenewalBegun`         the same for a reconnect;
* `Association.associate_does`                      what an attempt does;
* `Manager.hear_does`, `Manager.renewIfAsked_does`  what the parts of a cycle do.
-/

namespace Uplink

open Host HostRoutine

/-! ## credentials -/

/-- Name and key, byte for byte, are those of the store; a key that was never written is empty. -/
structure Credentials.StoredIn (c : Credentials) (s : Store) : Prop where
  ssid : s.ssid = some c.ssid.toByteArray
  psk : s.psk.getD ByteArray.empty = c.psk.toByteArray

theorem Credentials.storedIn_of_ofStore {c : Credentials} {s : Store} (h : ofStore s = .ok c) :
    c.StoredIn s := by
  unfold ofStore at h
  cases hs : s.ssid with
  | none =>
    rw [hs] at h
    cases h
  | some bytes =>
    rw [hs] at h
    unfold ofBytes at h
    dsimp only at h
    split at h
    · cases h
    · split at h
      · rename_i hssid hpsk
        cases h
        obtain ⟨_, hssid⟩ := text?_eq_some_iff.mp hssid
        obtain ⟨_, hpsk⟩ := text?_eq_some_iff.mp hpsk
        exact ⟨by rw [hs, hssid], hpsk.symm⟩
      · cases h

/-! ## achievements -/

/-- Between two moments of a host the manager did work such that `W`. -/
def Host.Achieves (W : List Work → Prop) (h h' : Host) : Prop :=
  ∃ ds, Does ds h h' ∧ W (ds.map Deed.work)

section
variable {W W' : List Work → Prop} {h h₁ h' : Host}

theorem Host.Achieves.imp (ha : Achieves W h h') (hW : ∀ ws, W ws → W' ws) : Achieves W' h h' := by
  obtain ⟨ds, hd, hw⟩ := ha
  exact ⟨ds, hd, hW _ hw⟩

theorem Host.Achieves.quietly (ha : Achieves W h h₁) (hd : Does [] h₁ h') : Achieves W h h' := by
  obtain ⟨ds, hds, hw⟩ := ha
  exact ⟨ds, hds.quietly hd, hw⟩

theorem Host.achieves_nothing (hd : Does [] h h') : Achieves (· = []) h h' := ⟨[], hd, rfl⟩

theorem Host.Does.works_eq {tl tl' : Timeline Action Host} {ds : List Deed}
    (hd : Does ds tl.world tl'.world) : worksIn (written tl tl') = ds.map Deed.work := by
  obtain ⟨entries, hr, rfl⟩ := hd
  rw [written_eq hr.trace_eq, works_deedsOf]

/-- What was achieved can be read off the trace. -/
theorem Host.Achieves.written {tl tl' : Timeline Action Host} (ha : Achieves W tl.world tl'.world) :
    tl'.world.trace.toList = tl.world.trace.toList ++ written tl tl' ∧
      W (worksIn (written tl tl')) := by
  obtain ⟨ds, hd, hw⟩ := ha
  rw [hd.works_eq]
  obtain ⟨entries, hr, _⟩ := hd
  rw [written_eq hr.trace_eq]
  exact ⟨hr.trace_eq, hw⟩

end

/-! ## attempts -/

/-- A request of the three that attempts and reconnects consist of. -/
def Work.isAssociation : Work → Bool
  | request (.selectMode _) _ | request (.connect _ _) _ | request .disconnect _ => true
  | _ => false

namespace Association

/-- The requests of an attempt that began at `tl` and returned. -/
inductive Tried (s : AssociationSettings) (tl : Timeline Action Host) : List Work → Prop
  /-- The mode could not be selected. -/
  | refused {e : TransportFault} {selected : Timeline Action Host} :
    selectMode .station s.modeTimeout tl = .ok (.error e) selected → Tried s tl [modeWork s]
  /-- The mode was selected, and the store held no credentials then. -/
  | unavailable {e : AttemptFault} {selected : Timeline Action Host} :
    selectMode .station s.modeTimeout tl = .ok (.ok ()) selected →
    Credentials.ofStore selected.world.store = .error e → Tried s tl [modeWork s]
  /-- The mode was selected, and the store held the credentials `c` then. -/
  | connecting {c : Credentials} {selected : Timeline Action Host} :
    selectMode .station s.modeTimeout tl = .ok (.ok ()) selected →
    Credentials.ofStore selected.world.store = .ok c → c.StoredIn selected.world.store →
    Tried s tl [modeWork s, connectWork s c]

/-- The requests of an attempt that began at `tl` and may have come to a halt. -/
inductive Begun (s : AssociationSettings) (tl : Timeline Action Host) : List Work → Prop
  | tried {ws : List Work} : Tried s tl ws → Begun s tl ws
  | selecting {e : Halt} {halted : Timeline Action Host} :
    selectMode .station s.modeTimeout tl = .error e halted → Begun s tl [modeWork s]

/-! ### the requests of an association -/

section
variable {s : AssociationSettings} {tl : Timeline Action Host} {ws : List Work}

theorem Tried.isAssociation (h : Tried s tl ws) : ∀ w ∈ ws, w.isAssociation = true := by
  cases h with
  | refused _ => exact List.forall_mem_singleton.mpr rfl
  | unavailable _ _ => exact List.forall_mem_singleton.mpr rfl
  | connecting _ _ _ => exact List.forall_mem_cons.mpr ⟨rfl, List.forall_mem_singleton.mpr rfl⟩

theorem Begun.isAssociation (h : Begun s tl ws) : ∀ w ∈ ws, w.isAssociation = true := by
  cases h with
  | tried h => exact h.isAssociation
  | selecting _ => exact List.forall_mem_singleton.mpr rfl

end

theorem attempt_does (a : Association) (tl : Timeline Action Host) : a.attempt.Ends tl
    (fun _ tl' => Achieves (Tried a.settings tl) tl.world tl'.world)
    fun tl' => Achieves (Begun a.settings tl) tl.world tl'.world := by
  unfold attempt
  have hserves : HostRoutine.Serves (.selectMode .station) Coprocessor.nextMode := fun _ => rfl
  have hmode := (works_ask hserves a.settings.modeTimeout tl).and (Routine.ends_self _ tl)
  refine Routine.ends_bind.mpr (hmode.imp ?_ ?_)
  · rintro answer selected ⟨⟨_, hd, s, rfl, _⟩, heq⟩
    cases answer with
    | error e => exact ⟨_, hd.note (.modeFailed e), .refused heq⟩
    | ok _ =>
      refine Routine.ends_world_bind.mpr ?_
      cases hstore : Credentials.ofStore selected.world.store with
      | error e => exact ⟨_, hd.note (.credentialsUnavailable e), .unavailable heq hstore⟩
      | ok c =>
        have htried : Tried a.settings tl [modeWork a.settings, connectWork a.settings c] :=
          .connecting heq hstore (Credentials.storedIn_of_ofStore hstore)
        have hboth : ∀ {h' : Host} {es : List Deed},
            Does es (selected.world.note (.connecting c.ssid a.attempts)) h' →
            es.map Deed.work = [connectWork a.settings c] →
            Achieves (Tried a.settings tl) tl.world h' := by
          intro h' es hes heq
          refine ⟨_, (hd.note _).trans hes, ?_⟩
          rw [List.map_append, heq]
          exact htried
        refine Routine.ends_bind.mpr ((a.works_request c _).imp ?_ ?_)
        · rintro _ tl' ⟨es, hes, heq⟩
          exact hboth hes heq
        · rintro tl' ⟨es, hes, heq⟩
          exact (hboth hes heq).imp fun _ => .tried
  · rintro halted ⟨⟨_, hd, s, rfl⟩, e, heq⟩
    exact ⟨_, hd, .selecting heq⟩

/-- An attempt is made: its outcome is never that none was. -/
theorem attempt_ne_alreadyActive {a : Association} {tl tl' : Timeline Action Host}
    {r : Except AttemptFault AttemptOutcome} (hreturn : a.attempt tl = .ok r tl') :
    r ≠ .ok .alreadyActive := by
  rcases connects_or_refused hreturn with ⟨before, after, hc⟩ | ⟨e, he⟩
  · obtain ⟨up, _, _, rfl⟩ := hc.returned hreturn
    cases up <;> decide
  · rw [he.returned hreturn]
    exact fun h => nomatch h

/-- **An attempt** is counted, and is made. -/
theorem associate_does (a : Association) (tl : Timeline Action Host) : a.associate.Ends tl
    (fun r tl' => r.1 = a.counted ∧ r.2 ≠ .ok .alreadyActive ∧
      Achieves (Tried a.settings tl) tl.world tl'.world)
    fun tl' => Achieves (Begun a.settings tl) tl.world tl'.world := by
  have hattempt := (a.counted.attempt_does tl).and (Routine.ends_self _ tl)
  refine Routine.ends_bind.mpr (hattempt.imp ?_ fun _ h => h.1)
  rintro outcome tl' ⟨hachieves, heq⟩
  exact ⟨rfl, attempt_ne_alreadyActive heq, hachieves⟩

theorem associateIfAllowed_of_may {a : Association} {tl : Timeline Action Host}
    (hmay : tl.world.status.mayAssociate = true) : a.associateIfAllowed tl = a.associate tl := by
  show (if tl.world.status.mayAssociate = true then _ else _ : HostRoutine _) tl = _
  rw [if_pos hmay]

end Association

/-! ## the parts of a cycle -/

namespace Manager

open Association (Tried Begun)

variable (m : Manager) (tl : Timeline Action Host)

/-- The manager after an attempt with this outcome. -/
def tried (outcome : Except AttemptFault AttemptOutcome) : Manager :=
  { m with association := m.association.counted, underWay := decide (outcome = .ok .pending) }

/-- What becomes of a manager that made an attempt if `asked`, and the work `W` of that. -/
def Tries (asked : Prop) (W : List Work → Prop) (h : Host)
    (r : Manager × Option (Except AttemptFault AttemptOutcome)) (h' : Host) : Prop :=
  (asked ∧ (∃ outcome, outcome ≠ .ok .alreadyActive ∧ r = (m.tried outcome, some outcome)) ∧
    Achieves W h h') ∨ (¬ asked ∧ r = (m, none) ∧ Does [] h h')

/-- The same, perhaps unfinished. -/
def BeginsToTry (asked : Prop) (W : List Work → Prop) (h h' : Host) : Prop :=
  (asked ∧ Achieves W h h') ∨ (¬ asked ∧ Does [] h h')

/-- **The attempt before the main wait** is made exactly if the status asks for one. -/
theorem associateIfNeeded_does : m.associateIfNeeded.Ends tl
    (fun r tl' => m.Tries (tl.world.status.mayAssociate = true) (Tried m.association.settings tl)
      tl.world r tl'.world)
    fun tl' => tl.world.status.mayAssociate = true ∧
      Achieves (Begun m.association.settings tl) tl.world tl'.world := by
  show (if tl.world.status.mayAssociate = true then _ else _ :
    HostRoutine (Manager × Option (Except AttemptFault AttemptOutcome))).Ends tl _ _
  split
  · rename_i hmay
    refine Routine.ends_bind.mpr ?_
    unfold Routine.Ends
    rw [Association.associateIfAllowed_of_may hmay]
    refine (m.association.associate_does tl).imp ?_ fun _ h => ⟨hmay, h⟩
    rintro ⟨association, outcome⟩ tl₁ ⟨rfl, hne, hachieves⟩
    have hrecord := (recordAttempt_ends { m with association := m.association.counted } outcome
      tl₁).and (passes_recordAttempt _ _ tl₁)
    refine Routine.ends_bind.mpr (hrecord.imp ?_ fun _ h => h.1.elim)
    rintro m' tl₂ ⟨rfl, _, hd, rfl⟩
    exact Or.inl ⟨hmay, ⟨outcome, hne, rfl⟩, hachieves.quietly hd⟩
  · rename_i hmay
    exact Or.inr ⟨hmay, rfl, does_refl _⟩

/-- **Up to the return of the main wait** a cycle makes the attempt, if it makes one. -/
theorem hear_does : m.hear.Ends tl
    (fun heard tl₁ => m.Tries (tl.world.status.mayAssociate = true)
      (Tried m.association.settings tl) tl.world (heard.1, heard.2.1) tl₁.world)
    fun tl₁ => BeginsToTry (tl.world.status.mayAssociate = true) (Begun m.association.settings tl)
      tl.world tl₁.world := by
  unfold hear
  refine Routine.ends_bind.mpr ((m.associateIfNeeded_does tl).imp ?_ fun _ h => Or.inl h)
  rintro ⟨m₁, attempt⟩ tl₁ htries
  refine Routine.ends_bind.mpr (((idles_awaitAny _ _).does tl₁).imp ?_ ?_)
  · intro events tl₂ hd
    obtain ⟨hmay, hout, ha⟩ | ⟨hmay, hout, hnone⟩ := htries
    · exact Or.inl ⟨hmay, hout, ha.quietly hd⟩
    · exact Or.inr ⟨hmay, hout, hnone.quietly hd⟩
  · intro tl₂ hd
    obtain ⟨hmay, _, ha⟩ | ⟨hmay, _, hnone⟩ := htries
    · exact Or.inl ⟨hmay, (ha.quietly hd).imp fun _ => .tried⟩
    · exact Or.inr ⟨hmay, hnone.quietly hd⟩

/-! ### reconnects -/

def dropWork : Work := .request .disconnect m.settings.disconnectTimeout

/-- The requests of a reconnect that began at `tl`: a disconnect, and whatever came of that, an
attempt. -/
inductive Renewed : List Work → Prop
  | mk {dropped : Except AttemptFault Unit} {tl₁ : Timeline Action Host} {ws : List Work} :
    Association.drop m.settings.disconnectTimeout
      { tl with world := tl.world.note .reconnecting } = .ok dropped tl₁ →
    Tried m.association.settings { tl₁ with world := afterDrop dropped tl₁.world } ws →
    Renewed (m.dropWork :: ws)

/-- The requests of a reconnect that may have come to a halt. -/
inductive RenewalBegun : List Work → Prop
  | dropping {e : Halt} {halted : Timeline Action Host} :
    Association.drop m.settings.disconnectTimeout
      { tl with world := tl.world.note .reconnecting } = .error e halted →
    RenewalBegun [m.dropWork]
  | trying {dropped : Except AttemptFault Unit} {tl₁ : Timeline Action Host} {ws : List Work} :
    Association.drop m.settings.disconnectTimeout
      { tl with world := tl.world.note .reconnecting } = .ok dropped tl₁ →
    Begun m.association.settings { tl₁ with world := afterDrop dropped tl₁.world } ws →
    RenewalBegun (m.dropWork :: ws)

variable {m tl} in
theorem Renewed.begun {ws : List Work} (h : m.Renewed tl ws) : m.RenewalBegun tl ws := by
  obtain ⟨hdrop, htried⟩ := h
  exact .trying hdrop (.tried htried)

variable {m tl} in
theorem RenewalBegun.isAssociation {ws : List Work} (h : m.RenewalBegun tl ws) :
    ∀ w ∈ ws, w.isAssociation = true := by
  cases h with
  | dropping _ => exact List.forall_mem_singleton.mpr rfl
  | trying _ h => exact List.forall_mem_cons.mpr ⟨rfl, h.isAssociation⟩

/-- **A reconnect** drops the association and makes another attempt. -/
theorem renew_does : m.renew.Ends tl
    (fun r tl' => r.1 = { m with association := m.association.counted } ∧
      r.2 ≠ .ok .alreadyActive ∧ Achieves (m.Renewed tl) tl.world tl'.world)
    fun tl' => Achieves (m.RenewalBegun tl) tl.world tl'.world := by
  let noted : Timeline Action Host := { tl with world := tl.world.note .reconnecting }
  have hnoted : Does [] tl.world noted.world := (does_refl _).note _
  unfold renew
  refine Routine.ends_bind.mpr ?_
  have hdrop := (Association.works_drop m.settings.disconnectTimeout noted).and
    (Routine.ends_self _ noted)
  refine Routine.ends_bind.mpr (hdrop.imp ?_ ?_)
  · rintro dropped tl₁ ⟨⟨ds, hd, hws⟩, heq⟩
    let again : Timeline Action Host := { tl₁ with world := afterDrop dropped tl₁.world }
    have hagain : Does ds tl.world again.world := by
      have hds := hnoted.after_nothing hd
      cases dropped with
      | error e => exact hds.note _
      | ok _ => exact hds
    have hall : ∀ {W W' : List Work → Prop} {h' : Host}, Achieves W again.world h' →
        (∀ ws, W ws → W' (m.dropWork :: ws)) → Achieves W' tl.world h' := by
      rintro W W' h' ⟨es, hes, hw⟩ himp
      refine ⟨ds ++ es, hagain.trans hes, ?_⟩
      rw [List.map_append, hws]
      exact himp _ hw
    have hrest : (do
        let attempted ← m.association.associate
        return ({ m with association := attempted.1 }, attempted.2) : HostRoutine _).Ends again
        (fun r tl' => r.1 = { m with association := m.association.counted } ∧
          r.2 ≠ .ok .alreadyActive ∧ Achieves (m.Renewed tl) tl.world tl'.world)
        fun tl' => Achieves (m.RenewalBegun tl) tl.world tl'.world := by
      refine Routine.ends_bind.mpr ((m.association.associate_does again).imp ?_ ?_)
      · rintro ⟨association, outcome⟩ tl' ⟨rfl, hne, ha⟩
        exact ⟨rfl, hne, hall ha fun _ h => .mk heq h⟩
      · intro tl' ha
        exact hall ha fun _ h => .trying heq h
    cases dropped with
    | error e => exact Routine.ends_bind.mpr hrest
    | ok _ => exact hrest
  · rintro halted ⟨⟨ds, hd, hws⟩, e, heq⟩
    refine ⟨ds, hnoted.after_nothing hd, ?_⟩
    rw [hws]
    exact .dropping heq

/-- **After the adjustment** a cycle serves the request for a reconnect, if it heard of one. -/
theorem renewIfAsked_does (events : EventSet) : (m.renewIfAsked events).Ends tl
    (fun r tl' => m.Tries (events.Has .reconnectRequested) (m.Renewed tl) tl.world r tl'.world)
    fun tl' => events.Has .reconnectRequested ∧
      Achieves (m.RenewalBegun tl) tl.world tl'.world := by
  unfold renewIfAsked
  split
  · rename_i hasked
    refine Routine.ends_bind.mpr ((m.renew_does tl).imp ?_ fun _ h => ⟨hasked, h⟩)
    rintro ⟨m₁, outcome⟩ tl₁ ⟨rfl, hne, ha⟩
    have hrecord := (recordAttempt_ends { m with association := m.association.counted } outcome
      tl₁).and (passes_recordAttempt _ _ tl₁)
    refine Routine.ends_bind.mpr (hrecord.imp ?_ fun _ h => h.1.elim)
    rintro m' tl₂ ⟨rfl, _, hd, rfl⟩
    exact Or.inl ⟨hasked, ⟨outcome, hne, rfl⟩, ha.quietly hd⟩
  · rename_i hasked
    exact Or.inr ⟨hasked, rfl, does_refl _⟩

end Manager

end Uplink
