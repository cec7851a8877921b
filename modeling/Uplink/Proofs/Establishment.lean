import Uplink.Proofs.Chronicle
import Uplink.Proofs.Reports
import Uplink.Proofs.StartupGate

/-!
# All or nothing at startup

To establish itself a manager queries its module, as often as its retry plan allows, and then
registers the interface.  Either may fail, after any number of queries and while others act all the
time.  All that the manager changes comes after the last thing that may fail, but for address
acquisition, and a failure of that is not one of the whole.

* `firedIn`                    the actions of others of which a trace tells;
* `interface_afterAll`         calls that are refused leave the interface to others;
* `Host.Follows`               the status is the one reported last;
* `Interface.InUse`            an interface that is registered, the default one, and up;
* `Manager.Traceless`          what a manager leaves that failed to establish itself;
* `Manager.Established`        what one leaves that succeeded;
* `established_or_traceless`   it is one or the other.
-/

namespace Uplink

open Host HostRoutine

/-! ## the interface between two moments -/

def TraceEntry.fired? : TraceEntry → Option Action
  | fired _ a _ => some a
  | _ => none

/-- The actions of others of which the entries tell. -/
def firedIn (entries : List TraceEntry) : List Action := entries.filterMap TraceEntry.fired?

/-- What the actions make of the interface, one after the other. -/
def Interface.changedBy (i : Interface) (as : List Action) : Interface :=
  as.foldl (fun i a => a.changed i) i

/-- A call that does not get through: the interface refuses it. -/
def Deed.SparesInterface (d : Deed) : Prop :=
  ∀ call, d.work = .call call → d.before.interface.refusal call ≠ none

/-- A query is not a call. -/
theorem Queries.work_ne_call {ds : List Deed} (h : Queries ds) {d : Deed} (hd : d ∈ ds)
    (call : InterfaceCall) : d.work ≠ .call call := by
  intro hw
  have hquery := h d hd
  unfold Deed.isQuery at hquery
  rw [hw] at hquery
  cases hquery

theorem Queries.sparesInterface {ds : List Deed} (h : Queries ds) :
    ∀ d ∈ ds, d.SparesInterface :=
  fun _ hd call hw => absurd hw (h.work_ne_call hd call)

/-- **Where no call gets through, the interface is what others made of it**: induction on the trace,
over the surroundings that each entry met. -/
theorem Surroundings.interface_afterAll {s : Surroundings} {entries : List TraceEntry}
    (h : ∀ d ∈ deedsOf (happenings s entries), d.SparesInterface) :
    (s.afterAll entries).interface = s.interface.changedBy (firedIn entries) := by
  induction entries generalizing s with
  | nil => rfl
  | cons e es ih =>
    cases e with
    | asked time request timeout =>
      have hrest := (List.forall_mem_cons.mp h).2
      exact ih (s := s.after (.asked time request timeout)) hrest
    | called time call =>
      obtain ⟨hcall, hrest⟩ := List.forall_mem_cons.mp h
      have hrefused : s.interface.attempt call = s.interface := if_neg (hcall call rfl)
      have hafter := ih (s := s.after (.called time call)) hrest
      rw [show (s.after (.called time call)).interface = s.interface from hrefused] at hafter
      exact hafter
    | fired time a r => exact ih (s := s.after (.fired time a r)) h
    | accepted events => exact ih (s := s) h

namespace Interface

/-- What others cannot touch: whether and as what the interface is registered, whether it is the
default one, and whether it is acquiring an address. -/
theorem changedBy_eq (i : Interface) (as : List Action) :
    (i.changedBy as).mac = i.mac ∧ (i.changedBy as).isDefault = i.isDefault ∧
      (i.changedBy as).acquiring = i.acquiring := by
  have hone : ∀ (a : Action) (i : Interface), (a.changed i).mac = i.mac ∧
      (a.changed i).isDefault = i.isDefault ∧ (a.changed i).acquiring = i.acquiring := by
    intro a i
    cases a <;> exact ⟨rfl, rfl, rfl⟩
  induction as generalizing i with
  | nil => exact ⟨rfl, rfl, rfl⟩
  | cons a as ih =>
    obtain ⟨hmac, hdefault, hacquiring⟩ := ih (a.changed i)
    obtain ⟨hmac', hdefault', hacquiring'⟩ := hone a i
    exact ⟨hmac.trans hmac', hdefault.trans hdefault', hacquiring.trans hacquiring'⟩

theorem changedBy_of_spared (i : Interface) {as : List Action}
    (h : ∀ a ∈ as, ∀ i, a.changed i = i) : i.changedBy as = i := by
  induction as with
  | nil => rfl
  | cons a as ih =>
    obtain ⟨ha, has⟩ := List.forall_mem_cons.mp h
    show (a.changed i).changedBy as = i
    rw [ha]
    exact ih has

/-! ### an interface in use -/

/-- The interface is registered with an address, is the default one, and is up. -/
structure InUse (mac : HardwareAddress) (i : Interface) : Prop where
  mac_eq : i.mac = some mac
  isDefault : i.isDefault = true
  isAdminUp : i.snapshot.isAdminUp = true

/-- Registered, made the default one and brought up, an interface is in use. -/
theorem inUse_setUp (i : Interface) (mac : HardwareAddress) :
    (((i.call (.register mac)).call .setDefault).call .setUp).InUse mac :=
  ⟨rfl, rfl, isAdminUp_setUp _⟩

variable {mac : HardwareAddress} {i : Interface}

theorem InUse.setLinkUp (h : i.InUse mac) : (i.call .setLinkUp).InUse mac := by
  refine ⟨h.mac_eq, h.isDefault, ?_⟩
  show (i.snapshot.flags ||| Flags.linkUp).getLsbD 0 = true
  rw [BitVec.getLsbD_or, show i.snapshot.flags.getLsbD 0 = true from h.isAdminUp, Bool.true_or]

/-- An acquisition may be refused; in any case the interface stays in use. -/
theorem InUse.startAcquisition (h : i.InUse mac) : (i.attempt .startAcquisition).InUse mac := by
  unfold attempt
  split
  · exact ⟨h.mac_eq, h.isDefault, h.isAdminUp⟩
  · exact h

theorem hasLink_attempt_startAcquisition (i : Interface) :
    (i.attempt .startAcquisition).snapshot.hasLink = i.snapshot.hasLink := by
  unfold attempt
  split
  · exact i.hasLink_startAcquisition
  · rfl

end Interface

/-! ## the status between two moments -/

namespace Host

/-- Between two moments of a host `rs` was reported, and nothing else touched the status. -/
structure Follows (rs : List RadioStatus) (h h' : Host) : Prop where
  status_eq : h'.status = rs.getLast?.getD h.status
  reports_eq : h'.reports = h.reports ++ rs

variable {h h₁ h' : Host} {rs rs' : List RadioStatus}

theorem follows_nothing (hs : h'.status = h.status) (hr : h'.reports = h.reports) :
    Follows [] h h' :=
  ⟨hs, hr.trans (List.append_nil _).symm⟩

theorem Follows.trans (ha : Follows rs h h₁) (hb : Follows rs' h₁ h') :
    Follows (rs ++ rs') h h' := by
  constructor
  · rw [hb.status_eq, ha.status_eq, List.getLast?_append]
    cases rs'.getLast? <;> rfl
  · rw [hb.reports_eq, ha.reports_eq, List.append_assoc]

theorem follows_perform (a : Action) (h : Host) :
    Follows a.reported?.toList h (a.perform h).2 := by
  obtain ⟨_, ht, _⟩ := a.told_perform h
  constructor
  · rw [ht.status_eq, a.status_alone]
    cases a.reported? <;> rfl
  · rw [ht.reports_eq, a.reports_alone]

theorem Stirs.follows {A : Action → Prop} (hs : Stirs A h h') : ∃ rs, Follows rs h h' := by
  cases hs with
  | note e he => exact ⟨[], follows_nothing rfl (reports_note_of_none h he)⟩
  | take target => exact ⟨[], follows_nothing rfl rfl⟩
  | putBack events => exact ⟨[], follows_nothing rfl rfl⟩
  | ask coprocessor now request timeout => exact ⟨[], follows_nothing rfl rfl⟩
  | report status => exact ⟨_, follows_perform (.report status) h⟩
  | react now a _ => exact ⟨_, (follows_perform a h).trans (follows_nothing rfl rfl)⟩

/-- **However long the host drifted, its status is the one reported last.** -/
theorem Drifts.follows {A : Action → Prop} (hd : Drifts A h h') : ∃ rs, Follows rs h h' := by
  induction hd with
  | refl => exact ⟨[], follows_nothing rfl rfl⟩
  | tail _ hs ih =>
    obtain ⟨rs, hr⟩ := ih
    obtain ⟨rs', hr'⟩ := hs.follows
    exact ⟨rs ++ rs', hr.trans hr'⟩

theorem Follows.status_since (hf : Follows rs h h') :
    h'.status = (reportsSince h h').getLast?.getD h.status := by
  unfold reportsSince
  rw [hf.reports_eq, List.drop_left]
  exact hf.status_eq

end Host

/-! ## a manager that establishes itself -/

namespace Manager

variable {m m₁ : Manager} {rounds : Nat} {tl tl₁ : Timeline Action Host}

/-- What a manager leaves that failed with `e` to establish itself between `tl` and `tl₁`. -/
structure Traceless (m m₁ : Manager) (e : StartFault) (tl tl₁ : Timeline Action Host) : Prop where
  manager_eq : m₁ = m
  /-- It queried the module, and if it was given an identity it tried once to register it, in vain. -/
  deeds : m.Establishes (m₁, .error e) (deedsOf (happened tl tl₁))
  calls : ∀ call, .call call ∈ worksIn (written tl tl₁) → ∃ mac, call = .register mac
  /-- The interface is what others made of it, -/
  interface_eq : tl₁.world.interface
    = tl.world.interface.changedBy (firedIn (written tl tl₁))
  /-- who cannot touch the registration and the acquisition of an address, -/
  registration_eq : tl₁.world.interface.mac = tl.world.interface.mac ∧
    tl₁.world.interface.isDefault = tl.world.interface.isDefault ∧
    tl₁.world.interface.acquiring = tl.world.interface.acquiring
  /-- and if they left it alone it is what it was. -/
  untouched : (∀ a ∈ firedIn (written tl tl₁), ∀ i, Action.changed a i = i) →
    tl₁.world.interface = tl.world.interface
  claimed_eq : tl₁.world.mailbox.claimed = tl.world.mailbox.claimed
  pending_eq : tl₁.world.mailbox.pending
    = tl.world.mailbox.pending ||| acceptedIn (written tl tl₁)
  status_eq : tl₁.world.status
    = (reportsSince tl.world tl₁.world).getLast?.getD tl.world.status

/-- What a manager leaves that established itself between `tl` and `tl₁`. -/
structure Established (m m₁ : Manager) (module : ModuleIdentity)
    (tl tl₁ : Timeline Action Host) : Prop where
  /-- The last two queries were those of one attempt, and were answered with firmware and address
  of the module; the registration came after them. -/
  deeds : ∃ before d₁ d₂ after, deedsOf (happened tl tl₁) = before ++ [d₁, d₂] ++ after ∧
    Queries before ∧ Identified m.settings.queryTimeout module d₁ d₂ ∧
    m.Attaches module (m₁, .ok ()) after
  manager_eq : ∃ acquiring, m₁ = { m with
    module := some module
    mirrored := if tl₁.world.status.isAssociated then some tl₁.world.status else m.mirrored
    acquiring }
  inUse : tl₁.world.interface.InUse module.mac
  /-- This does not hang on whether address acquisition could be started. -/
  hasLink : tl₁.world.status.isAssociated = true → tl₁.world.interface.snapshot.hasLink = true

/-! ### failures -/

/-- The deeds of a failure: no call gets through, and none but a registration is made. -/
theorem Establishes.spares {e : StartFault} {ds : List Deed}
    (h : m.Establishes (m₁, .error e) ds) : (∀ d ∈ ds, d.SparesInterface) ∧
      ∀ call, .call call ∈ ds.map Deed.work → ∃ mac, call = .register mac := by
  have hnone : ∀ {qs : List Deed} {call : InterfaceCall}, Queries qs →
      .call call ∉ qs.map Deed.work := by
    intro qs call hq hmem
    obtain ⟨_, hd, hw⟩ := List.mem_map.mp hmem
    exact hq.work_ne_call hd call hw
  cases h with
  | unidentified hq => exact ⟨hq.sparesInterface, fun call hmem => absurd hmem (hnone hq)⟩
  | identified hq hid hattaches =>
    have hqueries := hq.append hid.queries
    cases hattaches with
    | @refused h fault hrefused =>
      constructor
      · refine List.forall_mem_append.mpr ⟨hqueries.sparesInterface, ?_⟩
        refine List.forall_mem_singleton.mpr ?_
        rintro call ⟨rfl⟩ hnot
        exact Option.some_ne_none fault (hrefused.symm.trans hnot)
      · intro call hmem
        rw [List.map_append] at hmem
        rcases List.mem_append.mp hmem with hmem | hmem
        · exact absurd hmem (hnone hqueries)
        · exact ⟨_, Work.call.inj (List.mem_singleton.mp hmem)⟩

/-- Up to a failure the host drifted, and a registration that was refused changed nothing. -/
theorem follows_of_error {e : StartFault} (h : m.establish rounds tl = .ok (m₁, .error e) tl₁) :
    ∃ rs, Follows rs tl.world tl₁.world := by
  obtain ⟨answer, tl', hidentify, hrest⟩ := Routine.bind_eq_ok.mp h
  have hdrifts := (drifting_identifyModule m.settings rounds 1 (A := fun _ => True) tl
    fun _ _ _ _ => trivial).of_ok hidentify
  obtain ⟨rs, hfollows⟩ := hdrifts.world.follows
  cases answer with
  | error fault =>
    cases hrest
    exact ⟨rs, hfollows⟩
  | ok module =>
    obtain ⟨hresult, htl⟩ := EStateM.Result.ok.inj hrest
    subst htl
    refine ⟨rs ++ [], hfollows.trans ?_⟩
    cases hr : tl'.world.interface.refusal (.register module.mac) with
    | some fault =>
      have hattach : (m.attach module tl'.now tl'.world).2
          = (tl'.world.record (.called tl'.now (.register module.mac))).note
              (.registerFailed fault) := by
        unfold attach
        rw [use_of_refused tl'.now hr]
      show Follows [] tl'.world (m.attach module tl'.now tl'.world).2
      rw [hattach]
      exact follows_nothing rfl (reports_note_of_none _ rfl)
    | none =>
      have hok : (m.attach module tl'.now tl'.world).1.2 = .ok () := by
        unfold attach
        rw [use_of_accepted tl'.now hr]
      rw [hresult] at hok
      cases hok

theorem traceless_of_error {e : StartFault}
    (h : m.establish rounds tl = .ok (m₁, .error e) tl₁) : m.Traceless m₁ e tl tl₁ := by
  obtain ⟨_, hdoes, hestablishes⟩ := (m.works_establish rounds tl).of_ok h
  rw [← hdoes.deeds] at hestablishes
  obtain ⟨hspares, hcalls⟩ := hestablishes.spares
  rw [works_happened] at hcalls
  obtain ⟨entries, hreplays, _⟩ := hdoes
  rw [hreplays.happened] at hspares
  have hwritten := written_eq hreplays.trace_eq
  have hinterface : tl₁.world.interface
      = tl.world.interface.changedBy (firedIn (written tl tl₁)) := by
    rw [hwritten]
    exact (congrArg Surroundings.interface hreplays.surroundings_eq).trans
      (Surroundings.interface_afterAll hspares)
  obtain ⟨_, _, entries', hleads, _⟩ := (m.establish_tame rounds tl (since_refl tl.world)).of_ok h
  have hpending := hleads.pending_eq
  rw [EventSet.empty, BitVec.or_zero, ← written_eq hleads.trace_eq] at hpending
  obtain ⟨_, hfollows⟩ := follows_of_error h
  exact {
    manager_eq := establish_error h
    deeds := hestablishes
    calls := hcalls
    interface_eq := hinterface
    registration_eq := hinterface ▸ Interface.changedBy_eq _ _
    untouched := fun hspared => hinterface.trans (Interface.changedBy_of_spared _ hspared)
    claimed_eq := hleads.claimed_eq
    pending_eq := hpending
    status_eq := hfollows.status_since }

/-! ### successes -/

variable {now : Nat} {h : Host} {module : ModuleIdentity}

theorem interface_raised (hr : h.interface.refusal (.register module.mac) = none) :
    (raised now h module).interface.InUse module.mac := by
  have hregister : h.interface.attempt (.register module.mac)
      = h.interface.call (.register module.mac) := if_pos hr
  unfold raised
  rw [interface_use, interface_use, interface_use, hregister]
  exact Interface.inUse_setUp _ _

/-- Adopting leaves an interface in use, with its link up if the station is associated. -/
theorem adopt_inUse {mac : HardwareAddress} (m : Manager) (now : Nat)
    (hin : h.interface.InUse mac) : (m.adopt now h).2.interface.InUse mac ∧
      (h.status.isAssociated = true → (m.adopt now h).2.interface.snapshot.hasLink = true) := by
  have hlifted : (lifted now h).interface = h.interface.call .setLinkUp := interface_use _ now _
  have hstarted : ∀ (m : Manager) (h : Host), (m.startAcquisition now h).2.interface
      = h.interface.attempt .startAcquisition := by
    intro m h
    rw [← interface_use h now .startAcquisition]
    unfold startAcquisition
    rcases hu : h.use now .startAcquisition with ⟨e | ⟨⟩, h'⟩ <;> rfl
  unfold adopt
  split
  · show ((startAcquisition _ now (lifted now h)).2.interface.InUse mac) ∧ (_ →
      (startAcquisition _ now (lifted now h)).2.interface.snapshot.hasLink = true)
    rw [hstarted, hlifted]
    refine ⟨hin.setLinkUp.startAcquisition, fun _ => ?_⟩
    rw [Interface.hasLink_attempt_startAcquisition]
    exact h.interface.hasLink_setLinkUp
  · rename_i hnot
    exact ⟨hin, fun hup => absurd hup hnot⟩

/-- **A registration that is not refused** puts the interface in use. -/
theorem attach_inUse (m : Manager) (hok : (m.attach module now h).1.2 = .ok ()) :
    (m.attach module now h).2.interface.InUse module.mac ∧
      ((m.attach module now h).2.status.isAssociated = true →
        (m.attach module now h).2.interface.snapshot.hasLink = true) := by
  cases hr : h.interface.refusal (.register module.mac) with
  | some e =>
    unfold attach at hok
    rw [use_of_refused now hr] at hok
    cases hok
  | none =>
    have hattach : (m.attach module now h).2
        = ({ m with module := some module }.adopt now (raised now h module)).2 := by
      unfold attach
      rw [(accepts_use now hr).1]
      rfl
    rw [hattach, (adopt_eq _ now (raised now h module)).1]
    exact adopt_inUse _ now (interface_raised hr)

theorem established_of_ok (h : m.establish rounds tl = .ok (m₁, .ok ()) tl₁) :
    ∃ module, m.Established m₁ module tl tl₁ := by
  obtain ⟨_, hdoes, hestablishes⟩ := (m.works_establish rounds tl).of_ok h
  obtain ⟨answer, tl', _, hrest⟩ := Routine.bind_eq_ok.mp h
  cases answer with
  | error fault => cases hrest
  | ok module =>
    obtain ⟨hresult, htl⟩ := EStateM.Result.ok.inj hrest
    have hok : (m.attach module tl'.now tl'.world).1.2 = .ok () := congrArg Prod.snd hresult
    have hmanager : (m.attach module tl'.now tl'.world).1.1 = m₁ := congrArg Prod.fst hresult
    have hworld : (m.attach module tl'.now tl'.world).2 = tl₁.world :=
      congrArg Timeline.world htl
    obtain ⟨hinUse, hlink⟩ := m.attach_inUse hok
    rw [hworld] at hinUse hlink
    obtain ⟨hnot, _⟩ | ⟨_, hstatus, acquiring, heq⟩ := m.attach_eq module tl'.now tl'.world
    · exact absurd hok hnot
    · rw [hmanager, ← hstatus, hworld] at heq
      have hdeeds := hdoes.deeds
      cases hestablishes with
      | @identified module' d₁ d₂ before after _ hqueries hid hattaches =>
        -- both tell which module it is
        have hsame : module' = module := by
          cases hattaches with
          | attached _ hmodule _ _ =>
            rw [heq] at hmodule
            exact (Option.some.inj hmodule).symm
        subst hsame
        exact ⟨module', ⟨before, d₁, d₂, after, hdeeds, hqueries, hid, hattaches⟩,
          ⟨acquiring, heq⟩, hinUse, hlink⟩

end Manager

/-- **All or nothing.**  A manager that fails to establish itself is what it was, whatever it
queried and whoever acted meanwhile: the interface, the mailbox and the status are what others made
of them, and no call was made but one registration, which was refused.  A manager that succeeds
knows the module that answered one attempt, and has registered its address; the interface is the
default one and up, and if the station is associated at that moment then the link is up and that
status is mirrored, whether or not address acquisition could be started. -/
theorem established_or_traceless {m m₁ : Manager} {rounds : Nat} {tl tl₁ : Timeline Action Host}
    {outcome : Except StartFault Unit} (h : m.establish rounds tl = .ok (m₁, outcome) tl₁) :
    (∃ e, outcome = .error e ∧ m.Traceless m₁ e tl tl₁) ∨
      (outcome = .ok () ∧ ∃ module, m.Established m₁ module tl tl₁) := by
  cases outcome with
  | error e => exact Or.inl ⟨e, rfl, Manager.traceless_of_error h⟩
  | ok _ => exact Or.inr ⟨rfl, Manager.established_of_ok h⟩

/-- The station is up already, but no address acquisition can be started. -/
def leaseless : Timeline Action Host where
  now := slowSetup.clock
  world := { slowSetup.host with
    mailbox := { claimed := true }
    status := .stationUp
    interface := { startError := some .internal } }

theorem unregistrable_and_leaseless :
    (∃ tl₁, Manager.establish 1 {} Manager.unregistrable
        = .ok ({}, .error (.register .outOfMemory)) tl₁ ∧
      tl₁.world.interface = Manager.unregistrable.world.interface) ∧
    ∃ m₁ tl₁, Manager.establish 1 {} leaseless = .ok (m₁, .ok ()) tl₁ ∧ m₁.acquiring = false ∧
      m₁.mirrored = some .stationUp ∧ tl₁.world.interface.snapshot.hasLink = true := by
  have hfails : Manager.establish 1 {} Manager.unregistrable
      = .ok ({}, .error (.register .outOfMemory)) _ := rfl
  have hsucceeds : Manager.establish 1 {} leaseless
      = .ok ({ module := some _, mirrored := some .stationUp }, .ok ()) _ := rfl
  constructor
  · obtain ⟨_, _, htraceless⟩ | ⟨hok, _⟩ := established_or_traceless hfails
    · exact ⟨_, hfails, htraceless.untouched fun a ha => nomatch ha⟩
    · cases hok
  · obtain ⟨_, herror, _⟩ | ⟨_, _, hestablished⟩ := established_or_traceless hsucceeds
    · cases herror
    · exact ⟨_, _, hsucceeds, rfl, rfl, hestablished.hasLink rfl⟩

end Uplink
