import Uplink.Proofs.CyclePhases
import Uplink.Proofs.Replay

/-!
# The deeds of a manager

What the parts of a manager ask of the co-processor and call on the interface, in what order, and
what they meet.

* `Association.works_request`       the request of an attempt, and the wait after it;
* `Manager.does_mirrorStatus`,
  `Manager.does_reconcile`          a pass over link or address makes one call at most;
* `Manager.does_adjust`             one pass over both;
* `Manager.attach_does`             a registration that is refused, and one that is not;
* `Manager.works_identifyModule`    queries of the module; the last two were answered;
* `Manager.works_establish`         queries, and once they were answered a registration.
-/

namespace Uplink

open Host HostRoutine

/-! ## attempts -/

namespace Association

def modeWork (s : AssociationSettings) : Work := .request (.selectMode .station) s.modeTimeout

def connectWork (s : AssociationSettings) (c : Credentials) : Work :=
  .request (.connect c.ssid c.psk) s.connectTimeout

/-- **The request of an attempt** asks to connect, and then idles. -/
theorem works_request (a : Association) (c : Credentials) :
    Commits (a.request c) fun ds => ds.map Deed.work = [connectWork a.settings c] := by
  have hconnect : Commits (requestConnect c a.settings.connectTimeout)
      fun ds => ds.map Deed.work = [connectWork a.settings c] := by
    refine (works_ask (fun _ => rfl) _).imp ?_ ?_
    · rintro _ ds ⟨s, rfl, _⟩
      rfl
    · rintro ds ⟨s, rfl⟩
      rfl
  unfold request
  refine (passes_take _).then fun stale => hconnect.idly fun answer => ?_
  split
  · exact (passes_note _).then fun _ => (passes_putBack _).then fun _ => (passes_pure _).idles
  · refine (idles_awaitReport _ _).idly fun up => (passes_putBack _).then fun _ => ?_
    split
    · exact (passes_note _).then fun _ => (passes_pure _).idles
    · exact passes_status.then fun _ => (passes_note _).then fun _ => (passes_pure _).idles

theorem works_drop (timeout : Nat) :
    Commits (drop timeout) fun ds => ds.map Deed.work = [.request .disconnect timeout] := by
  refine Commits.idly ((works_ask (fun _ => rfl) _).imp ?_ ?_) fun _ => (passes_pure _).idles
  · rintro _ ds ⟨s, rfl, _⟩
    rfl
  · rintro ds ⟨s, rfl⟩
    rfl

end Association

/-! ## calls -/

/-- The deed of a call on the interface of a host. -/
def Host.calling (h : Host) (call : InterfaceCall) : Deed := ⟨h.surroundings, .call call⟩

namespace Manager

variable (m : Manager) (now : Nat) (h : Host)

theorem does_startAcquisition :
    Does [h.calling .startAcquisition] h (m.startAcquisition now h).2 := by
  have hu := does_use h now .startAcquisition
  unfold startAcquisition
  rcases hc : h.use now .startAcquisition with ⟨e | ⟨⟩, h'⟩ <;> rw [hc] at hu
  · exact hu.note _
  · exact hu.note _

theorem does_releaseAndStop : Does [h.calling .releaseAndStop] h (m.releaseAndStop now h).2 := by
  have hu := does_use h now .releaseAndStop
  unfold releaseAndStop
  rcases hc : h.use now .releaseAndStop with ⟨e | ⟨⟩, h'⟩ <;> rw [hc] at hu
  · exact hu.note _
  · exact hu.note _

/-- **A pass over the address** makes the call that is due. -/
theorem does_reconcile : Does ((m.dueCall h.interface.snapshot).toList.map h.calling) h
    (m.reconcileAddress now h).2 := by
  cases hd : m.dueCall h.interface.snapshot with
  | none =>
    rw [reconcile_of_none now hd]
    exact does_refl h
  | some call =>
    obtain rfl | rfl := dueCall_cases hd
    · rw [reconcile_of_start now hd]
      exact m.does_startAcquisition now h
    · rw [reconcile_of_release now hd]
      exact m.does_releaseAndStop now h

theorem noteUnknown_does (status : RadioStatus) : Does [] h (noteUnknown status h) := by
  cases status with
  | unknown code => exact (does_refl h).note _
  | _ => exact does_refl h

/-- **A pass over the link** makes the call that belongs to the change. -/
theorem does_mirrorStatus : Does ((m.mirrorStatus now h).1.2.toList.map (h.calling ·.call)) h
    (m.mirrorStatus now h).2 := by
  have hsame : (noteUnknown h.status h).surroundings = h.surroundings := by
    cases h.status <;> rfl
  have hcall := (noteUnknown_does h h.status).trans
    (does_use (noteUnknown h.status h) now (LinkChange.ofStatus h.status).call)
  rw [hsame] at hcall
  unfold mirrorStatus
  dsimp only
  split
  · exact does_refl h
  · exact hcall.note _

/-- **One pass over link and address.** -/
theorem does_adjust : Does ((m.mirrorStatus now h).1.2.toList.map (h.calling ·.call) ++
    ((m.mirrorStatus now h).1.1.dueCall (m.mirrorStatus now h).2.interface.snapshot).toList.map
      (m.mirrorStatus now h).2.calling) h (m.adjust now h).2 :=
  (m.does_mirrorStatus now h).trans (does_reconcile _ now _)

/-! ### registration -/

/-- The host on which a station that is associated already is adopted: the link is up. -/
def lifted : Host := ((h.note (.alreadyAssociated h.status)).use now .setLinkUp).2

theorem does_adopt : Does (if h.status.isAssociated then
    [h.calling .setLinkUp, (lifted now h).calling .startAcquisition] else []) h
    (m.adopt now h).2 := by
  have hlifted : Does [h.calling .setLinkUp] h (lifted now h) :=
    ((does_refl h).note _).trans (does_use _ now .setLinkUp)
  unfold adopt
  split
  · exact hlifted.trans (does_startAcquisition _ now _)
  · exact does_refl h

/-- The host with the interface registered, as the default one, and up. -/
def raised (module : ModuleIdentity) : Host :=
  (((h.use now (.register module.mac)).2.use now .setDefault).2.use now .setUp).2

/-- The deeds that register the interface and bring it up. -/
def registration (module : ModuleIdentity) : List Deed :=
  [h.calling (.register module.mac),
    (h.use now (.register module.mac)).2.calling .setDefault,
    ((h.use now (.register module.mac)).2.use now .setDefault).2.calling .setUp]

/-- **A registration** that is refused leaves the manager as it is; one that is not is followed by
the calls that bring the interface up. -/
theorem attach_does (module : ModuleIdentity) :
    (∃ e, h.interface.refusal (.register module.mac) = some e ∧
      (m.attach module now h).1 = (m, .error (.register e)) ∧
      Does [h.calling (.register module.mac)] h (m.attach module now h).2) ∨
    (h.interface.refusal (.register module.mac) = none ∧
      (m.attach module now h).1.2 = .ok () ∧ (m.attach module now h).1.1.module = some module ∧
      Does (registration now h module ++ if (raised now h module).status.isAssociated then
        [(raised now h module).calling .setLinkUp,
          (lifted now (raised now h module)).calling .startAcquisition] else [])
        h (m.attach module now h).2) := by
  have hu := does_use h now (.register module.mac)
  cases hr : h.interface.refusal (.register module.mac) with
  | some e =>
    have hattach : m.attach module now h = ((m, .error (.register e)),
        (h.use now (.register module.mac)).2.note (.registerFailed e)) := by
      unfold attach
      rw [(refuses_use now hr).1]
    rw [hattach]
    exact Or.inl ⟨e, rfl, rfl, hu.note _⟩
  | none =>
    have hattach : m.attach module now h =
        ((({ m with module := some module }.adopt now (raised now h module)).1, .ok ()),
          ({ m with module := some module }.adopt now (raised now h module)).2) := by
      unfold attach
      rw [(accepts_use now hr).1]
      rfl
    rw [hattach]
    refine Or.inr ⟨rfl, rfl, ?_, ?_⟩
    · obtain ⟨_, acquiring, heq⟩ := adopt_eq { m with module := some module } now
        (raised now h module)
      dsimp only
      rw [heq]
    · have hraised : Does (registration now h module) h (raised now h module) :=
        (hu.trans (does_use _ now .setDefault)).trans (does_use _ now .setUp)
      exact hraised.trans (does_adopt _ now _)

end Manager

/-! ## queries -/

/-- The deed asks the module who it is. -/
def Deed.isQuery (d : Deed) : Bool :=
  match d.work with
  | .request .firmwareVersion _ | .request .hardwareAddress _ => true
  | _ => false

/-- Two queries of one attempt, both answered: the firmware and then the address of `module`. -/
structure Identified (timeout : Nat) (module : ModuleIdentity) (d₁ d₂ : Deed) : Prop where
  firmware : d₁.work = .request .firmwareVersion timeout
  firmware_eq : d₁.before.coprocessor.nextFirmware.1.result timeout = .ok module.firmware
  address : d₂.work = .request .hardwareAddress timeout
  address_eq : d₂.before.coprocessor.nextAddress.1.result timeout = .ok module.mac

def Queries (ds : List Deed) : Prop := ∀ d ∈ ds, d.isQuery = true

theorem queries_nil : Queries [] := fun _ hd => absurd hd List.not_mem_nil

theorem Queries.append {as bs : List Deed} (ha : Queries as) (hb : Queries bs) :
    Queries (as ++ bs) := List.forall_mem_append.mpr ⟨ha, hb⟩

theorem Identified.queries {timeout : Nat} {module : ModuleIdentity} {d₁ d₂ : Deed}
    (h : Identified timeout module d₁ d₂) : Queries [d₁, d₂] := by
  refine List.forall_mem_cons.mpr ⟨?_, List.forall_mem_cons.mpr ⟨?_, queries_nil⟩⟩
  · unfold Deed.isQuery
    rw [h.firmware]
  · unfold Deed.isQuery
    rw [h.address]

namespace Manager

/-- The deeds that came to the answer: queries, and if the answer is a module, the last two of them
identified it. -/
def Inquired (timeout : Nat) (answer : Except TransportFault ModuleIdentity) (ds : List Deed) :
    Prop :=
  Queries ds ∧ ∀ module, answer = .ok module →
    ∃ before d₁ d₂, ds = before ++ [d₁, d₂] ∧ Identified timeout module d₁ d₂

theorem works_identifyOnce (timeout : Nat) :
    Works (identifyOnce timeout) (Inquired timeout) Queries := by
  have hone : ∀ (s : Surroundings) (request : Request),
      request = .firmwareVersion ∨ request = .hardwareAddress →
      Queries [⟨s, .request request timeout⟩] := by
    rintro s request (rfl | rfl) d hd <;> (rw [List.mem_singleton.mp hd]; rfl)
  have hnone : ∀ {ds : List Deed} {e : TransportFault},
      Queries ds → Inquired timeout (.error e) ds :=
    fun hq => ⟨hq, fun _ h => nomatch h⟩
  unfold identifyOnce
  refine (works_ask (fun _ => rfl) _).bind (fun answer => ?_) ?_
  · cases answer with
    | error e =>
      refine works_pure ?_
      rintro ds ⟨s, rfl, _⟩
      exact hnone (hone s _ (Or.inl rfl))
    | ok firmware =>
      refine (passes_note _).then fun _ => ?_
      refine Works.bind (works_ask (fun _ => rfl) _) (fun answer => ?_) ?_
      · cases answer with
        | error e =>
          refine works_pure ?_
          rintro es ⟨s', rfl, _⟩ ds ⟨s, rfl, _⟩
          exact hnone ((hone s _ (Or.inl rfl)).append (hone s' _ (Or.inr rfl)))
        | ok mac =>
          refine (passes_note _).then fun _ => works_pure ?_
          rintro es ⟨s', rfl, hmac⟩ ds ⟨s, rfl, hfirmware⟩
          refine ⟨(hone s _ (Or.inl rfl)).append (hone s' _ (Or.inr rfl)), ?_⟩
          rintro _ ⟨rfl⟩
          exact ⟨[], _, _, rfl, rfl, hfirmware.symm, rfl, hmac.symm⟩
      · rintro es ⟨s', rfl⟩ ds ⟨s, rfl, _⟩
        exact (hone s _ (Or.inl rfl)).append (hone s' _ (Or.inr rfl))
  · rintro ds ⟨s, rfl⟩
    exact hone s _ (Or.inl rfl)

/-- Induction on the rounds: each round adds its queries to those before. -/
theorem works_identifyModule (settings : Settings) (rounds attempt : Nat) :
    Works (identifyModule settings rounds attempt) (Inquired settings.queryTimeout) Queries := by
  induction rounds generalizing attempt with
  | zero => exact fun tl => Routine.ends_halt ⟨[], does_refl tl.world, queries_nil⟩
  | succ rounds ih =>
    unfold identifyModule
    refine (works_identifyOnce _).bind (fun answer => ?_) fun _ hq => hq
    cases answer with
    | ok module =>
      refine works_pure ?_
      rintro ds hi
      rwa [List.append_nil]
    | error e =>
      dsimp only
      split
      · refine (passes_note _).then fun _ => (idles_sleep _).then (fun _ => ?_) ?_
        · refine (ih (nextAttempt attempt)).imp ?_ ?_
          · rintro answer es ⟨hq, hlast⟩ ds ⟨hq', _⟩
            refine ⟨hq'.append hq, ?_⟩
            rintro module hok
            obtain ⟨before, d₁, d₂, rfl, hid⟩ := hlast module hok
            exact ⟨ds ++ before, d₁, d₂, (List.append_assoc _ _ _).symm, hid⟩
          · rintro es hq ds ⟨hq', _⟩
            exact hq'.append hq
        · rintro ds ⟨hq, _⟩
          rwa [List.append_nil]
      · refine (passes_note _).then fun _ => works_pure ?_
        rintro ds ⟨hq, _⟩
        rw [List.append_nil]
        exact ⟨hq, fun _ h => nomatch h⟩

/-! ## startup -/

/-- The deeds of a registration, as `attach_does` has them, and what becomes of the manager. -/
inductive Attaches (m : Manager) (module : ModuleIdentity) :
    Manager × Except StartFault Unit → List Deed → Prop
  | refused {h : Host} {e : StackFault} : h.interface.refusal (.register module.mac) = some e →
    Attaches m module (m, .error (.register e)) [h.calling (.register module.mac)]
  | attached {now : Nat} {h : Host} {m' : Manager} :
    h.interface.refusal (.register module.mac) = none → m'.module = some module →
    m'.settings = m.settings → m'.association = m.association →
    Attaches m module (m', .ok ()) (registration now h module ++
      if (raised now h module).status.isAssociated then
        [(raised now h module).calling .setLinkUp,
          (lifted now (raised now h module)).calling .startAcquisition] else [])

/-- **A registration** consists of calls; the first of them registers the interface. -/
theorem Attaches.works_eq {m : Manager} {module : ModuleIdentity}
    {r : Manager × Except StartFault Unit} {ds : List Deed} (h : m.Attaches module r ds) :
    ∃ calls, ds.map Deed.work = (InterfaceCall.register module.mac :: calls).map Work.call ∧
      ∀ call ∈ calls, ∀ mac, call ≠ .register mac := by
  cases h with
  | refused _ => exact ⟨[], rfl, fun _ hc => absurd hc List.not_mem_nil⟩
  | @attached now h _ _ _ _ _ =>
    by_cases hassociated : (raised now h module).status.isAssociated = true
    · rw [if_pos hassociated]
      refine ⟨[.setDefault, .setUp, .setLinkUp, .startAcquisition], rfl, ?_⟩
      simp
    · rw [if_neg hassociated]
      refine ⟨[.setDefault, .setUp], rfl, ?_⟩
      simp

theorem works_attach (m : Manager) (module : ModuleIdentity) :
    Works (Routine.act (m.attach module)) (m.Attaches module) fun _ => False := by
  intro tl
  refine Routine.ends_act ?_
  obtain ⟨e, hrefused, heq, hd⟩ | ⟨haccepted, hok, hmodule, hd⟩ :=
    m.attach_does tl.now tl.world module
  · refine ⟨_, hd, ?_⟩
    rw [heq]
    exact .refused hrefused
  · refine ⟨_, hd, ?_⟩
    have hr : (m.attach module tl.now tl.world).1
        = ((m.attach module tl.now tl.world).1.1, .ok ()) :=
      Prod.ext rfl hok
    obtain ⟨hnot, _⟩ | ⟨_, _, acquiring, heq⟩ := m.attach_eq module tl.now tl.world
    · exact absurd hok hnot
    · rw [hr]
      exact .attached haccepted hmodule (by rw [heq]) (by rw [heq])

/-- The deeds of an attempt to establish the manager: queries, and once the module has answered a
registration. -/
inductive Establishes (m : Manager) : Manager × Except StartFault Unit → List Deed → Prop
  | unidentified {e : TransportFault} {ds : List Deed} : Queries ds →
    Establishes m (m, .error (.moduleQuery e)) ds
  | identified {module : ModuleIdentity} {d₁ d₂ : Deed} {before after : List Deed}
    {r : Manager × Except StartFault Unit} : Queries before →
    Identified m.settings.queryTimeout module d₁ d₂ → m.Attaches module r after →
    Establishes m r (before ++ [d₁, d₂] ++ after)

theorem works_establish (m : Manager) (rounds : Nat) :
    Works (m.establish rounds) m.Establishes Queries := by
  unfold establish
  refine (works_identifyModule m.settings rounds 1).bind (fun answer => ?_) fun _ h => h
  cases answer with
  | error e =>
    refine works_pure fun ds hi => ?_
    rw [List.append_nil]
    exact .unidentified hi.1
  | ok module =>
    refine (m.works_attach module).imp ?_ fun _ h => h.elim
    rintro r es hattaches ds ⟨hqueries, hlast⟩
    obtain ⟨before, d₁, d₂, rfl, hid⟩ := hlast module rfl
    exact .identified (fun d hd => hqueries d (List.mem_append_left _ hd)) hid hattaches

theorem idles_awaitStack : Idles awaitStack :=
  (passes_note _).then fun _ => (idles_awaitAll _ _).idly fun _ => (passes_note _).idles

theorem passes_recordAttempt (m : Manager) (outcome : Except AttemptFault AttemptOutcome) :
    Passes (m.recordAttempt outcome) := by
  unfold recordAttempt
  split
  · exact (passes_note _).then fun _ => passes_pure _
  · exact passes_pure _

end Manager

end Uplink
