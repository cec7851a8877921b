import Uplink.Proofs.Memory
import Uplink.Proofs.Reconnects

/-!
# The link mirrors the status

The manager writes the link when it mirrors a status and when it adopts one, and at no other time.
So the calls on the link can be read off the moments of a life, and unless somebody else writes the
link, it is as the status mirrored last wants it.

* `linkAfter`             the link after the entries of a trace, whoever wrote it;
* `SparesLink`            nobody but the manager changes the link;
* `Host.Wrote`            the manager's calls on the link between two moments of a host;
* `History.wrote`         they are those of the moments;
* `link_of_coherent`      the last of them is what the status mirrored last wants;
* `link_mirrors_status`   the link at every moment of a life, and after every cycle.
-/

namespace Uplink

open Host

/-! ## the link in a trace -/

/-- What a call makes of the link, if it writes the link. -/
def InterfaceCall.link? : InterfaceCall → Option Bool
  | setLinkUp => some true
  | setLinkDown => some false
  | _ => none

namespace TraceEntry

/-- What the manager made of the link. -/
def link? : TraceEntry → Option Bool
  | called _ call => call.link?
  | _ => none

/-- What the stack itself made of the link. -/
def flapped? : TraceEntry → Option Bool
  | fired _ (.changeInterface (some flags) _) _ => some (flags.getLsbD 2)
  | _ => none

end TraceEntry

/-- The calls on the link that a trace tells of. -/
def linkCalls (entries : List TraceEntry) : List InterfaceCall :=
  (callsIn entries).filter (·.link?.isSome)

def linkAfter (link : Bool) (entries : List TraceEntry) : Bool :=
  entries.foldl (fun link e => (e.link?.or e.flapped?).getD link) link

/-- Whoever writes the link, apart from the manager, writes what is there already. -/
def SparesLink (link : Bool) : List TraceEntry → Prop
  | [] => True
  | e :: es =>
    (∀ b, e.flapped? = some b → b = link) ∧ SparesLink ((e.link?.or e.flapped?).getD link) es

/-- The link after calls of the manager alone. -/
def linkBy (link : Bool) (calls : List InterfaceCall) : Bool :=
  calls.foldl (fun link call => call.link?.getD link) link

theorem linkCalls_append (as bs : List TraceEntry) :
    linkCalls (as ++ bs) = linkCalls as ++ linkCalls bs := by
  unfold linkCalls
  rw [callsIn_append, List.filter_append]

theorem linkAfter_append (link : Bool) (as bs : List TraceEntry) :
    linkAfter link (as ++ bs) = linkAfter (linkAfter link as) bs := List.foldl_append

theorem linkBy_append (link : Bool) (as bs : List InterfaceCall) :
    linkBy link (as ++ bs) = linkBy (linkBy link as) bs := List.foldl_append

theorem linkAfter_accepted (link : Bool) (sets : List EventSet) :
    linkAfter link (sets.map TraceEntry.accepted) = link := by
  induction sets with
  | nil => rfl
  | cons s sets ih => exact ih

theorem linkCalls_accepted (sets : List EventSet) :
    linkCalls (sets.map TraceEntry.accepted) = [] := by
  unfold linkCalls
  rw [callsIn_accepted, List.filter_nil]

/-- A call on the link is the first of the calls, and another entry is none of them. -/
theorem linkBy_cons (link : Bool) (e : TraceEntry) (es : List TraceEntry) :
    linkBy link (linkCalls (e :: es)) = linkBy (e.link?.getD link) (linkCalls es) := by
  cases e with
  | called now call => cases call <;> rfl
  | _ => rfl

/-- **The link of a manager that is alone with it** is as its calls have made it. -/
theorem linkAfter_of_spares {link : Bool} {entries : List TraceEntry}
    (hs : SparesLink link entries) : linkAfter link entries = linkBy link (linkCalls entries) := by
  induction entries generalizing link with
  | nil => rfl
  | cons e es ih =>
    obtain ⟨hflap, hrest⟩ := hs
    have hwrote : (e.link?.or e.flapped?).getD link = e.link?.getD link := by
      cases hl : e.link? with
      | some b => rfl
      | none =>
        cases hf : e.flapped? with
        | none => rfl
        | some b => exact hflap b hf
    rw [linkBy_cons, ← hwrote]
    exact ih hrest

theorem sparesLink_of_none {link : Bool} {entries : List TraceEntry}
    (h : ∀ e ∈ entries, e.flapped? = none) : SparesLink link entries := by
  induction entries generalizing link with
  | nil => trivial
  | cons e es ih =>
    obtain ⟨he, hes⟩ := List.forall_mem_cons.mp h
    refine ⟨fun b hb => ?_, ih hes⟩
    rw [he] at hb
    cases hb

/-! ## the link of a host -/

namespace Host

/-- The trace grew by `entries`, and they tell what became of the link. -/
structure Traced (entries : List TraceEntry) (h h' : Host) : Prop where
  trace_eq : h'.trace.toList = h.trace.toList ++ entries
  link_eq : h'.interface.snapshot.hasLink = linkAfter h.interface.snapshot.hasLink entries

/-- The manager made the calls `calls` on the link, and the trace tells all that became of it. -/
def Wrote (calls : List InterfaceCall) (h h' : Host) : Prop :=
  ∃ entries, Traced entries h h' ∧ linkCalls entries = calls

variable {h h₁ h' : Host} {as bs : List TraceEntry} {calls calls' : List InterfaceCall}

theorem Traced.trans (ha : Traced as h h₁) (hb : Traced bs h₁ h') : Traced (as ++ bs) h h' where
  trace_eq := by rw [hb.trace_eq, ha.trace_eq, List.append_assoc]
  link_eq := by rw [hb.link_eq, ha.link_eq, linkAfter_append]

theorem Wrote.trans (ha : Wrote calls h h₁) (hb : Wrote calls' h₁ h') :
    Wrote (calls ++ calls') h h' := by
  obtain ⟨as, hta, rfl⟩ := ha
  obtain ⟨bs, htb, rfl⟩ := hb
  exact ⟨as ++ bs, hta.trans htb, linkCalls_append as bs⟩

/-- Nothing became of trace and link. -/
theorem wrote_nothing (ht : h'.trace = h.trace)
    (hl : h'.interface.snapshot.hasLink = h.interface.snapshot.hasLink) : Wrote [] h h' :=
  ⟨[], ⟨by rw [ht, List.append_nil], hl⟩, rfl⟩

theorem Wrote.quietly (ha : Wrote calls h h₁) (hb : Wrote [] h₁ h') : Wrote calls h h' := by
  have h := ha.trans hb
  rwa [List.append_nil] at h

theorem Wrote.note (hw : Wrote calls h h') (e : LogEntry) : Wrote calls h (h'.note e) :=
  hw.quietly (wrote_nothing rfl rfl)

theorem traced_told {sets : List EventSet} (ht : Told sets h h') :
    Traced (sets.map TraceEntry.accepted) h h' :=
  ⟨ht.trace_eq, by rw [linkAfter_accepted, ht.interface_eq]⟩

theorem hasLink_attempt (i : Interface) (call : InterfaceCall) :
    (i.attempt call).snapshot.hasLink = call.link?.getD i.snapshot.hasLink := by
  unfold Interface.attempt
  cases call with
  | setLinkUp => exact i.hasLink_setLinkUp
  | setLinkDown => exact i.hasLink_setLinkDown
  | setUp => exact i.hasLink_setUp
  | setDefault => rfl
  | register mac => split <;> rfl
  | startAcquisition => split <;> rfl
  | releaseAndStop => split <;> rfl

/-- **A call of the manager** on the interface, one on the link or another. -/
theorem wrote_use (h : Host) (now : Nat) (call : InterfaceCall) :
    Wrote ([call].filter (·.link?.isSome)) h (h.use now call).2 := by
  obtain ⟨sets, ht⟩ := told_use h now call
  have hcalled : Traced [.called now call] h
      ({ h with interface := h.interface.attempt call }.record (.called now call)) := by
    refine ⟨Array.toList_push, ?_⟩
    show (h.interface.attempt call).snapshot.hasLink
      = (call.link?.or none).getD h.interface.snapshot.hasLink
    rw [Option.or_none]
    exact hasLink_attempt _ call
  refine ⟨_, hcalled.trans (traced_told ht), ?_⟩
  rw [linkCalls_append, linkCalls_accepted, List.append_nil]
  rfl

/-! ### what others do -/

theorem hasLink_changed (a : Action) (i : Interface) (now : Nat) (r : ActionResult) :
    (a.changed i).snapshot.hasLink
      = ((TraceEntry.fired now a r).flapped?).getD i.snapshot.hasLink := by
  cases a with
  | changeInterface flags ipv4 => cases flags <;> rfl
  | _ => rfl

theorem wrote_react (now : Nat) (a : Action) (h : Host) :
    Wrote [] h (Reactive.react now a h) := by
  obtain ⟨sets, ht, _⟩ := a.told_perform h
  have halone : (a.alone h).interface = a.changed h.interface := a.interface_alone h
  -- the change comes before the events, but its entry comes after them
  refine ⟨sets.map TraceEntry.accepted ++ [.fired now a (a.perform h).1], ⟨?_, ?_⟩, ?_⟩
  · rw [← List.append_assoc, ← a.trace_alone h, ← ht.trace_eq]
    exact Array.toList_push
  · rw [linkAfter_append, linkAfter_accepted]
    show (a.perform h).2.interface.snapshot.hasLink = _
    rw [ht.interface_eq, halone]
    exact hasLink_changed a h.interface now (a.perform h).1
  · rw [linkCalls_append, linkCalls_accepted, List.nil_append]
    rfl

theorem wrote_report (h : Host) (status : RadioStatus) : Wrote [] h (h.report status) := by
  obtain ⟨sets, ht, _⟩ := (Action.report status).told_perform h
  have halone : Wrote [] h ((Action.report status).alone h) := wrote_nothing rfl rfl
  exact halone.quietly ⟨_, traced_told ht, linkCalls_accepted sets⟩

theorem Stirs.wrote {A : Action → Prop} (hs : Stirs A h h') : Wrote [] h h' := by
  cases hs with
  | note e _ => exact wrote_nothing rfl rfl
  | take target => exact wrote_nothing rfl rfl
  | putBack events => exact wrote_nothing rfl rfl
  | ask coprocessor now request timeout =>
    exact ⟨[.asked now request timeout], ⟨Array.toList_push, rfl⟩, rfl⟩
  | report status => exact wrote_report h status
  | react now a _ => exact wrote_react now a h

end Host

/-! ## the manager -/

/-- The calls on the link that belong to a moment. -/
def Moment.linkCalls : Moment → List InterfaceCall
  | adopted _ => [.setLinkUp]
  | attempted _ _ => []
  | mirrored _ change => change.toList.map LinkChange.call

namespace Manager

theorem wrote_startAcquisition (m : Manager) (now : Nat) (h : Host) :
    Wrote [] h (m.startAcquisition now h).2 := by
  have hu := wrote_use h now .startAcquisition
  unfold startAcquisition
  rcases hc : h.use now .startAcquisition with ⟨e | ⟨⟩, h'⟩ <;> rw [hc] at hu
  · exact hu.note _
  · exact hu.note _

theorem wrote_releaseAndStop (m : Manager) (now : Nat) (h : Host) :
    Wrote [] h (m.releaseAndStop now h).2 := by
  have hu := wrote_use h now .releaseAndStop
  unfold releaseAndStop
  rcases hc : h.use now .releaseAndStop with ⟨e | ⟨⟩, h'⟩ <;> rw [hc] at hu
  · exact hu.note _
  · exact hu.note _

theorem wrote_reconcile (m : Manager) (now : Nat) (h : Host) :
    Wrote [] h (m.reconcileAddress now h).2 := by
  unfold reconcileAddress
  split
  · split
    · exact wrote_nothing rfl rfl
    · exact m.wrote_startAcquisition now h
  · split
    · exact m.wrote_releaseAndStop now h
    · exact wrote_nothing rfl rfl

theorem wrote_noteUnknown (status : RadioStatus) (h : Host) :
    Wrote [] h (noteUnknown status h) := by
  cases status <;> exact wrote_nothing rfl rfl

theorem wrote_mirrorStatus (m : Manager) (now : Nat) (h : Host) :
    Wrote ((m.mirrorStatus now h).1.2.toList.map LinkChange.call) h (m.mirrorStatus now h).2 := by
  have hlink : ∀ change : LinkChange,
      [change.call].filter (·.link?.isSome) = [change.call] := by
    intro change
    cases change <;> rfl
  have hw := (wrote_noteUnknown h.status h).trans
    (wrote_use (noteUnknown h.status h) now (LinkChange.ofStatus h.status).call)
  rw [hlink, List.nil_append] at hw
  unfold mirrorStatus
  dsimp only
  split
  · exact wrote_nothing rfl rfl
  · exact hw.note _

theorem wrote_adopt (m : Manager) (now : Nat) (h : Host) :
    Wrote (if h.status.isAssociated then [.setLinkUp] else []) h (m.adopt now h).2 := by
  unfold adopt
  split
  · have hnoted : Wrote [] h (h.note (.alreadyAssociated h.status)) := wrote_nothing rfl rfl
    exact (hnoted.trans (wrote_use _ now .setLinkUp)).quietly (wrote_startAcquisition _ now _)
  · exact wrote_nothing rfl rfl

theorem wrote_attach (m : Manager) (module : ModuleIdentity) (now : Nat) (h : Host) :
    Wrote ((adoption (m.attach module now h).1.2 (m.attach module now h).2.status).flatMap
      Moment.linkCalls) h (m.attach module now h).2 := by
  have hregister := wrote_use h now (.register module.mac)
  have hstatus := status_use h now (.register module.mac)
  unfold attach
  rcases hc : h.use now (.register module.mac) with ⟨e | ⟨⟩, h₁⟩ <;> rw [hc] at hregister hstatus
  · have hnone : adoption (.error (.register e)) (h₁.note (.registerFailed e)).status = [] :=
      if_neg fun hand => nomatch hand.1
    dsimp only
    rw [hnone]
    exact hregister.note _
  · have hup := (hregister.quietly (wrote_use h₁ now .setDefault)).quietly
      (wrote_use (h₁.use now .setDefault).2 now .setUp)
    have hadopted := hup.trans (wrote_adopt { m with module := some module } now
      ((h₁.use now .setDefault).2.use now .setUp).2)
    have hcalls : ∀ s : RadioStatus, (adoption (.ok ()) s).flatMap Moment.linkCalls
        = if s.isAssociated then [.setLinkUp] else [] := by
      intro s
      cases s <;> rfl
    dsimp only
    rw [hcalls, (adopt_eq _ now _).1]
    exact hadopted

end Manager

/-- **The calls on the link** are those of the moments. -/
theorem History.wrote {m₀ m : Manager} {h₀ h : Host} {ms : List Moment}
    (hist : History m₀ h₀ ms m h) : Wrote (ms.flatMap Moment.linkCalls) h₀ h := by
  induction hist with
  | begin => exact wrote_nothing rfl rfl
  | stirred _ hs ih => exact ih.quietly hs.wrote
  | attached module now _ ih =>
    rw [List.flatMap_append]
    exact ih.trans (Manager.wrote_attach _ module now _)
  | attempted association outcome _ ih =>
    rw [List.flatMap_append]
    exact ih.trans (wrote_nothing rfl rfl)
  | mirrored now _ ih =>
    rw [List.flatMap_append, List.flatMap_singleton]
    exact ih.trans (Manager.wrote_mirrorStatus _ now _)
  | reconciled now _ ih => exact ih.quietly (Manager.wrote_reconcile _ now _)

/-! ## what a status wants -/

/-- The link that a status wants: up if it carries traffic, and up to be on the safe side if it is
not known. -/
def RadioStatus.wantsLink (s : RadioStatus) : Bool := s.carriesTraffic || s.isUnknown

theorem RadioStatus.wantsLink_iff (s : RadioStatus) :
    s.wantsLink = true ↔ s = stationUp ∨ s = stationGotIp ∨ s = apUp ∨ ∃ c, s = unknown c := by
  cases s <;> simp [wantsLink, carriesTraffic, isUnknown]

theorem LinkChange.ofStatus_iff (s : RadioStatus) :
    (ofStatus s = .failSafeUp ↔ ∃ c, s = .unknown c) ∧
      (ofStatus s = .up ↔ s = .stationUp ∨ s = .stationGotIp ∨ s = .apUp) := by
  cases s <;> simp [ofStatus, RadioStatus.carriesTraffic, RadioStatus.isUnknown]

theorem LinkChange.link_call_ofStatus (s : RadioStatus) :
    (LinkChange.ofStatus s).call.link? = some s.wantsLink := by
  cases s <;> rfl

theorem RadioStatus.wantsLink_of_isAssociated {s : RadioStatus} (h : s.isAssociated = true) :
    s.wantsLink = true := by
  unfold wantsLink
  rw [carriesTraffic_of_isAssociated h, Bool.true_or]

/-- One moment leaves the link as the status mirrored then wants it. -/
theorem Moment.link_of_fits {x : Moment} {before : Option RadioStatus} {link : Bool}
    (hfits : x.Fits before) (hlink : ∀ s, before = some s → link = s.wantsLink) :
    ∀ s, x.shown?.or before = some s → linkBy link x.linkCalls = s.wantsLink := by
  intro s hs
  cases x with
  | adopted s' =>
    cases hs
    exact (RadioStatus.wantsLink_of_isAssociated hfits).symm
  | attempted outcome s' => exact hlink s hs
  | mirrored s' change =>
    cases hs
    by_cases hsame : before = some s
    · have hnone : change = none := by rw [hfits, if_pos hsame]
      rw [hnone]
      exact hlink s hsame
    · have hsome : change = some (LinkChange.ofStatus s) := by rw [hfits, if_neg hsame]
      rw [hsome]
      show (LinkChange.ofStatus s).call.link?.getD link = s.wantsLink
      rw [LinkChange.link_call_ofStatus]
      rfl

/-- **The status mirrored last has its way.** -/
theorem link_of_coherent {before : Option RadioStatus} {ms : List Moment} {link : Bool}
    (hms : Coherent before ms) (hlink : ∀ s, before = some s → link = s.wantsLink) :
    ∀ s, mirroredAfter before ms = some s →
      linkBy link (ms.flatMap Moment.linkCalls) = s.wantsLink := by
  induction ms generalizing before link with
  | nil => exact hlink
  | cons x ms ih =>
    obtain ⟨hfits, hrest⟩ := hms
    rw [List.flatMap_cons, linkBy_append]
    exact ih hrest (x.link_of_fits hfits hlink)

/-! ## at every moment -/

/-- What is true of the link at a moment of a life that began at the host `h₀` and had the moments
`ms`. -/
structure Mirrors (h₀ : Host) (ms : List Moment) (m : Manager) (h : Host) : Prop where
  mirrored_eq : m.mirrored = mirroredAfter none ms
  /-- The link is as the status mirrored last wants it, unless somebody else changes it. -/
  link_iff : SparesLink h₀.interface.snapshot.hasLink (entriesSince h₀ h) →
    ∀ s, m.mirrored = some s → (h.interface.snapshot.hasLink = true ↔
      s = .stationUp ∨ s = .stationGotIp ∨ s = .apUp ∨ ∃ c, s = .unknown c)
  /-- A look at the status changes the link exactly if that status was not mirrored before. -/
  looks : ∀ past s change later, ms = past ++ .mirrored s change :: later →
    change = if mirroredAfter none past = some s then none else some (LinkChange.ofStatus s)
  /-- There is one call for each change and for each status adopted, and no other. -/
  calls_eq : linkCalls (entriesSince h₀ h) = ms.flatMap Moment.linkCalls
  failSafe_eq : m.failSafeLinks = UInt32.ofNat (failSafes ms)

/-- What a cycle from `tl` to `tl'` makes of the link, `status` being the one cached when its main
wait returned. -/
structure CycleMirrors (m : Manager) (status : RadioStatus) (r : Manager × CycleReport)
    (tl tl' : Timeline Action Host) : Prop where
  link_eq : r.2.link =
    if m.mirrored = some status then none else some (LinkChange.ofStatus status)
  /-- A change forces the link up for an unknown status, puts it up for one that carries traffic,
  and puts it down for the others. -/
  change_iff : ∀ change, r.2.link = some change →
    (change = .failSafeUp ↔ ∃ c, status = .unknown c) ∧
      (change = .up ↔ status = .stationUp ∨ status = .stationGotIp ∨ status = .apUp)
  mirrored_eq : r.1.mirrored = some status
  calls_eq : linkCalls (written tl tl') = r.2.link.toList.map LinkChange.call
  failSafe_eq : r.1.failSafeLinks
    = m.failSafeLinks + if r.2.link = some .failSafeUp then 1 else 0

/-- A moment that mirrors no other status than `s`. -/
def Moment.Repeats (s : RadioStatus) : Moment → Prop
  | adopted _ => False
  | attempted _ _ => True
  | mirrored s' _ => s' = s

section
variable {m₀ m : Manager} {tl₀ tl tl' : Timeline Action Host} {ms : List Moment}

theorem Life.linkCalls_eq (life : Life m₀ tl₀ ms m tl) :
    linkCalls (written tl₀ tl) = ms.flatMap Moment.linkCalls := by
  obtain ⟨entries, ht, hcalls⟩ := life.history.wrote
  rw [written_eq ht.trace_eq]
  exact hcalls

theorem Life.mirrors (life : Life m₀ tl₀ ms m tl) (fresh : m₀.Fresh) :
    Mirrors tl₀.world ms m tl.world := by
  obtain ⟨hmirrored, hcoherent, _, hfailSafe⟩ := life.history.remembers
  obtain ⟨entries, ht, hcalls⟩ := life.history.wrote
  rw [fresh.mirrored] at hmirrored hcoherent
  rw [fresh.failSafeLinks, UInt32.zero_add] at hfailSafe
  refine ⟨hmirrored, ?_, ?_, life.linkCalls_eq, hfailSafe⟩
  · intro hspares s hs
    rw [entriesSince_eq ht.trace_eq] at hspares
    rw [ht.link_eq, linkAfter_of_spares hspares, hcalls,
      link_of_coherent hcoherent (fun _ h => nomatch h) s (hmirrored ▸ hs)]
    exact s.wantsLink_iff
  · intro past s change later hsplit
    rw [hsplit] at hcoherent
    exact fits_of_coherent hcoherent

theorem linkCalls_tried (outcome : Option (Except AttemptFault AttemptOutcome))
    (status : RadioStatus) : (tried outcome status).flatMap Moment.linkCalls = [] := by
  cases outcome <;> rfl

/-- A cycle is a life of its own, with one look at the status. -/
theorem Manager.cycle_mirrors {tl₁ : Timeline Action Host}
    {heard : Manager × Option (Except AttemptFault AttemptOutcome) × EventSet}
    {r : Manager × CycleReport} (hhear : m.hear tl = .ok heard tl₁)
    (hcycle : m.cycle tl = .ok r tl') : CycleMirrors m tl₁.world.status r tl tl' := by
  have begun : Life m tl [] m tl := .begin
  obtain ⟨_, _, _, life⟩ := begun.cycle hhear hcycle
  rw [List.nil_append] at life
  obtain ⟨hmirrored, hcoherent, _, hfailSafe⟩ := life.history.remembers
  have hlink := fits_of_coherent hcoherent
  rw [mirroredAfter_tried] at hlink
  refine ⟨hlink, ?_, ?_, ?_, ?_⟩
  · intro change hchange
    rw [hlink] at hchange
    split at hchange
    · cases hchange
    · cases hchange
      exact LinkChange.ofStatus_iff _
  · rw [hmirrored, mirroredAfter_append, mirroredAfter_tried]
    exact mirroredAfter_tried _ _ _
  · rw [life.linkCalls_eq, List.flatMap_append, List.flatMap_cons, linkCalls_tried,
      linkCalls_tried, List.nil_append, List.append_nil]
    rfl
  · rw [hfailSafe, failSafes_append, failSafes_tried, failSafes_look, failSafes_tried, Nat.zero_add,
      Nat.add_zero]
    split <;> rfl

/-- Repeating the mirrored status makes no call on the link. -/
theorem linkCalls_of_repeats {before : Option RadioStatus} {s : RadioStatus}
    (hms : Coherent before ms) (hbefore : before = some s) (hrepeats : ∀ x ∈ ms, x.Repeats s) :
    ms.flatMap Moment.linkCalls = [] := by
  induction ms generalizing before with
  | nil => rfl
  | cons x ms ih =>
    obtain ⟨hfits, hrest⟩ := hms
    obtain ⟨hx, hlater⟩ := List.forall_mem_cons.mp hrepeats
    have hcalls : x.linkCalls = [] ∧ x.shown?.or before = some s := by
      cases x with
      | adopted s' => exact hx.elim
      | attempted outcome s' => exact ⟨rfl, hbefore⟩
      | mirrored s' change =>
        have hsame : s' = s := hx
        have hnone : change = none := by
          rw [hfits, hsame, if_pos hbefore]
        rw [hnone, hsame]
        exact ⟨rfl, rfl⟩
    rw [List.flatMap_cons, hcalls.1, List.nil_append]
    exact ih hrest hcalls.2 hlater

/-- **The link mirrors the status.**  At every moment of the life of a fresh manager, however it has
come there, and whatever was reported and done by others meanwhile: if nobody else has changed the
link, it is up exactly if the status mirrored last carries traffic or is not known.  Every look at
the status changes the link exactly if that status was not mirrored before, with one call; no other
call is made but the one for a status adopted at startup; and the fail-safe counter counts, in 32
bits, how often an unknown status forced the link up.  Every cycle from there looks once, at the
status cached when its main wait returned, and makes the call that its report tells.  As long as
no other status is seen than the one mirrored, no call is made. -/
theorem link_mirrors_status (life : Life m₀ tl₀ ms m tl) (fresh : m₀.Fresh) :
    Mirrors tl₀.world ms m tl.world ∧
    (∀ heard tl₁ r tl', m.hear tl = .ok heard tl₁ → m.cycle tl = .ok r tl' →
      CycleMirrors m tl₁.world.status r tl tl') ∧
    (∀ s new m' tl', m.mirrored = some s → Life m tl new m' tl' → (∀ x ∈ new, x.Repeats s) →
      linkCalls (written tl tl') = []) := by
  refine ⟨life.mirrors fresh, fun heard tl₁ r tl' => Manager.cycle_mirrors, ?_⟩
  intro s new m' tl' hs further hrepeats
  rw [further.linkCalls_eq]
  exact linkCalls_of_repeats further.history.remembers.coherent hs hrepeats

/-- An unknown status, reported before the first cycle, forces the link up. -/
theorem unknown_status_raises_link :
    ∃ ms m tl, Life {} slowToDisconnect ms m tl ∧ m.mirrored = some (.unknown 9) ∧
      tl.world.interface.snapshot.hasLink = true ∧
      m.failSafeLinks = UInt32.ofNat (failSafes ms) := by
  have reported : Life {} slowToDisconnect [] {} { slowToDisconnect with
      world := slowToDisconnect.world.report (.unknown 9) } :=
    Life.begin.others (.single (.report (.unknown 9)))
  obtain ⟨_, _, _, life⟩ := reported.cycle rfl rfl
  have hmirrors := (link_mirrors_status life ⟨rfl, rfl, rfl, rfl⟩).1
  refine ⟨_, _, _, life, rfl, ?_, hmirrors.failSafe_eq⟩
  refine (hmirrors.link_iff (sparesLink_of_none ?_) (.unknown 9) rfl).mpr (by simp)
  decide

end

end Uplink
