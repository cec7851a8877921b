import Uplink.Credentials
import Uplink.Proofs.Utf8

/-!
# The grammar of credentials

A name has 1 to 32 bytes, a key at most 64, and both are UTF-8.  Limits count bytes, so a character
of several bytes may be the one that is too much, and bytes that are cut within a character are no
text at all.  What has this form is accepted as it is; everything else is refused, and the answer
tells a name that is not there from anything that is wrong.

* `IsText`, `IsName`, `IsKey`  the forms;
* `Credentials.ByGrammar`      how to answer a name and a key;
* `credentials_by_grammar`     byte strings and stores are answered like that.
-/

namespace Uplink

/-! ## forms -/

/-- UTF-8 of so many bytes at most. -/
structure IsText (limit : Nat) (bytes : ByteArray) : Prop where
  fits : bytes.size ≤ limit
  wellFormed : Utf8.WellFormed bytes.data.toList

structure IsName (bytes : ByteArray) : Prop where
  nonempty : 1 ≤ bytes.size
  text : IsText 32 bytes

def IsKey (bytes : ByteArray) : Prop := IsText 64 bytes

/-- The key of a store; one that was never written is empty. -/
def Store.key (store : Store) : ByteArray := store.psk.getD ByteArray.empty

theorem isText_iff {limit : Nat} {bytes : ByteArray} :
    IsText limit bytes ↔ bytes.size ≤ limit ∧ bytes.IsValidUTF8 := by
  rw [Utf8.isValidUTF8_iff]
  exact ⟨fun h => ⟨h.fits, h.wellFormed⟩, fun h => ⟨h.1, h.2⟩⟩

instance (limit : Nat) (bytes : ByteArray) : Decidable (IsText limit bytes) :=
  decidable_of_iff _ isText_iff.symm

instance (bytes : ByteArray) : Decidable (IsName bytes) :=
  decidable_of_iff (1 ≤ bytes.size ∧ IsText 32 bytes)
    ⟨fun h => ⟨h.1, h.2⟩, fun h => ⟨h.nonempty, h.text⟩⟩

instance (bytes : ByteArray) : Decidable (IsKey bytes) := inferInstanceAs (Decidable (IsText _ _))

namespace Credentials

variable {ssid psk : ByteArray} {limit : Nat}

/-- Bytes are read as a string exactly if they have the form. -/
theorem exists_text?_iff : (∃ s, text? limit psk = some s) ↔ IsText limit psk := by
  rw [isText_iff]
  constructor
  · rintro ⟨s, h⟩
    obtain ⟨hfits, rfl⟩ := text?_eq_some_iff.mp h
    exact ⟨hfits, s.isValidUTF8⟩
  · rintro ⟨hfits, hvalid⟩
    exact ⟨String.ofByteArray psk hvalid, text?_eq_some_iff.mpr ⟨hfits, rfl⟩⟩

theorem text?_eq_none (h : ¬ IsText limit psk) : text? limit psk = none :=
  Option.eq_none_iff_forall_ne_some.mpr fun s hs => h (exists_text?_iff.mp ⟨s, hs⟩)

/-! ## answers -/

theorem ofBytes_of_empty (h : ssid.size = 0) (psk : ByteArray) :
    ofBytes ssid psk = .error .missingCredentials := if_pos h

theorem ofBytes_of_forms (hname : IsName ssid) (hkey : IsKey psk) :
    ∃ c, ofBytes ssid psk = .ok c ∧ c.ssid.toByteArray = ssid ∧ c.psk.toByteArray = psk := by
  have hsize : ssid.size ≠ 0 := Nat.pos_iff_ne_zero.mp hname.nonempty
  obtain ⟨s, hs⟩ := exists_text?_iff.mpr hname.text
  obtain ⟨k, hk⟩ := exists_text?_iff.mpr hkey
  refine ⟨⟨s, k⟩, ?_, (text?_eq_some_iff.mp hs).2, (text?_eq_some_iff.mp hk).2⟩
  unfold ofBytes ssidLimit pskLimit
  rw [if_neg hsize, hs, hk]

theorem ofBytes_of_no_forms (hsize : ssid.size ≠ 0) (h : ¬ (IsName ssid ∧ IsKey psk)) :
    ofBytes ssid psk = .error .invalidCredentials := by
  unfold ofBytes ssidLimit pskLimit
  rw [if_neg hsize]
  by_cases htext : IsText 32 ssid
  · have hkey : ¬ IsKey psk := fun hkey => h ⟨⟨Nat.pos_of_ne_zero hsize, htext⟩, hkey⟩
    obtain ⟨s, hs⟩ := exists_text?_iff.mpr htext
    rw [hs, text?_eq_none hkey]
  · rw [text?_eq_none htext]

/-- The name, if there is one, and the key have the form of credentials. -/
def WellFormed (ssid : Option ByteArray) (psk : ByteArray) : Prop :=
  ∃ name, ssid = some name ∧ IsName name ∧ IsKey psk

/-- There is no name, whatever the key. -/
def Nameless (ssid : Option ByteArray) : Prop := ∀ name, ssid = some name → name.size = 0

/-- How to answer a name, if there is one, and a key. -/
structure ByGrammar (ssid : Option ByteArray) (psk : ByteArray)
    (answer : Except AttemptFault Credentials) : Prop where
  accepted : (∃ c, answer = .ok c) ↔ WellFormed ssid psk
  /-- The strings encode back to the bytes. -/
  unchanged : ∀ c, answer = .ok c →
    ssid = some c.ssid.toByteArray ∧ psk = c.psk.toByteArray
  missing : answer = .error .missingCredentials ↔ Nameless ssid
  invalid : answer = .error .invalidCredentials ↔ ¬ Nameless ssid ∧ ¬ WellFormed ssid psk
  /-- There is no third way to refuse. -/
  refused : ∀ e, answer = .error e → e = .missingCredentials ∨ e = .invalidCredentials

section
variable {ssid : Option ByteArray} {psk : ByteArray} {answer : Except AttemptFault Credentials}

theorem byGrammar_of_nameless (h : Nameless ssid) (psk : ByteArray) :
    ByGrammar ssid psk (.error .missingCredentials) where
  accepted := by
    refine iff_of_false (fun hc => nomatch hc) ?_
    rintro ⟨name, rfl, hname, _⟩
    have hpos := hname.nonempty
    have hzero := h name rfl
    omega
  unchanged := nofun
  missing := iff_of_true rfl h
  invalid := iff_of_false nofun fun hnot => hnot.1 h
  refused := by
    rintro _ ⟨⟩
    exact Or.inl rfl

theorem byGrammar_of_malformed (hnamed : ¬ Nameless ssid) (h : ¬ WellFormed ssid psk) :
    ByGrammar ssid psk (.error .invalidCredentials) where
  accepted := iff_of_false (fun hc => nomatch hc) h
  unchanged := nofun
  missing := iff_of_false nofun hnamed
  invalid := iff_of_true rfl ⟨hnamed, h⟩
  refused := by
    rintro _ ⟨⟩
    exact Or.inr rfl

theorem byGrammar_of_wellFormed {c : Credentials}
    (h : WellFormed (some c.ssid.toByteArray) c.psk.toByteArray) :
    ByGrammar (some c.ssid.toByteArray) c.psk.toByteArray (.ok c) where
  accepted := iff_of_true ⟨c, rfl⟩ h
  unchanged := by
    rintro _ ⟨⟩
    exact ⟨rfl, rfl⟩
  missing := by
    refine iff_of_false nofun fun hnameless => ?_
    obtain ⟨_, ⟨⟩, hname, _⟩ := h
    have hpos := hname.nonempty
    have hzero := hnameless _ rfl
    omega
  invalid := iff_of_false nofun fun hnot => hnot.2 h
  refused := nofun

/-- Different pairs do not give the same credentials. -/
theorem ByGrammar.injective {ssid' : Option ByteArray} {psk' : ByteArray} {c : Credentials}
    (h : ByGrammar ssid psk answer) (h' : ByGrammar ssid' psk' answer) (hc : answer = .ok c) :
    ssid = ssid' ∧ psk = psk' := by
  obtain ⟨hssid, hpsk⟩ := h.unchanged c hc
  obtain ⟨hssid', hpsk'⟩ := h'.unchanged c hc
  exact ⟨hssid.trans hssid'.symm, hpsk.trans hpsk'.symm⟩

end

theorem byGrammar_ofBytes (ssid psk : ByteArray) :
    ByGrammar (some ssid) psk (ofBytes ssid psk) := by
  by_cases hsize : ssid.size = 0
  · rw [ofBytes_of_empty hsize]
    refine byGrammar_of_nameless ?_ psk
    rintro _ ⟨⟩
    exact hsize
  · by_cases hforms : IsName ssid ∧ IsKey psk
    · obtain ⟨c, hc, rfl, rfl⟩ := ofBytes_of_forms hforms.1 hforms.2
      rw [hc]
      exact byGrammar_of_wellFormed ⟨_, rfl, hforms⟩
    · rw [ofBytes_of_no_forms hsize hforms]
      refine byGrammar_of_malformed (fun h => hsize (h ssid rfl)) ?_
      rintro ⟨_, ⟨⟩, h⟩
      exact hforms h

theorem byGrammar_ofStore (store : Store) : ByGrammar store.ssid store.key (ofStore store) := by
  unfold ofStore
  cases store.ssid with
  | none =>
    refine byGrammar_of_nameless ?_ store.key
    rintro _ ⟨⟩
  | some ssid => exact byGrammar_ofBytes ssid store.key

end Credentials

/-- **Credentials are accepted by their grammar, and unchanged.**  Any two byte strings, and the
entries of any store, are answered as the grammar has it: they are accepted exactly if name and key
have their forms, and the strings then encode back to the bytes; there is a name missing exactly if
it was never written or is empty, whatever the key; and everything else is invalid.  Two stores that
give the same credentials have the same name and the same key. -/
theorem credentials_by_grammar :
    (∀ ssid psk, Credentials.ByGrammar (some ssid) psk (Credentials.ofBytes ssid psk)) ∧
    (∀ store, Credentials.ByGrammar store.ssid store.key (Credentials.ofStore store)) ∧
    (∀ store store' c, Credentials.ofStore store = .ok c → Credentials.ofStore store' = .ok c →
      store.ssid = store'.ssid ∧ store.key = store'.key) := by
  refine ⟨Credentials.byGrammar_ofBytes, Credentials.byGrammar_ofStore, ?_⟩
  intro store store' c h h'
  have hsame := Credentials.byGrammar_ofStore store'
  rw [h', ← h] at hsame
  exact (Credentials.byGrammar_ofStore store).injective hsame h

/-- A name of 32 bytes that ends within a character of three, and the same name without that
character. -/
example : ¬ IsName ⟨Array.replicate 30 0x78 ++ #[0xE2, 0x82]⟩ ∧
    IsName ⟨Array.replicate 30 0x78⟩ := by decide

end Uplink
