import Uplink.Fault

/-!
# Credentials of the access point

The configuration store holds two entries of bytes: the network name and the key.  They are
accepted when the name has 1 to 32 bytes, the key at most 64, and both are UTF-8.

* `Credentials.ofBytes`  accepts or refuses two byte strings;
* `Credentials.ofStore`  the same for the entries of a store.
-/

namespace Uplink

/-- The persisted entries; `none` is an entry that was never written. -/
structure Store where
  ssid : Option ByteArray
  psk : Option ByteArray

/-- Longest network name, in bytes. -/
def ssidLimit : Nat := 32

def pskLimit : Nat := 64

structure Credentials where
  ssid : String
  psk : String
  deriving DecidableEq, Repr

namespace Credentials

def text? (limit : Nat) (bytes : ByteArray) : Option String :=
  if bytes.size ≤ limit then String.fromUTF8? bytes else none

theorem text?_eq_some_iff {limit : Nat} {bytes : ByteArray} {s : String} :
    text? limit bytes = some s ↔ bytes.size ≤ limit ∧ s.toByteArray = bytes := by
  unfold text? String.fromUTF8?
  split
  · rename_i hsize
    constructor
    · intro h
      split at h
      · cases h
        exact ⟨hsize, rfl⟩
      · cases h
    · intro hend
      obtain ⟨_, rfl⟩ := hend
      have hv : s.toByteArray.IsValidUTF8 := s.isValidUTF8
      rw [dif_pos hv]
      rfl
  · rename_i hsize
    exact ⟨fun h => (nomatch h), fun h => absurd h.1 hsize⟩

/-- Accepts a name and a key.  An empty key selects an open network; an empty name is no name. -/
def ofBytes (ssid psk : ByteArray) : Except AttemptFault Credentials :=
  if ssid.size = 0 then .error .missingCredentials
  else
    match text? ssidLimit ssid, text? pskLimit psk with
    | some ssid, some psk => .ok ⟨ssid, psk⟩
    | _, _ => .error .invalidCredentials

/-- Reads the entries of a store; a key that was never written is the empty key. -/
def ofStore (store : Store) : Except AttemptFault Credentials :=
  match store.ssid with
  | none => .error .missingCredentials
  | some ssid => ofBytes ssid (store.psk.getD ByteArray.empty)

end Credentials

end Uplink
