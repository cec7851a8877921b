/-!
# Well-formed UTF-8

Which strings of bytes are UTF-8, said by ranges of bytes.  The first byte of a character tells how
many follow it, and after four of the first bytes the second one has a smaller range: that excludes
the forms that are longer than they need to be, the surrogates, and everything beyond the last code
point.

* `Utf8.IsChar`           the bytes of one character;
* `Utf8.WellFormed`       the bytes of any number of them;
* `Utf8.isChar_iff`       the bytes of a character are those that encode one;
* `Utf8.isValidUTF8_iff`  so are those of a string.
-/

namespace Uplink.Utf8

/-! ## by ranges -/

/-- A byte that continues a character. -/
structure IsTail (b : UInt8) : Prop where
  ge : 0x80 ≤ b.toNat
  le : b.toNat ≤ 0xBF

/-- The bytes of one character. -/
inductive IsChar : List UInt8 → Prop where
  | one {a : UInt8} : a.toNat ≤ 0x7F → IsChar [a]
  /-- `C0` and `C1` could only begin a form that is too long. -/
  | two {a b : UInt8} : 0xC2 ≤ a.toNat → a.toNat ≤ 0xDF → IsTail b → IsChar [a, b]
  /-- After `E0` no form that is too long, after `ED` no surrogate. -/
  | three {a b c : UInt8} : 0xE0 ≤ a.toNat → a.toNat ≤ 0xEF → IsTail b → IsTail c →
    (a.toNat = 0xE0 → 0xA0 ≤ b.toNat) → (a.toNat = 0xED → b.toNat ≤ 0x9F) → IsChar [a, b, c]
  /-- After `F0` no form that is too long, after `F4` nothing beyond the last code point. -/
  | four {a b c d : UInt8} : 0xF0 ≤ a.toNat → a.toNat ≤ 0xF4 → IsTail b → IsTail c → IsTail d →
    (a.toNat = 0xF0 → 0x90 ≤ b.toNat) → (a.toNat = 0xF4 → b.toNat ≤ 0x8F) → IsChar [a, b, c, d]

/-- The bytes of any number of characters, one after the other. -/
inductive WellFormed : List UInt8 → Prop where
  | nil : WellFormed []
  | cons {char rest : List UInt8} : IsChar char → WellFormed rest → WellFormed (char ++ rest)

/-! ## by code points -/

theorem toNat_byte {n : Nat} (h : n < 256) : (UInt8.ofNat n).toNat = n :=
  UInt8.toNat_ofNat_of_lt' (by simpa [UInt8.size] using h)

theorem isTail_byte {n : Nat} (hge : 0x80 ≤ n) (hle : n ≤ 0xBF) : IsTail (UInt8.ofNat n) := by
  have hn := toNat_byte (n := n) (by omega)
  exact ⟨by omega, by omega⟩

/-- The numbers of characters: all up to the last code point, but for the surrogates. -/
theorem exists_char {n : Nat} (hn : n < 0xD800 ∨ 0xDFFF < n ∧ n < 0x110000) :
    ∃ c : Char, c.val.toNat = n :=
  ⟨⟨UInt32.ofNatLT n (by simp [UInt32.size]; omega), Char.isValidChar_of_isValidCharNat n hn⟩,
    UInt32.toNat_ofNatLT⟩

/-! ### what encodes a character -/

section
variable {c : Char} {n : Nat} (hc : c.val.toNat = n)
include hc

theorem encode_one (hle : n ≤ 0x7F) : String.utf8EncodeChar c = [UInt8.ofNat n] := by
  unfold String.utf8EncodeChar
  dsimp only
  rw [hc, if_pos hle]

theorem encode_two (hlt : 0x7F < n) (hle : n ≤ 0x7FF) : String.utf8EncodeChar c
    = [UInt8.ofNat (n / 64 % 32 + 0xC0), UInt8.ofNat (n % 64 + 0x80)] := by
  unfold String.utf8EncodeChar
  dsimp only
  rw [hc, if_neg (by omega), if_pos hle]

theorem encode_three (hlt : 0x7FF < n) (hle : n ≤ 0xFFFF) : String.utf8EncodeChar c
    = [UInt8.ofNat (n / 4096 % 16 + 0xE0), UInt8.ofNat (n / 64 % 64 + 0x80),
      UInt8.ofNat (n % 64 + 0x80)] := by
  unfold String.utf8EncodeChar
  dsimp only
  rw [hc, if_neg (by omega), if_neg (by omega), if_pos hle]

theorem encode_four (hlt : 0xFFFF < n) : String.utf8EncodeChar c
    = [UInt8.ofNat (n / 262144 % 8 + 0xF0), UInt8.ofNat (n / 4096 % 64 + 0x80),
      UInt8.ofNat (n / 64 % 64 + 0x80), UInt8.ofNat (n % 64 + 0x80)] := by
  unfold String.utf8EncodeChar
  dsimp only
  rw [hc, if_neg (by omega), if_neg (by omega), if_neg (by omega)]

end

/-- What encodes a character is the bytes of one. -/
theorem isChar_encode (c : Char) : IsChar (String.utf8EncodeChar c) := by
  obtain ⟨n, hc⟩ : ∃ n, c.val.toNat = n := ⟨_, rfl⟩
  have hvalid : c.val.toNat < 0xD800 ∨ 0xDFFF < c.val.toNat ∧ c.val.toNat < 0x110000 := c.valid
  rw [hc] at hvalid
  by_cases hone : n ≤ 0x7F
  · have hfirst := toNat_byte (n := n) (by omega)
    rw [encode_one hc hone]
    exact .one (by omega)
  by_cases htwo : n ≤ 0x7FF
  · have hfirst := toNat_byte (n := n / 64 % 32 + 0xC0) (by omega)
    rw [encode_two hc (by omega) htwo]
    exact .two (by omega) (by omega) (isTail_byte (by omega) (by omega))
  by_cases hthree : n ≤ 0xFFFF
  · have hfirst := toNat_byte (n := n / 4096 % 16 + 0xE0) (by omega)
    have hsecond := toNat_byte (n := n / 64 % 64 + 0x80) (by omega)
    rw [encode_three hc (by omega) hthree]
    exact .three (by omega) (by omega) (isTail_byte (by omega) (by omega))
      (isTail_byte (by omega) (by omega)) (by omega) (by omega)
  · have hfirst := toNat_byte (n := n / 262144 % 8 + 0xF0) (by omega)
    have hsecond := toNat_byte (n := n / 4096 % 64 + 0x80) (by omega)
    rw [encode_four hc (by omega)]
    exact .four (by omega) (by omega) (isTail_byte (by omega) (by omega))
      (isTail_byte (by omega) (by omega)) (isTail_byte (by omega) (by omega)) (by omega)
      (by omega)

/-- The bytes of a character encode one.  Its number is put together from the bits that the first
byte has to spare and six bits of every byte that continues it. -/
theorem IsChar.exists_encode {bytes : List UInt8} (h : IsChar bytes) :
    ∃ c : Char, String.utf8EncodeChar c = bytes := by
  have hbyte : ∀ {n : Nat} {b : UInt8}, n = b.toNat → UInt8.ofNat n = b :=
    fun h => h ▸ UInt8.ofNat_toNat
  cases h with
  | @one a ha =>
    obtain ⟨c, hc⟩ := exists_char (n := a.toNat) (by omega)
    refine ⟨c, ?_⟩
    rw [encode_one hc ha, hbyte rfl]
  | @two a b hlow hhigh hb =>
    have ⟨hb1, hb2⟩ := hb
    obtain ⟨c, hc⟩ := exists_char (n := (a.toNat - 0xC0) * 64 + (b.toNat - 0x80)) (by omega)
    refine ⟨c, ?_⟩
    rw [encode_two hc (by omega) (by omega), hbyte (b := a) (by omega), hbyte (b := b) (by omega)]
  | @three a b d hlow hhigh hb hd hlong hsurrogate =>
    have ⟨hb1, hb2⟩ := hb
    have ⟨hd1, hd2⟩ := hd
    obtain ⟨c, hc⟩ := exists_char
      (n := (a.toNat - 0xE0) * 4096 + (b.toNat - 0x80) * 64 + (d.toNat - 0x80)) (by omega)
    refine ⟨c, ?_⟩
    rw [encode_three hc (by omega) (by omega), hbyte (b := a) (by omega), hbyte (b := b) (by omega),
      hbyte (b := d) (by omega)]
  | @four a b d e hlow hhigh hb hd he hlong hlast =>
    have ⟨hb1, hb2⟩ := hb
    have ⟨hd1, hd2⟩ := hd
    have ⟨he1, he2⟩ := he
    obtain ⟨c, hc⟩ := exists_char (n := (a.toNat - 0xF0) * 262144 + (b.toNat - 0x80) * 4096
      + (d.toNat - 0x80) * 64 + (e.toNat - 0x80)) (by omega)
    refine ⟨c, ?_⟩
    rw [encode_four hc (by omega), hbyte (b := a) (by omega), hbyte (b := b) (by omega),
      hbyte (b := d) (by omega), hbyte (b := e) (by omega)]

theorem isChar_iff {bytes : List UInt8} :
    IsChar bytes ↔ ∃ c : Char, String.utf8EncodeChar c = bytes := by
  constructor
  · exact IsChar.exists_encode
  · rintro ⟨c, rfl⟩
    exact isChar_encode c

/-- Well-formed is what encodes some characters. -/
theorem wellFormed_iff {bytes : List UInt8} :
    WellFormed bytes ↔ ∃ cs : List Char, cs.flatMap String.utf8EncodeChar = bytes := by
  constructor
  · intro h
    induction h with
    | nil => exact ⟨[], rfl⟩
    | cons hchar _ ih =>
      obtain ⟨c, rfl⟩ := isChar_iff.mp hchar
      obtain ⟨cs, rfl⟩ := ih
      exact ⟨c :: cs, List.flatMap_cons⟩
  · rintro ⟨cs, rfl⟩
    induction cs with
    | nil => exact .nil
    | cons c cs ih =>
      rw [List.flatMap_cons]
      exact .cons (isChar_encode c) ih

theorem isValidUTF8_iff {bytes : ByteArray} :
    bytes.IsValidUTF8 ↔ WellFormed bytes.data.toList := by
  rw [wellFormed_iff]
  constructor
  · rintro ⟨cs, rfl⟩
    exact ⟨cs, List.toList_data_toByteArray.symm⟩
  · rintro ⟨cs, h⟩
    refine ⟨cs, ByteArray.ext ?_⟩
    show _ = (cs.flatMap String.utf8EncodeChar).toByteArray.data
    rw [List.data_toByteArray, h, Array.toArray_toList]

end Uplink.Utf8
