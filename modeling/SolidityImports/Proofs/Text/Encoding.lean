import SolidityImports.Text.Bytes

/-! # The bytes of a character

A character is one byte in ASCII and otherwise several bytes that are none of ASCII. Main statements:
the byte of an ASCII character is part of no other one; and texts are equal when their letters are
lowercased exactly if their bytes are, in both cases those of ASCII alone. -/

namespace SolidityImports

open Text

variable {s : Text} {c : Char}

theorem utf8EncodeChar_of_lt (h : c.toNat < 0x80) :
    String.utf8EncodeChar c = [.ofNat c.toNat] := by
  have hval : c.val.toNat ≤ 127 := Nat.le_of_lt_succ h
  rw [String.utf8EncodeChar.eq_1, if_pos hval]
  rfl

/-- A character is one byte in ASCII; otherwise bytes from `80` on, and the second one is below `A0`
if the first one is `ED`, where the halves of surrogate pairs would be. -/
theorem utf8EncodeChar_cases (c : Char) :
    (c.toNat < 0x80 ∧ String.utf8EncodeChar c = [.ofNat c.toNat]) ∨
      ∃ lead next bytes, String.utf8EncodeChar c = lead :: next :: bytes ∧ 0x80 ≤ lead.toNat ∧
        (lead = 0xED → next.toNat < 0xA0) ∧ ∀ b ∈ next :: bytes, 0x80 ≤ b.toNat ∧ b.toNat < 0xC0 := by
  have hvalid : c.val.toNat < 0xD800 ∨ 0xDFFF < c.val.toNat ∧ c.val.toNat < 0x110000 := c.valid
  rw [String.utf8EncodeChar.eq_1, Char.toNat]
  generalize c.val.toNat = v at hvalid
  split
  · exact .inl ⟨by omega, rfl⟩
  right
  split
  · refine ⟨_, _, _, rfl, ?_, ?_, ?_⟩
    · simp; omega
    · simp [← UInt8.toNat_inj]; omega
    · simp; omega
  split
  · refine ⟨_, _, _, rfl, ?_, ?_, ?_⟩
    · simp; omega
    · simp [← UInt8.toNat_inj]; omega
    · simp; omega
  · refine ⟨_, _, _, rfl, ?_, ?_, ?_⟩
    · simp; omega
    · simp [← UInt8.toNat_inj]; omega
    · simp; omega

/-- The byte of an ASCII character is part of no other one. -/
theorem mem_of_byte_mem_utf8 (hc : c.toNat < 0x80) (h : UInt8.ofNat c.toNat ∈ s.utf8) : c ∈ s := by
  have hbyte : (UInt8.ofNat c.toNat).toNat = c.toNat := Nat.mod_eq_of_lt (Nat.lt_trans hc (by decide))
  obtain ⟨d, hd, hmem⟩ := List.mem_flatMap.1 h
  rcases utf8EncodeChar_cases d with ⟨hascii, hbytes⟩ | ⟨lead, next, bytes, hbytes, hlead, -, htail⟩
  · rw [hbytes, List.mem_singleton] at hmem
    have hnat := congrArg UInt8.toNat hmem
    rw [hbyte, UInt8.toNat_ofNat', Nat.mod_eq_of_lt (Nat.lt_trans hascii (by decide))] at hnat
    rwa [Char.toNat_inj.1 hnat]
  · have hle : 0x80 ≤ (UInt8.ofNat c.toNat).toNat := by
      rw [hbytes] at hmem
      rcases List.mem_cons.1 hmem with hmem | hmem
      · rwa [hmem]
      · exact (htail _ hmem).1
    omega

/-- Only NUL has a zero byte. -/
theorem Text.zero_not_mem_utf8 (h : '\x00' ∉ s) : 0 ∉ s.utf8 :=
  fun hzero ↦ h (mem_of_byte_mem_utf8 (by decide) hzero)

/-! ## Lowercase -/

/-- The lowercase of a byte: that of a capital letter of ASCII, and any other byte itself. -/
def lowerByte (b : UInt8) : UInt8 := if 0x41 ≤ b ∧ b ≤ 0x5A then b + 0x20 else b

/-- Bytes with the capital letters of ASCII in lowercase. -/
def Bytes.lower (b : Bytes) : Bytes := b.map lowerByte

theorem lowerByte_of_le {b : UInt8} (h : 0x80 ≤ b.toNat) : lowerByte b = b := by
  refine if_neg fun hletter ↦ ?_
  have hle : b.toNat ≤ 0x5A := UInt8.le_iff_toNat_le.1 hletter.2
  omega

theorem utf8EncodeChar_toLower (c : Char) :
    String.utf8EncodeChar c.toLower = Bytes.lower (String.utf8EncodeChar c) := by
  by_cases hascii : c.toNat < 0x80
  · have htable : ∀ n < 0x80, String.utf8EncodeChar (Char.ofNat n).toLower =
        Bytes.lower (String.utf8EncodeChar (Char.ofNat n)) := by decide
    simpa only [Char.ofNat_toNat] using htable c.toNat hascii
  · have hlower : c.toLower = c := by
      refine dif_neg fun hletter ↦ ?_
      have hle : c.toNat ≤ 0x5A := UInt32.le_iff_toNat_le.1 hletter.2
      omega
    rcases utf8EncodeChar_cases c with ⟨h, -⟩ | ⟨lead, next, bytes, hbytes, hlead, -, htail⟩
    · exact absurd h hascii
    · have htail' : ∀ b ∈ next :: bytes, lowerByte b = b :=
        fun b hb ↦ lowerByte_of_le (htail b hb).1
      rw [hlower, hbytes, Bytes.lower, List.map_cons, lowerByte_of_le hlead,
        List.map_congr_left htail', List.map_id']

namespace Text

theorem utf8_cons (c : Char) (s : Text) : utf8 (c :: s) = String.utf8EncodeChar c ++ utf8 s := rfl

theorem utf8_injective : Function.Injective utf8 := by
  intro s t h
  have hread := congrArg ofUtf8? h
  rwa [ofUtf8?_utf8, ofUtf8?_utf8, Option.some.injEq] at hread

/-- Bytes are read as a text exactly if they encode one. -/
theorem isSome_ofUtf8?_iff {b : Bytes} : (ofUtf8? b).isSome ↔ ∃ s : Text, b = s.utf8 := by
  constructor
  · intro h
    rw [ofUtf8?, Option.isSome_map, ByteArray.isSome_utf8Decode?_iff] at h
    obtain ⟨s, hs⟩ := h
    exact ⟨s, List.toByteArray_inj.1 hs⟩
  · rintro ⟨s, rfl⟩
    rw [ofUtf8?_utf8]
    rfl

/-- The bytes of lowercased text are the lowercased bytes of the text. -/
theorem utf8_map_toLower (s : Text) : utf8 (s.map Char.toLower) = (utf8 s).lower := by
  induction s with
  | nil => rfl
  | cons c s ih =>
    rw [List.map_cons, utf8_cons, utf8_cons, ih, utf8EncodeChar_toLower]
    exact List.map_append.symm

/-- Texts agree up to the case of ASCII letters exactly if their bytes do. -/
theorem map_toLower_eq_iff {s t : Text} :
    s.map Char.toLower = t.map Char.toLower ↔ s.utf8.lower = t.utf8.lower := by
  rw [← utf8_map_toLower, ← utf8_map_toLower, utf8_injective.eq_iff]

end Text

end SolidityImports
