import Mathlib.Data.Bool.AllAny
import SolidityImports.Json.Printer
import SolidityImports.Json.Reader
import SolidityImports.Proofs.Text.Numeral
import SolidityImports.Proofs.Text.Reading

/-! # Reading back strings and numbers

Each character between quotes is read back from its escapes, which for a character beyond 16 bits are
two. Main statements: strings and integers are read back, whatever follows a string, and up to where
an integer cannot go on. -/

namespace SolidityImports

open Text

namespace Json

variable {style : Style} {half : Option Char} {s rest : Text} {c : Char}

/-! ## Strings -/

/-- A number of 16 bits is read back from its escape. -/
theorem fourDigits?_hexDigits {n : Nat} (h : n < 0x10000) :
    fourDigits? (hexDigits 4 n ++ rest) = some (n, rest) := by
  have hdigits : hexDigits 4 n = [hexDigit (n / 16 / 16 / 16 % 16), hexDigit (n / 16 / 16 % 16),
    hexDigit (n / 16 % 16), hexDigit (n % 16)] := rfl
  have hmod : ∀ m, m % 16 < 16 := fun m ↦ Nat.mod_lt m (by decide)
  simp only [hdigits, List.cons_append, List.nil_append, fourDigits?, hexValue?_hexDigit (hmod _),
    Option.bind_eq_bind, Option.bind_some, Option.pure_def, Option.some.injEq, Prod.mk.injEq,
    and_true]
  omega

/-- The code points leave out the halves of surrogate pairs. -/
theorem toNat_valid (c : Char) : c.toNat < 0xD800 ∨ 0xDFFF < c.toNat ∧ c.toNat < 0x110000 := c.valid

/-- A character of 16 bits is read back from the escape of its code point. -/
theorem codeEscape?_of_lt (h : c.toNat < 0x10000) :
    codeEscape? half (hexDigits 4 c.toNat ++ rest) = some (c, rest) := by
  have hvalid := toNat_valid c
  have hhigh : isHighHalf c.toNat = false := by simp [isHighHalf]; omega
  have hlow : isLowHalf c.toNat = false := by simp [isLowHalf]; omega
  simp [codeEscape?, fourDigits?_hexDigits h, hhigh, hlow, Char.ofNat_toNat]

/-- A pair of halves is read back from the escapes of both. -/
theorem codeEscape?_halves {high low : Nat} (hhigh : isHighHalf high) (hlow : isLowHalf low) :
    codeEscape? half (hexDigits 4 high ++ (unitEscape low ++ rest)) =
      some (.ofNat (joinHalves high low), rest) := by
  have hhighSize : high < 0x10000 := by
    simp only [isHighHalf, Bool.and_eq_true, decide_eq_true_eq] at hhigh
    omega
  have hlowSize : low < 0x10000 := by
    simp only [isLowHalf, Bool.and_eq_true, decide_eq_true_eq] at hlow
    omega
  simp [codeEscape?, unitEscape, fourDigits?_hexDigits hhighSize, fourDigits?_hexDigits hlowSize,
    hhigh, hlow]

/-- Any other character is read back from the escapes of the two halves of its pair. -/
theorem codeEscape?_of_le (h : 0x10000 ≤ c.toNat) :
    codeEscape? half (hexDigits 4 (0xD800 + (c.toNat - 0x10000) / 0x400) ++
      (unitEscape (0xDC00 + (c.toNat - 0x10000) % 0x400) ++ rest)) = some (c, rest) := by
  have hvalid := toNat_valid c
  have hjoin : joinHalves (0xD800 + (c.toNat - 0x10000) / 0x400)
      (0xDC00 + (c.toNat - 0x10000) % 0x400) = c.toNat := by
    unfold joinHalves
    omega
  rw [codeEscape?_halves ?_ ?_, hjoin, Char.ofNat_toNat]
  · simp only [isHighHalf, Bool.and_eq_true, decide_eq_true_eq]
    omega
  · simp only [isLowHalf, Bool.and_eq_true, decide_eq_true_eq]
    omega

/-- The characters that are escaped by one letter. -/
def letters : List Char := ['"', '\\', '\x08', '\x0c', '\n', '\r', '\t']

theorem charText_of_not_mem (hc : c ∉ letters) : charText style c =
    if c.toNat < 0x20 ∨ (style.onlyAscii ∧ 0x7E < c.toNat) then
      if c.toNat < 0x10000 then unitEscape c.toNat
      else unitEscape (0xD800 + (c.toNat - 0x10000) / 0x400) ++
        unitEscape (0xDC00 + (c.toNat - 0x10000) % 0x400)
    else [c] := by
  simp only [letters, List.mem_cons, List.not_mem_nil, or_false, not_or] at hc
  simp only [charText, hc, if_false]

/-- A character is read back as it is written between quotes. -/
theorem character?_charText (style : Style) (c : Char) (rest : Text) :
    character? half (charText style c ++ rest) = some (c, rest) := by
  by_cases hc : c ∈ letters
  · have hread : ∀ c ∈ letters, character? half (charText style c ++ rest) = some (c, rest) := by
      simp only [letters, List.forall_mem_cons]
      exact ⟨rfl, rfl, rfl, rfl, rfl, rfl, rfl, nofun⟩
    exact hread c hc
  · rw [charText_of_not_mem hc]
    split
    · split
      · rename_i hsmall
        exact codeEscape?_of_lt hsmall
      · rename_i hlarge
        rw [List.append_assoc]
        exact codeEscape?_of_le (Nat.le_of_not_lt hlarge)
    · rename_i hplain
      have hslash : c ≠ '\\' := fun heq ↦ hc (heq ▸ by decide)
      have hcontrol : ¬ c.toNat < 0x20 := fun hlt ↦ hplain (.inl hlt)
      simp [character?, hslash, hcontrol]

theorem charText_of_mem (style : Style) : ∀ c ∈ letters, ∃ d ∈ ['"', '\\', 'b', 'f', 'n', 'r', 't'],
    charText style c = ['\\', d] := by
  simp only [letters, List.forall_mem_cons]
  refine ⟨⟨_, ?_, rfl⟩, ⟨_, ?_, rfl⟩, ⟨_, ?_, rfl⟩, ⟨_, ?_, rfl⟩, ⟨_, ?_, rfl⟩, ⟨_, ?_, rfl⟩,
    ⟨_, ?_, rfl⟩, nofun⟩
  all_goals decide

/-- A character starts with no quote as it is written between quotes. -/
theorem exists_charText_eq_cons (style : Style) (c : Char) :
    ∃ d t, charText style c = d :: t ∧ d ≠ '"' := by
  by_cases hc : c ∈ letters
  · obtain ⟨d, -, htext⟩ := charText_of_mem style c hc
    exact ⟨'\\', [d], htext, by decide⟩
  · rw [charText_of_not_mem hc]
    split
    · split <;> exact ⟨_, _, rfl, by decide⟩
    · exact ⟨c, [], rfl, fun heq ↦ hc (heq ▸ by decide)⟩

theorem characters?_flatMap_charText {n : Nat} (h : s.length < n) :
    characters? half n (s.flatMap (charText style) ++ '"' :: rest) = some (s, rest) := by
  induction s generalizing n with
  | nil =>
    cases n with
    | zero => contradiction
    | succ n => rfl
  | cons c s ih =>
    cases n with
    | zero => contradiction
    | succ n =>
      obtain ⟨d, t, htext, hd⟩ := exists_charText_eq_cons style c
      have hread : character? half (charText style c ++
          (s.flatMap (charText style) ++ '"' :: rest)) = _ := character?_charText style c _
      rw [htext, List.cons_append] at hread
      simp [htext, characters?, hd, hread, ih (Nat.lt_of_succ_lt_succ h)]

/-- A string is read back, whatever follows it. -/
theorem string?_flatMap_charText :
    string? half (s.flatMap (charText style) ++ '"' :: rest) = some (s, rest) := by
  have hlength : s.length ≤ (s.flatMap (charText style)).length := by
    induction s with
    | nil => exact Nat.le_refl _
    | cons c s ih =>
      obtain ⟨d, t, htext, -⟩ := exists_charText_eq_cons style c
      rw [List.flatMap_cons, htext, List.length_append, List.length_cons, List.length_cons]
      omega
  apply characters?_flatMap_charText
  rw [List.length_append]
  omega

/-! ## Words and numbers -/

/-- What can follow a value: the end, a comma or a closing bracket. -/
def EndsValue (s : Text) : Prop := ∀ c ∈ s.head?, c ∈ [',', ']', '}']

theorem EndsValue.startsOff (h : EndsValue rest) : StartsOff Char.isDigit rest := by
  intro c hc
  have hdigit : ∀ c ∈ [',', ']', '}'], c.isDigit = false := List.all_iff_forall_prop.1 (by decide)
  exact hdigit c (h c hc)

/-- A numeral is read as a whole number up to where it ends. -/
theorem wholePart?_ofNat {n : Nat} (hrest : StartsOff Char.isDigit rest) :
    wholePart? (ofNat n ++ rest) = some (ofNat n, rest) := by
  have hdigits : digits (ofNat n ++ rest) = (ofNat n, rest) :=
    Prod.ext_iff.2 (takeWhile_eq_and_dropWhile_eq_iff.2
      ⟨rfl, fun c hc ↦ isDigit_of_mem_ofNat hc, hrest⟩)
  rcases Nat.eq_zero_or_pos n with rfl | hn
  · rw [ofNat, if_pos (by decide)]
    rfl
  · obtain ⟨c, ds, htext, hc⟩ := exists_ofNat_eq_cons hn
    rw [htext, List.cons_append] at hdigits ⊢
    simp [wholePart?, hc, hdigits]

/-- A numeral that ends a value is an integer. -/
theorem unsigned?_ofNat {n : Nat} (negative : Bool) (hrest : EndsValue rest) :
    unsigned? negative (ofNat n ++ rest) = some (.int (if negative then -n else n), rest) := by
  have hfraction : fraction rest = ([], rest) := by
    cases rest with
    | nil => rfl
    | cons c rest =>
      have hc : c ≠ '.' := by
        rintro rfl
        exact absurd (hrest _ rfl) (by decide)
      simp [fraction, hc]
  have hpower : power rest = (none, rest) := by
    cases rest with
    | nil => rfl
    | cons c rest =>
      have hc : ¬ (c = 'e' ∨ c = 'E') := by
        rintro (rfl | rfl) <;> exact absurd (hrest _ rfl) (by decide)
      simp [power, hc]
  simp [unsigned?, wholePart?_ofNat hrest.startsOff, hfraction, hpower]

theorem findSome?_words_eq_none (h : ∀ w ∈ words.map Prod.fst, Text.after? w s = none) :
    (words.findSome? fun (w, v) ↦ (Text.after? w s).map (v, ·)) = none := by
  rw [List.findSome?_eq_none_iff]
  rintro ⟨w, v⟩ hw
  have hnone : Text.after? w s = none := h w (List.mem_map_of_mem hw)
  simp only [hnone, Option.map_none]

/-- Where no word can start, there is only a number to read. -/
theorem atom?_of_isDigit (hc : c.isDigit) : atom? (c :: s) = unsigned? false (c :: s) := by
  have hne : ∀ d ∈ ['n', 't', 'f', 'N', 'I', '-'], d ≠ c := by
    rintro d hd rfl
    have hdigit : ∀ d ∈ ['n', 't', 'f', 'N', 'I', '-'], d.isDigit = false :=
      List.all_iff_forall_prop.1 (by decide)
    simp [hdigit d hd] at hc
  simp only [List.forall_mem_cons] at hne
  have hwords := findSome?_words_eq_none (s := c :: s) (by
    simp [words, Text.of, Text.after?, hne])
  rw [atom?, hwords]
  simp [hne.2.2.2.2.2.1.symm]

theorem atom?_neg_of_isDigit (hc : c.isDigit) : atom? ('-' :: c :: s) = unsigned? true (c :: s) := by
  have hne : 'I' ≠ c := by
    rintro rfl
    exact absurd hc (by decide)
  have hwords := findSome?_words_eq_none (s := '-' :: c :: s) (by
    simp [words, Text.of, Text.after?, hne])
  rw [atom?, hwords]

/-- An integer is read back. -/
theorem atom?_ofInt (n : Int) (hrest : EndsValue rest) :
    atom? (ofInt n ++ rest) = some (.int n, rest) := by
  obtain ⟨c, ds, htext, hc⟩ := exists_isDigit_ofNat_eq_cons n.natAbs
  have hread : ∀ negative, unsigned? negative (c :: (ds ++ rest)) =
      some (.int (if negative then -n.natAbs else n.natAbs), rest) := by
    intro negative
    rw [← List.cons_append, ← htext, unsigned?_ofNat negative hrest]
  unfold ofInt
  split
  · rw [htext, List.cons_append, List.cons_append, atom?_neg_of_isDigit hc, hread]
    congr 3
    simp only [if_true]
    omega
  · rw [htext, List.cons_append, atom?_of_isDigit hc, hread]
    congr 3
    simp only [Bool.false_eq_true, if_false]
    omega

theorem exists_word_eq_cons : ∀ x ∈ words, ∃ c t, x.1 = c :: t ∧ c ∉ ['"', '[', '{'] := by
  simp only [words, List.forall_mem_cons]
  refine ⟨?_, ?_, ?_, ?_, ?_, ?_, nofun⟩
  all_goals exact ⟨_, _, rfl, by decide⟩

/-- A word is read as the value it stands for. -/
theorem atom?_word : ∀ x ∈ words, atom? (x.1 ++ rest) = some (x.2, rest) := by
  simp only [words, List.forall_mem_cons]
  exact ⟨rfl, rfl, rfl, rfl, rfl, rfl, nofun⟩

end Json

end SolidityImports
