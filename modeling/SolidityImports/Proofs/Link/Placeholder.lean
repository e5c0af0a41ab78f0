import Mathlib.Data.List.DropRight
import SolidityImports.Link.Placeholder

/-! # What placeholders tell apart

A placeholder has a fixed width, which a hash fills with its digits and a name with underscores. Main
statement: two libraries have the same placeholder exactly if their hashes agree, or in the older form
if the starts of their names do, but for underscores at the end. -/

namespace SolidityImports.Link

open Text

variable {b : Bytes} {c : Char}

/-! ## Hashes -/

/-- The digits of ASCII and the small letters up to `f`. -/
def IsHexDigit (c : Char) : Prop := '0' ≤ c ∧ c ≤ '9' ∨ 'a' ≤ c ∧ c ≤ 'f'

instance (c : Char) : Decidable (IsHexDigit c) :=
  inferInstanceAs (Decidable ('0' ≤ c ∧ c ≤ '9' ∨ 'a' ≤ c ∧ c ≤ 'f'))

theorem isHexDigit_of_mem_hex (h : c ∈ b.hex) : IsHexDigit c := by
  obtain ⟨x, -, hx⟩ := List.mem_flatMap.1 h
  obtain ⟨k, hk, rfl⟩ := exists_of_mem_hexDigits hx
  have hdigit : ∀ k : Fin 16, IsHexDigit (hexDigit k) := by decide
  exact hdigit ⟨k, hk⟩

theorem hashPlaceholder_eq (name : LibraryName) :
    hashPlaceholder name = '$' :: ((libraryHash name).hex ++ ['$']) := rfl

theorem hashPlaceholder_eq_iff (a b : LibraryName) :
    hashPlaceholder a = hashPlaceholder b ↔ libraryHash a = libraryHash b := by
  rw [hashPlaceholder_eq, hashPlaceholder_eq, List.cons_inj_right, List.append_left_inj]
  exact ⟨Bytes.hex_injective, congrArg Bytes.hex⟩

/-! ## Names -/

/-- The part of a name that the older placeholder shows. -/
def shownName (name : Text) : Text := (name.take placeholderLength).rdropWhile (· = '_')

/-- Nothing but underscores is dropped at the end of a text. -/
theorem exists_eq_rdropWhile_append (s : Text) :
    ∃ n, s = s.rdropWhile (· = '_') ++ List.replicate n '_' := by
  have hall : ∀ c ∈ s.rtakeWhile (· = '_'), c = '_' := by
    intro c hc
    simpa using List.mem_rtakeWhile_imp hc
  refine ⟨(s.rtakeWhile (· = '_')).length, ?_⟩
  rw [← List.eq_replicate_of_mem hall, List.rdropWhile_append_rtakeWhile]

theorem rdropWhile_append_replicate (s : Text) (n : Nat) :
    (s ++ List.replicate n '_').rdropWhile (· = '_') = s.rdropWhile (· = '_') := by
  induction n with
  | zero => rw [List.replicate_zero, List.append_nil]
  | succ n ih =>
    rw [List.replicate_succ', ← List.append_assoc, List.rdropWhile_concat_pos _ _ _ (by decide), ih]

theorem rdropWhile_namePlaceholder (name : Text) :
    (namePlaceholder name).rdropWhile (· = '_') = shownName name :=
  rdropWhile_append_replicate _ _

/-- The older placeholder shows the start of a name, and underscores as far as there is room. -/
theorem namePlaceholder_eq (name : Text) : namePlaceholder name =
    shownName name ++ List.replicate (placeholderLength - (shownName name).length) '_' := by
  obtain ⟨n, hn⟩ := exists_eq_rdropWhile_append (namePlaceholder name)
  have hlength := congrArg List.length hn
  rw [rdropWhile_namePlaceholder] at hn hlength
  rw [length_namePlaceholder, List.length_append, List.length_replicate] at hlength
  rw [hlength, Nat.add_sub_cancel_left]
  exact hn

theorem namePlaceholder_eq_iff (a b : Text) :
    namePlaceholder a = namePlaceholder b ↔ shownName a = shownName b := by
  constructor
  · intro h
    rw [← rdropWhile_namePlaceholder, ← rdropWhile_namePlaceholder, h]
  · intro h
    rw [namePlaceholder_eq, namePlaceholder_eq, h]

/-! ## Both forms -/

/-- Both placeholders have 36 characters. The newer one holds the digits of the first bytes of the
Keccak-256 hash, from which they are read back, and so tells apart what these bytes do; the older one
tells apart what the start of a name does, but for underscores at its end. -/
theorem placeholders_exact :
    (∀ name, ∃ digits : Text, hashPlaceholder name = '$' :: (digits ++ ['$']) ∧
      (hashPlaceholder name).length = 36 ∧ digits.length = 34 ∧ (∀ c ∈ digits, IsHexDigit c) ∧
      ofHex? digits = some (libraryHash name)) ∧
    (∀ name, (libraryHash name).length = 17) ∧
    (∀ s : Text, libraryHash (.text s) = (Keccak.digest s.utf8).take 17) ∧
    (∀ b : Bytes, libraryHash (.bytes b) = (Keccak.digest b).take 17) ∧
    (∀ s : Text, libraryHash (.text s) = libraryHash (.bytes s.utf8)) ∧
    (∀ s : Text, (namePlaceholder s).length = 36) ∧
    (∀ a b, hashPlaceholder a = hashPlaceholder b ↔ libraryHash a = libraryHash b) ∧
    ∀ a b : Text, namePlaceholder a = namePlaceholder b ↔
      (a.take 36).rdropWhile (· = '_') = (b.take 36).rdropWhile (· = '_') := by
  refine ⟨?_, length_libraryHash, fun _ ↦ rfl, fun _ ↦ rfl, fun _ ↦ rfl, length_namePlaceholder,
    hashPlaceholder_eq_iff, namePlaceholder_eq_iff⟩
  intro name
  refine ⟨(libraryHash name).hex, hashPlaceholder_eq name, length_hashPlaceholder name, ?_,
    fun c ↦ isHexDigit_of_mem_hex, Bytes.ofHex?_hex _⟩
  rw [Bytes.length_hex, length_libraryHash]
  rfl

/-- The placeholder that a compiler leaves for a library, named by a text or by the bytes of it, and
two libraries whose names start alike for the older form. -/
theorem placeholders_math :
    hashPlaceholder (.text (.of "src/libraries/Math.sol:Math")) =
        .of "$064f527a8f482c84819e4cea6f08a00624$" ∧
      hashPlaceholder (.bytes (utf8 (.of "src/libraries/Math.sol:Math"))) =
        .of "$064f527a8f482c84819e4cea6f08a00624$" ∧
      namePlaceholder (.of "lib/forge-std/src/console.sol:console") =
        namePlaceholder (.of "lib/forge-std/src/console.sol:console2") := by
  obtain ⟨-, -, htext, -, hbytes, -, hiff, hname⟩ := placeholders_exact
  have hmath : hashPlaceholder (.text (.of "src/libraries/Math.sol:Math")) =
      .of "$064f527a8f482c84819e4cea6f08a00624$" := by
    rw [hashPlaceholder_eq, htext]
    decide +kernel
  refine ⟨hmath, ?_, (hname _ _).2 (by decide)⟩
  rw [← (hiff _ _).2 (hbytes _)]
  exact hmath

end SolidityImports.Link
