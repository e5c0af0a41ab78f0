import SolidityImports.Text.Basic

/-! # Bytes

Text as UTF-8 bytes, and bytes as hexadecimal digits. Main statements: text is read back from its
bytes, and bytes from their digits. -/

namespace SolidityImports

/-- The content of a file. -/
abbrev Bytes := List UInt8

namespace Text

/-- The UTF-8 bytes of a text. -/
def utf8 (s : Text) : Bytes := s.flatMap String.utf8EncodeChar

/-- The number of UTF-8 bytes of a text. -/
def utf8Size (s : Text) : Nat := (utf8 s).length

/-- The text that bytes encode; `none` if they are not UTF-8. -/
def ofUtf8? (b : Bytes) : Option Text := b.toByteArray.utf8Decode?.map Array.toList

@[simp] theorem ofUtf8?_utf8 (s : Text) : ofUtf8? (utf8 s) = some s := by
  have h : (utf8 s).toByteArray = s.utf8Encode := rfl
  simp [ofUtf8?, h]

@[simp] theorem utf8_append (s t : Text) : utf8 (s ++ t) = utf8 s ++ utf8 t := by
  simp [utf8]

@[simp] theorem utf8Size_append (s t : Text) : utf8Size (s ++ t) = utf8Size s + utf8Size t := by
  simp [utf8Size]

/-- The lowercase digit of a number below 16. -/
def hexDigit (n : Nat) : Char := Char.ofNat (if n < 10 then 48 + n else 87 + n)

/-- The value of a hexadecimal digit in either case. -/
def hexValue? (c : Char) : Option Nat :=
  if '0' ≤ c ∧ c ≤ '9' then some (c.toNat - 48)
  else if 'a' ≤ c ∧ c ≤ 'f' then some (c.toNat - 87)
  else if 'A' ≤ c ∧ c ≤ 'F' then some (c.toNat - 55)
  else none

/-- The last `width` hexadecimal digits of a number. -/
def hexDigits : Nat → Nat → Text
  | 0, _ => []
  | width + 1, n => hexDigits width (n / 16) ++ [hexDigit (n % 16)]

/-- The bytes that pairs of hexadecimal digits stand for. -/
def ofHex? : Text → Option Bytes
  | [] => some []
  | [_] => none
  | c :: d :: s => do
    let high ← hexValue? c
    let low ← hexValue? d
    return UInt8.ofNat (16 * high + low) :: (← ofHex? s)

@[simp] theorem length_hexDigits (width n : Nat) : (hexDigits width n).length = width := by
  induction width generalizing n with
  | zero => rfl
  | succ width ih => simp [hexDigits, ih]

theorem exists_of_mem_hexDigits {width n : Nat} {c : Char} (h : c ∈ hexDigits width n) :
    ∃ k < 16, c = hexDigit k := by
  induction width generalizing n with
  | zero => cases h
  | succ width ih =>
    rw [hexDigits, List.mem_append, List.mem_singleton] at h
    rcases h with h | rfl
    · exact ih h
    · exact ⟨n % 16, Nat.mod_lt n (by decide), rfl⟩

/-- A hexadecimal digit is read back. -/
theorem hexValue?_hexDigit {n : Nat} (h : n < 16) : hexValue? (hexDigit n) = some n := by
  have hread : ∀ k : Fin 16, hexValue? (hexDigit k) = some k.val := by decide
  exact hread ⟨n, h⟩

end Text

namespace Bytes

/-- Bytes as two lowercase hexadecimal digits each. -/
def hex (b : Bytes) : Text := b.flatMap fun x ↦ Text.hexDigits 2 x.toNat

@[simp] theorem length_hex (b : Bytes) : b.hex.length = 2 * b.length := by
  induction b with
  | nil => rfl
  | cons x b ih =>
    simp only [hex, List.flatMap_cons, List.length_append, Text.length_hexDigits,
      List.length_cons] at ih ⊢
    omega

/-- Bytes are read back from their digits. -/
@[simp] theorem ofHex?_hex (b : Bytes) : Text.ofHex? b.hex = some b := by
  induction b with
  | nil => rfl
  | cons x b ih =>
    have hdigits : hex (x :: b) =
        Text.hexDigit (x.toNat / 16 % 16) :: Text.hexDigit (x.toNat % 16) :: hex b := rfl
    have hmod : ∀ n, n % 16 < 16 := fun n ↦ Nat.mod_lt n (by decide)
    have hvalue : 16 * (x.toNat / 16 % 16) + x.toNat % 16 = x.toNat := by
      have := x.toNat_lt
      omega
    simp only [hdigits, Text.ofHex?, Text.hexValue?_hexDigit (hmod _), ih, hvalue,
      Option.bind_eq_bind, Option.bind_some, Option.pure_def, UInt8.ofNat_toNat]

theorem hex_injective {a b : Bytes} (h : a.hex = b.hex) : a = b := by
  have hread := congrArg Text.ofHex? h
  rwa [ofHex?_hex, ofHex?_hex, Option.some.injEq] at hread

end Bytes

end SolidityImports
