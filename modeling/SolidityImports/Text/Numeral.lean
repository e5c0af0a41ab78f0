import SolidityImports.Text.Basic

/-! # Decimal numerals

Writing a number and reading it. Main statement: a number is read back from its numeral. -/

namespace SolidityImports.Text

/-- The decimal digit of a number below ten. -/
def decimalDigit (n : Nat) : Char := Char.ofNat (48 + n)

/-- The numeral of a number, without leading zeros. -/
def ofNat (n : Nat) : Text :=
  if n < 10 then [decimalDigit n] else ofNat (n / 10) ++ [decimalDigit (n % 10)]

/-- The numeral of an integer: negative numbers have a minus sign. -/
def ofInt (n : Int) : Text := if n < 0 then '-' :: ofNat n.natAbs else ofNat n.natAbs

/-- Whether a text is a run of ASCII digits, at least one. -/
def isDigits (s : Text) : Bool := s ≠ [] && s.all Char.isDigit

/-- The number that decimal digits stand for. -/
def natValue (s : Text) : Nat := s.foldl (fun n c ↦ 10 * n + (c.toNat - 48)) 0

theorem toNat_decimalDigit {n : Nat} (h : n < 10) : (decimalDigit n).toNat = 48 + n := by
  have : ∀ k : Fin 10, (decimalDigit k).toNat = 48 + k := by decide
  exact this ⟨n, h⟩

@[simp] theorem natValue_ofNat (n : Nat) : natValue (ofNat n) = n := by
  induction n using Nat.strongRecOn with
  | _ n ih =>
    unfold ofNat
    split
    · simp [natValue, toNat_decimalDigit, *]
    · have h := ih (n / 10) (by omega)
      have hd : (decimalDigit (n % 10)).toNat = 48 + n % 10 := toNat_decimalDigit (by omega)
      simp only [natValue] at h ⊢
      rw [List.foldl_append, h]
      simp [hd]
      omega

end SolidityImports.Text
