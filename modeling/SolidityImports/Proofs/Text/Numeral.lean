import Mathlib.Data.List.Induction
import SolidityImports.Text.Numeral

/-! # Numerals

The numeral of a number has no zero in front of other digits, and is the only such run of digits that
stands for the number. Main statement: such a run is the numeral of the number that it stands for. -/

namespace SolidityImports.Text

/-! ## The digits of a number -/

theorem isDigit_decimalDigit {n : Nat} (h : n < 10) : (decimalDigit n).isDigit := by
  have hdigit : ∀ k : Fin 10, (decimalDigit k).isDigit := by decide
  exact hdigit ⟨n, h⟩

theorem isDigit_of_mem_ofNat {n : Nat} {c : Char} (h : c ∈ ofNat n) : c.isDigit := by
  induction n using ofNat.induct with
  | case1 n hn =>
    rw [ofNat, if_pos hn, List.mem_singleton] at h
    rw [h]
    exact isDigit_decimalDigit hn
  | case2 n hn ih =>
    rw [ofNat, if_neg hn, List.mem_append, List.mem_singleton] at h
    rcases h with h | rfl
    · exact ih h
    · exact isDigit_decimalDigit (Nat.mod_lt n (by decide))

/-- The numeral of a positive number does not start with a zero. -/
theorem exists_ofNat_eq_cons {n : Nat} (h : 0 < n) : ∃ c ds, ofNat n = c :: ds ∧ c ≠ '0' := by
  induction n using ofNat.induct with
  | case1 n hn =>
    have hne : ∀ k : Fin 10, 0 < k.val → decimalDigit k ≠ '0' := by decide
    exact ⟨_, [], by rw [ofNat, if_pos hn], hne ⟨n, hn⟩ h⟩
  | case2 n hn ih =>
    obtain ⟨c, ds, hdigits, hc⟩ := ih (by omega)
    exact ⟨c, ds ++ [decimalDigit (n % 10)], by rw [ofNat, if_neg hn, hdigits]; rfl, hc⟩

theorem exists_isDigit_ofNat_eq_cons (n : Nat) : ∃ c ds, ofNat n = c :: ds ∧ c.isDigit := by
  cases h : ofNat n with
  | nil =>
    rw [ofNat] at h
    split at h <;> simp at h
  | cons c ds => exact ⟨c, ds, rfl, isDigit_of_mem_ofNat (h ▸ List.mem_cons_self)⟩

theorem ofNat_of_lt {n : Nat} (h : n < 10) : ofNat n = [decimalDigit n] := by
  rw [ofNat, if_pos h]

/-- Each further digit comes behind the numeral that is there. -/
theorem ofNat_ten_mul_add {n k : Nat} (hn : 0 < n) (hk : k < 10) :
    ofNat (10 * n + k) = ofNat n ++ [decimalDigit k] := by
  rw [ofNat, if_neg (by omega)]
  congr 3 <;> omega

/-! ## The number of digits -/

/-- ASCII digits, at least one, of which the first is a zero only if it is the only one. -/
structure IsNumeral (s : Text) : Prop where
  ne_nil : s ≠ []
  digit : ∀ c ∈ s, c.isDigit
  lead : s.head? = some '0' → s = ['0']

theorem isDigits_iff {s : Text} : isDigits s ↔ s ≠ [] ∧ ∀ c ∈ s, c.isDigit := by
  simp [isDigits]

theorem IsNumeral.isDigits {s : Text} (h : s.IsNumeral) : s.isDigits :=
  isDigits_iff.2 ⟨h.ne_nil, h.digit⟩

/-- A digit is the digit of its value. -/
theorem exists_eq_decimalDigit {c : Char} (h : c.isDigit) :
    ∃ k < 10, c.toNat - 48 = k ∧ c = decimalDigit k := by
  obtain ⟨hlo, hhi⟩ : 48 ≤ c.toNat ∧ c.toNat ≤ 57 := Char.isDigit_iff_toNat.1 h
  refine ⟨c.toNat - 48, by omega, rfl, ?_⟩
  rw [decimalDigit, Nat.add_sub_cancel' hlo, Char.ofNat_toNat]

theorem natValue_concat (s : Text) (c : Char) :
    natValue (s ++ [c]) = 10 * natValue s + (c.toNat - 48) := by
  simp [natValue]

/-- Digits behind one that is not zero stand for a positive number, and are its numeral. -/
theorem ofNat_natValue_of_head?_ne {s : Text} (hne : s ≠ []) (hdigit : ∀ c ∈ s, c.isDigit)
    (hhead : s.head? ≠ some '0') : 0 < natValue s ∧ ofNat (natValue s) = s := by
  induction s using List.reverseRecOn with
  | nil => contradiction
  | append_singleton s c ih =>
    obtain ⟨hs, hc⟩ := List.forall_mem_append.1 hdigit
    obtain ⟨k, hk, hvalue, rfl⟩ := exists_eq_decimalDigit (hc c (List.mem_singleton.2 rfl))
    rw [natValue_concat, hvalue]
    by_cases hnil : s = []
    · subst hnil
      have hpos : k ≠ 0 := by
        rintro rfl
        exact hhead rfl
      have hzero : natValue [] = 0 := rfl
      rw [hzero, Nat.mul_zero, Nat.zero_add, ofNat_of_lt hk]
      exact ⟨Nat.pos_of_ne_zero hpos, rfl⟩
    · rw [List.head?_append, Option.or_of_isSome (by simpa using hnil)] at hhead
      obtain ⟨hpos, heq⟩ := ih hnil hs hhead
      refine ⟨by omega, ?_⟩
      rw [ofNat_ten_mul_add hpos hk, heq]

/-- A numeral is the numeral of the number that it stands for. -/
theorem IsNumeral.ofNat_natValue {s : Text} (h : s.IsNumeral) : ofNat (natValue s) = s := by
  by_cases hhead : s.head? = some '0'
  · rw [h.lead hhead]
    exact ofNat_of_lt (by decide)
  · exact (ofNat_natValue_of_head?_ne h.ne_nil h.digit hhead).2

theorem isNumeral_ofNat (n : Nat) : (ofNat n).IsNumeral where
  ne_nil := by
    obtain ⟨c, ds, hdigits, -⟩ := exists_isDigit_ofNat_eq_cons n
    simp [hdigits]
  digit := fun _ ↦ isDigit_of_mem_ofNat
  lead := by
    intro hhead
    rcases Nat.eq_zero_or_pos n with rfl | hn
    · exact ofNat_of_lt (by decide)
    · obtain ⟨c, ds, hdigits, hc⟩ := exists_ofNat_eq_cons hn
      rw [hdigits] at hhead
      exact absurd (Option.some.inj hhead) hc

end SolidityImports.Text
