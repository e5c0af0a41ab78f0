import Mathlib.Data.Char
import Mathlib.Data.List.Lex
import SolidityImports.Text.Basic

/-! # The order of texts

Texts are compared character by character. Main statement: sorting by texts puts them into the
lexicographic order of their code points. -/

namespace SolidityImports.Text

/-- The order of texts is the lexicographic order of their characters. -/
theorem le_iff {s t : Text} : s.le t ↔ s ≤ t := by
  induction s generalizing t with
  | nil => exact iff_of_true rfl (not_lt.1 (List.not_lt_nil t))
  | cons c s ih =>
    cases t with
    | nil => exact iff_of_false (by simp [le]) (not_le.2 (List.nil_lt_cons c s))
    | cons d t =>
      simp [le, ih, le_iff_lt_or_eq, List.cons_lt_cons_iff, and_or_left, or_assoc]

theorem pairwise_mergeSort {α : Type} (key : α → Text) (xs : List α) :
    (xs.mergeSort fun a b ↦ (key a).le (key b)).Pairwise fun a b ↦ key a ≤ key b := by
  simp only [← le_iff]
  apply List.pairwise_mergeSort
  · intro a b c hab hbc
    rw [le_iff] at hab hbc ⊢
    exact le_trans hab hbc
  · intro a b
    rw [Bool.or_eq_true, le_iff, le_iff]
    exact le_total (key a) (key b)

end SolidityImports.Text
