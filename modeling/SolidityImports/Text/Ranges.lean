import SolidityImports.Text.Basic

/-! # Character ranges

A class of characters is given by the ranges of its code points. -/

namespace SolidityImports.Text

/-- Whether the code point of a character lies in one of the ranges, ends included. -/
def inRanges (ranges : List (Nat × Nat)) (c : Char) : Bool :=
  ranges.any fun r ↦ r.1 ≤ c.toNat && c.toNat ≤ r.2

/-- Whether no code point lies in a range of both lists. -/
def rangesDisjoint (rs ws : List (Nat × Nat)) : Bool :=
  rs.all fun r ↦ ws.all fun w ↦ r.2 < w.1 || w.2 < r.1

theorem inRanges_eq_false_of_disjoint {rs ws : List (Nat × Nat)} (h : rangesDisjoint rs ws)
    {c : Char} (hc : inRanges rs c) : inRanges ws c = false := by
  simp only [inRanges, List.any_eq_true, List.any_eq_false, rangesDisjoint, List.all_eq_true,
    Bool.and_eq_true, Bool.or_eq_true, decide_eq_true_eq] at *
  obtain ⟨r, hr, hlo, hhi⟩ := hc
  intro w hw ⟨hlo', hhi'⟩
  have := h r hr w hw
  omega

end SolidityImports.Text
