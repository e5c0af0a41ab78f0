import Mathlib.Algebra.GroupWithZero.Nat
import SolidityImports.Proofs.Path.Written
import SolidityImports.Proofs.Text.Size

/-! # Sizes of paths

How many bytes a path takes when it is written. Main statements: a path is no longer than the paths
below it, and steps up take three bytes each. -/

namespace SolidityImports

namespace Segment

theorem name_injective : Function.Injective name := fun _ _ ↦ name.inj

/-- The bytes of segments with a slash behind each. -/
def sizeOf (segments : List Segment) : Nat := (segments.map fun s ↦ s.text.utf8Size + 1).sum

@[simp] theorem sizeOf_nil : sizeOf [] = 0 := rfl

theorem sizeOf_cons (s : Segment) (segments : List Segment) :
    sizeOf (s :: segments) = s.text.utf8Size + 1 + sizeOf segments := by
  simp [sizeOf]

theorem sizeOf_append (segments rest : List Segment) :
    sizeOf (segments ++ rest) = sizeOf segments + sizeOf rest := by
  simp [sizeOf]

theorem sizeOf_replicate_up (k : Nat) : sizeOf (List.replicate k .up) = 3 * k := by
  have hup : Segment.up.text.utf8Size = 2 := by decide
  simp [sizeOf, hup, Nat.mul_comm]

theorem one_lt_sizeOf_singleton (s : Segment) : 1 < sizeOf [s] := by
  have hpos := Text.utf8Size_pos s.text_ne_nil
  simp [sizeOf, hpos]

theorem utf8Size_joinWith (segments : List Segment) :
    (Text.joinWith ['/'] (segments.map text)).utf8Size = sizeOf segments - 1 := by
  induction segments with
  | nil => rfl
  | cons s segments ih =>
    cases segments with
    | nil => simp [Text.joinWith, sizeOf]
    | cons s' segments =>
      have hpos := one_lt_sizeOf_singleton s'
      have hslash : Text.utf8Size ['/'] = 1 := by decide
      simp only [List.map_cons, Text.joinWith_cons_cons, Text.utf8Size_append] at ih ⊢
      rw [ih, hslash, sizeOf_cons s, sizeOf_cons s']
      omega

end Segment

namespace Path

theorem utf8Size_text {p : Path} (h : p ≠ here) :
    p.text.utf8Size = p.anchor.text.utf8Size + (Segment.sizeOf p.segments - 1) := by
  rw [text, if_neg h, Text.utf8Size_append, Segment.utf8Size_joinWith]

theorem utf8Size_text_here : here.text.utf8Size = 1 := by decide

/-- The bytes of a path are those of its anchor and of its segments, with a slash between them. -/
theorem sizeOf_le_utf8Size_text (p : Path) :
    p.anchor.text.utf8Size + Segment.sizeOf p.segments ≤ p.text.utf8Size + 1 := by
  by_cases hp : p = here
  · rw [hp, utf8Size_text_here]
    decide
  · rw [utf8Size_text hp]
    omega

theorem child_ne_here (p : Path) (n : FileName) : p.child n ≠ here := by
  intro h
  have hsegments := congrArg segments h
  simp [here] at hsegments

/-- A path is no longer than the paths below it. -/
theorem utf8Size_text_le_child (p : Path) (n : FileName) :
    p.text.utf8Size ≤ (p.child n).text.utf8Size := by
  have hname := Segment.one_lt_sizeOf_singleton (.name n)
  rw [utf8Size_text (child_ne_here p n), anchor_child, segments_child, Segment.sizeOf_append]
  by_cases hp : p = here
  · rw [hp, utf8Size_text_here]
    omega
  · rw [utf8Size_text hp]
    omega

/-- The path that leads on from `p` down a list of names. -/
def below (p : Path) (names : List FileName) : Path := ⟨p.anchor, p.segments ++ names.map .name⟩

@[simp] theorem below_nil (p : Path) : p.below [] = p := by simp [below]

theorem below_cons (p : Path) (n : FileName) (names : List FileName) :
    p.below (n :: names) = (p.child n).below names := by
  simp [below, child]

theorem below_append (p : Path) (names rest : List FileName) :
    p.below (names ++ rest) = (p.below names).below rest := by
  simp [below]

theorem below_concat (p : Path) (names : List FileName) (n : FileName) :
    p.below (names ++ [n]) = (p.below names).child n := by
  simp [below, child]

theorem below_injective (p : Path) : Function.Injective p.below := by
  intro names names' h
  have hsegments := List.append_cancel_left (congrArg segments h)
  exact List.map_injective_iff.2 Segment.name_injective hsegments

theorem utf8Size_text_le_below (p : Path) (names : List FileName) :
    p.text.utf8Size ≤ (p.below names).text.utf8Size := by
  induction names generalizing p with
  | nil => simp
  | cons n names ih =>
    rw [below_cons]
    exact Nat.le_trans (utf8Size_text_le_child p n) (ih (p.child n))

theorem below_ne_here (p : Path) {names : List FileName} (h : names ≠ []) :
    p.below names ≠ here := by
  intro heq
  have hsegments := congrArg segments heq
  simp [below, here, h] at hsegments

/-- A path gets no shorter by names that are put into it. -/
theorem utf8Size_text_below_le (p : Path) (names rest : List FileName) :
    (p.below rest).text.utf8Size ≤ ((p.below names).below rest).text.utf8Size := by
  by_cases hrest : rest = []
  · rw [hrest, below_nil, below_nil]
    exact utf8Size_text_le_below p names
  · rw [utf8Size_text (below_ne_here p hrest), utf8Size_text (below_ne_here _ hrest)]
    simp only [below, Segment.sizeOf_append]
    omega

/-- Steps up before a name take three bytes each. -/
theorem lt_utf8Size_text_up (k : Nat) {names : List FileName} (h : names ≠ []) :
    3 * k < (below ⟨.relative, List.replicate k .up⟩ names).text.utf8Size := by
  obtain ⟨n, names, rfl⟩ := List.exists_cons_of_ne_nil h
  have hname := Segment.one_lt_sizeOf_singleton (.name n)
  rw [utf8Size_text (below_ne_here _ h), below, Segment.sizeOf_append, Segment.sizeOf_replicate_up,
    List.map_cons, ← List.singleton_append, Segment.sizeOf_append]
  omega

end Path

end SolidityImports
