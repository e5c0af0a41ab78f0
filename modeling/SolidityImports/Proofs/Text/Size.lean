import SolidityImports.Text.Bytes

/-! # Sizes in bytes

The UTF-8 size of a text, character by character. Main statement: of two texts that start the same
text, equal sizes make equal texts, so that an offset in bytes is a place in the text. -/

namespace SolidityImports.Text

variable {s t a b : Text}

@[simp] theorem utf8Size_nil : utf8Size [] = 0 := rfl

@[simp] theorem utf8Size_cons (c : Char) (s : Text) :
    utf8Size (c :: s) = c.utf8Size + utf8Size s := by
  simp [utf8Size, utf8]

theorem utf8Size_replicate (n : Nat) (c : Char) :
    utf8Size (List.replicate n c) = n * c.utf8Size := by
  induction n with
  | zero => simp
  | succ n ih => rw [List.replicate_succ, utf8Size_cons, ih, Nat.succ_mul, Nat.add_comm]

theorem utf8Size_pos (h : s ≠ []) : 0 < utf8Size s := by
  cases s with
  | nil => contradiction
  | cons c s =>
    rw [utf8Size_cons]
    exact Nat.add_pos_left c.utf8Size_pos _

theorem eq_nil_of_utf8Size_append (h : utf8Size (a ++ s) = utf8Size a) : s = [] := by
  cases s with
  | nil => rfl
  | cons c s =>
    have hpos := utf8Size_pos (List.cons_ne_nil c s)
    rw [utf8Size_append] at h
    omega

theorem eq_of_utf8Size_eq (h : a ++ s = b ++ t) (hsize : a.utf8Size = b.utf8Size) : a = b := by
  rcases List.append_eq_append_iff.1 h with ⟨more, rfl, -⟩ | ⟨more, rfl, -⟩
  · rw [eq_nil_of_utf8Size_append hsize.symm, List.append_nil]
  · rw [eq_nil_of_utf8Size_append hsize, List.append_nil]

end SolidityImports.Text
