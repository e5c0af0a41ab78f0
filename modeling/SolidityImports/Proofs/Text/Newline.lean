import SolidityImports.Proofs.Text.Size
import SolidityImports.Text.Line

/-! # Unified line ends

Every carriage return is read as a newline, together with the newline right behind it. Main statements:
a text loses one byte for every such pair; and what ends no line stands in the text before at the same
place, but for these bytes. -/

namespace SolidityImports.Text

variable {a b s : Text} {c : Char}

/-- The number of carriage returns with a newline right behind them. -/
def pairedReturns : Text → Nat
  | '\r' :: '\n' :: s => pairedReturns s + 1
  | _ :: s => pairedReturns s
  | [] => 0

theorem unifyNewlines_return (h : s.head? ≠ some '\n') :
    unifyNewlines ('\r' :: s) = '\n' :: unifyNewlines s := by
  rw [unifyNewlines]
  rintro rest rfl
  exact h rfl

theorem unifyNewlines_cons (hc : c ≠ '\r') : unifyNewlines (c :: s) = c :: unifyNewlines s := by
  rw [unifyNewlines]
  · exact fun _ h _ ↦ hc h
  · exact hc

/-- A text loses one byte for every carriage return in front of a newline. -/
theorem utf8Size_unifyNewlines_add (s : Text) :
    s.unifyNewlines.utf8Size + s.pairedReturns = s.utf8Size := by
  have hnewline : '\n'.utf8Size = 1 := rfl
  have hreturn : '\r'.utf8Size = 1 := rfl
  fun_induction unifyNewlines s with
  | case1 s ih =>
    rw [pairedReturns, utf8Size_cons, utf8Size_cons, utf8Size_cons]
    omega
  | case2 s hs ih =>
    rw [pairedReturns, utf8Size_cons, utf8Size_cons]
    · omega
    · exact fun rest _ ↦ hs rest
  | case3 c s hpair _ ih =>
    rw [pairedReturns, utf8Size_cons, utf8Size_cons]
    · omega
    · exact hpair
  | case4 => rfl

/-- What stands around a character that ends no line stands around it in the text before. -/
theorem exists_of_unifyNewlines_eq (hc : c ≠ '\n') (h : s.unifyNewlines = a ++ c :: b) :
    ∃ before after : Text, s = before ++ c :: after ∧ before.unifyNewlines = a ∧
      after.unifyNewlines = b := by
  fun_induction unifyNewlines s generalizing a with
  | case1 s ih =>
    cases a with
    | nil => exact absurd (List.cons.inj h).1.symm hc
    | cons d a =>
      obtain ⟨rfl, hs⟩ := List.cons.inj h
      obtain ⟨before, after, rfl, rfl, rfl⟩ := ih hs
      exact ⟨'\r' :: '\n' :: before, after, rfl, rfl, rfl⟩
  | case2 s hpair ih =>
    cases a with
    | nil => exact absurd (List.cons.inj h).1.symm hc
    | cons d a =>
      obtain ⟨rfl, hs⟩ := List.cons.inj h
      obtain ⟨before, after, rfl, rfl, rfl⟩ := ih hs
      refine ⟨'\r' :: before, after, rfl, unifyNewlines_return fun hhead ↦ ?_, rfl⟩
      obtain ⟨more, rfl⟩ := List.head?_eq_some_iff.1 hhead
      exact hpair _ rfl
  | case3 d s _ hd ih =>
    cases a with
    | nil =>
      obtain ⟨rfl, rfl⟩ := List.cons.inj h
      exact ⟨[], s, rfl, rfl, rfl⟩
    | cons e a =>
      obtain ⟨rfl, hs⟩ := List.cons.inj h
      obtain ⟨before, after, rfl, rfl, rfl⟩ := ih hs
      exact ⟨d :: before, after, rfl, unifyNewlines_cons hd, rfl⟩
  | case4 => exact absurd h (by simp)

theorem eq_nil_of_unifyNewlines_eq (h : s.unifyNewlines = []) : s = [] := by
  fun_cases unifyNewlines s <;> simp_all [unifyNewlines]

/-- Text without newlines stands in both, with the same character behind it. -/
theorem exists_of_unifyNewlines_eq_append (ha : '\n' ∉ a) (hc : c ≠ '\n')
    (h : s.unifyNewlines = a ++ c :: b) : ∃ after, s = a ++ c :: after := by
  induction a generalizing s with
  | nil =>
    obtain ⟨before, after, rfl, hbefore, -⟩ := exists_of_unifyNewlines_eq hc h
    rw [eq_nil_of_unifyNewlines_eq hbefore]
    exact ⟨after, rfl⟩
  | cons d a ih =>
    obtain ⟨hd, ha⟩ := List.ne_and_not_mem_of_not_mem_cons ha
    obtain ⟨before, after, rfl, hbefore, hafter⟩ := exists_of_unifyNewlines_eq (a := []) hd.symm h
    obtain ⟨rest, rfl⟩ := ih ha hafter
    rw [eq_nil_of_unifyNewlines_eq hbefore]
    exact ⟨rest, rfl⟩

end SolidityImports.Text
