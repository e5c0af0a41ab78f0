import SolidityImports.Proofs.Text.Reading
import SolidityImports.Text.Line

/-! # Lines and their ends

The rest of a line ends before the next newline, and white space at both ends of a text can be
dropped. Main statements: what is left is the text without white space in front of it and behind it,
and has none at its own ends. -/

namespace SolidityImports.Text

variable {a rest s : Text} {c : Char}

/-! ## The rest of a line -/

/-- A text goes on behind the rest of its line. -/
theorem restOfLine_isPrefix (s : Text) : restOfLine s <+: s := List.takeWhile_prefix _

theorem newline_not_mem_restOfLine (s : Text) : '\n' ∉ restOfLine s := by
  intro h
  have hkept : ∀ c ∈ restOfLine s, decide (c ≠ '\n') := List.all_eq_true.1 List.all_takeWhile
  exact of_decide_eq_true (hkept _ h) rfl

theorem restOfLine_append (h : '\n' ∈ a) : restOfLine (a ++ s) = restOfLine a := by
  induction a with
  | nil => contradiction
  | cons c a ih =>
    unfold restOfLine at ih ⊢
    rw [List.cons_append, List.takeWhile_cons, List.takeWhile_cons]
    split
    · rename_i hc
      rcases List.mem_cons.1 h with rfl | ha
      · contradiction
      · rw [ih ha]
    · rfl

theorem restOfLine_append_of_not_mem (h : '\n' ∉ a) : restOfLine (a ++ s) = a ++ restOfLine s := by
  refine List.takeWhile_append_of_pos fun c hc ↦ decide_eq_true ?_
  rintro rfl
  exact h hc

theorem not_mem_restOfLine_append (ha : c ∉ a) (hrest : c ∉ restOfLine rest) :
    c ∉ restOfLine (a ++ rest) := by
  by_cases hline : '\n' ∈ a
  · rw [restOfLine_append hline]
    exact fun hc ↦ ha ((restOfLine_isPrefix a).subset hc)
  · rw [restOfLine_append_of_not_mem hline, List.mem_append, not_or]
    exact ⟨ha, hrest⟩

/-- What is read up to a `stop` is all that stands before the first one on the line. -/
theorem upTo?_append {stop : Char} (hstop : stop ∉ a) (hline : '\n' ∉ a) :
    upTo? stop (a ++ stop :: s) = some a := by
  induction a with
  | nil => exact if_pos rfl
  | cons c a ih =>
    obtain ⟨hc, ha⟩ := List.ne_and_not_mem_of_not_mem_cons hstop
    obtain ⟨hc', ha'⟩ := List.ne_and_not_mem_of_not_mem_cons hline
    rw [List.cons_append, upTo?, if_neg hc.symm, if_neg hc'.symm, ih ha ha']
    rfl

/-! ## White space at the ends -/

/-- Neither the first nor the last character is blank. -/
structure IsStripped (s : Text) : Prop where
  front : StartsOff isBlank s
  back : StartsOff isBlank s.reverse

theorem exists_eq_stripEnd_append (s : Text) : ∃ trail, trail.IsBlanks ∧ s = stripEnd s ++ trail := by
  obtain ⟨hs, hblanks, -⟩ := takeBlanks_eq_iff.1 (rfl : takeBlanks s.reverse = _)
  refine ⟨(s.reverse.takeWhile isBlank).reverse, fun c hc ↦ hblanks c (List.mem_reverse.1 hc), ?_⟩
  rw [stripEnd, ← List.reverse_append, ← hs, List.reverse_reverse]

/-- A text is what is left of it between blanks. -/
theorem exists_eq_append_strip_append (s : Text) : ∃ gap trail : Text,
    gap.IsBlanks ∧ trail.IsBlanks ∧ s = gap ++ strip s ++ trail := by
  obtain ⟨hs, hgap, -⟩ := takeBlanks_eq_iff.1 (rfl : s.takeBlanks = _)
  obtain ⟨trail, htrail, hend⟩ := exists_eq_stripEnd_append (s.dropWhile isBlank)
  refine ⟨_, trail, hgap, htrail, ?_⟩
  rw [List.append_assoc, strip, ← hend]
  exact hs

theorem isStripped_strip (s : Text) : (strip s).IsStripped where
  front := by
    obtain ⟨trail, -, hend⟩ := exists_eq_stripEnd_append (s.dropWhile isBlank)
    cases hs : strip s with
    | nil => simp [StartsOff]
    | cons c rest =>
      have hfront := startsOff_dropWhile isBlank s
      rw [hend, ← strip, hs] at hfront
      exact startsOff_cons.2 (startsOff_cons.1 hfront)
  back := by
    rw [strip, stripEnd, List.reverse_reverse]
    exact startsOff_dropWhile isBlank _

theorem strip_append (ha : a.IsBlanks) : strip (a ++ s) = strip s := by
  rw [strip, List.dropWhile_append_of_pos ha, strip]

/-- Nothing is left of blanks alone. -/
theorem strip_eq_nil_iff : strip s = [] ↔ s.IsBlanks := by
  obtain ⟨gap, trail, hgap, htrail, hs⟩ := exists_eq_append_strip_append s
  constructor
  · intro hnil
    rw [hnil, List.append_nil] at hs
    rw [hs]
    exact List.forall_mem_append.2 ⟨hgap, htrail⟩
  · intro hblanks
    cases hstrip : strip s with
    | nil => rfl
    | cons c rest =>
      have hc := (isStripped_strip s).front c (by rw [hstrip]; rfl)
      have hmem : c ∈ s := by
        rw [hs, hstrip]
        simp
      exact absurd hblanks (not_isBlanks_of_mem hc hmem)

end SolidityImports.Text
