import Mathlib.Data.List.Chain
import Mathlib.Data.List.Infix
import SolidityImports.Text.Line

/-! # Blank lines

Of a run of newlines only two are kept, which is one blank line. Main statement: collapsing blank
lines shortens every longest run of newlines to two and changes nothing else; so it leaves no three
newlines in a row, collapsing again changes nothing, and the parts of a text can be collapsed before
they are put together. -/

namespace SolidityImports.Text

variable {a b s t : Text} {c : Char}

/-! ## Character by character -/

theorem two_newlines_prefix_cons_iff :
    ['\n', '\n'] <+: c :: s ↔ c = '\n' ∧ s.head? = some '\n' := by
  cases s with
  | nil => simp
  | cons d s => simp [List.cons_prefix_cons, eq_comm]

@[simp] theorem collapseBlankLines_nil : collapseBlankLines [] = [] := by
  rw [collapseBlankLines]

theorem collapseBlankLines_three_newlines (s : Text) :
    collapseBlankLines ('\n' :: '\n' :: '\n' :: s) = collapseBlankLines ('\n' :: '\n' :: s) := by
  rw [collapseBlankLines]

/-- A newline is dropped exactly if two more follow it. -/
theorem collapseBlankLines_cons (c : Char) (s : Text) : collapseBlankLines (c :: s) =
    if c = '\n' ∧ ['\n', '\n'] <+: s then collapseBlankLines s else c :: collapseBlankLines s := by
  split
  · rename_i h
    obtain ⟨rfl, rest, rfl⟩ := h
    exact collapseBlankLines_three_newlines rest
  · rename_i h
    rw [collapseBlankLines]
    rintro rest rfl rfl
    exact h ⟨rfl, rest, rfl⟩

theorem head?_collapseBlankLines (s : Text) : (collapseBlankLines s).head? = s.head? := by
  induction s with
  | nil => rw [collapseBlankLines_nil]
  | cons c s ih =>
    rw [collapseBlankLines_cons]
    split
    · rename_i h
      obtain ⟨rfl, rest, rfl⟩ := h
      exact ih
    · rfl

/-- Collapsing keeps the first two newlines, and brings none to the front. -/
theorem two_newlines_prefix_collapseBlankLines_iff :
    ['\n', '\n'] <+: collapseBlankLines s ↔ ['\n', '\n'] <+: s := by
  induction s with
  | nil => rw [collapseBlankLines_nil]
  | cons c s ih =>
    rw [collapseBlankLines_cons]
    split
    · rename_i h
      obtain ⟨rfl, hs⟩ := h
      obtain ⟨rest, rfl⟩ := id hs
      refine iff_of_true (ih.2 hs) ?_
      exact two_newlines_prefix_cons_iff.2 ⟨rfl, rfl⟩
    · rw [two_newlines_prefix_cons_iff, two_newlines_prefix_cons_iff, head?_collapseBlankLines]

/-- What a character becomes depends on the collapsed text behind it alone. -/
theorem collapseBlankLines_cons_congr (c : Char)
    (h : collapseBlankLines s = collapseBlankLines t) :
    collapseBlankLines (c :: s) = collapseBlankLines (c :: t) := by
  simp only [collapseBlankLines_cons, ← two_newlines_prefix_collapseBlankLines_iff (s := s),
    ← two_newlines_prefix_collapseBlankLines_iff (s := t), h]

theorem not_three_newlines_infix_collapseBlankLines (s : Text) :
    ¬ ['\n', '\n', '\n'] <:+: collapseBlankLines s := by
  induction s with
  | nil => simp
  | cons c s ih =>
    rw [collapseBlankLines_cons]
    split
    · exact ih
    · rename_i h
      rw [List.infix_cons_iff, not_or]
      refine ⟨fun hprefix ↦ h ?_, ih⟩
      obtain ⟨hc, hs⟩ := List.cons_prefix_cons.1 hprefix
      exact ⟨hc.symm, two_newlines_prefix_collapseBlankLines_iff.1 hs⟩

/-! ## Part by part -/

theorem collapseBlankLines_append_left (a b : Text) :
    collapseBlankLines (collapseBlankLines a ++ b) = collapseBlankLines (a ++ b) := by
  induction a with
  | nil => rw [collapseBlankLines_nil]
  | cons c a ih =>
    rw [collapseBlankLines_cons]
    split
    · rename_i h
      obtain ⟨rfl, rest, rfl⟩ := h
      exact ih.trans (collapseBlankLines_three_newlines (rest ++ b)).symm
    · exact collapseBlankLines_cons_congr c ih

theorem collapseBlankLines_collapseBlankLines (s : Text) :
    collapseBlankLines (collapseBlankLines s) = collapseBlankLines s := by
  have h := collapseBlankLines_append_left s []
  rwa [List.append_nil, List.append_nil] at h

theorem collapseBlankLines_append_right (a b : Text) :
    collapseBlankLines (a ++ collapseBlankLines b) = collapseBlankLines (a ++ b) := by
  induction a with
  | nil => exact collapseBlankLines_collapseBlankLines b
  | cons c a ih => exact collapseBlankLines_cons_congr c ih

/-! ## Run by run -/

/-- The longest stretches of newlines and of other characters that make up a text, in order. -/
structure AreRuns (s : Text) (runs : List Text) : Prop where
  flatten_eq : runs.flatten = s
  ne_nil : ∀ run ∈ runs, run ≠ []
  uniform : ∀ run ∈ runs, run = List.replicate run.length '\n' ∨ '\n' ∉ run
  alternate : runs.IsChain fun run next ↦ '\n' ∈ run ↔ '\n' ∉ next

/-- A run of newlines without all but its first two; any other run as it is. -/
def limitNewlines (run : Text) : Text :=
  if '\n' ∈ run then List.replicate (min run.length 2) '\n' else run

variable {run : Text} {runs : List Text}

theorem AreRuns.tail (h : AreRuns s (run :: runs)) : AreRuns runs.flatten runs where
  flatten_eq := rfl
  ne_nil r hr := h.ne_nil r (List.mem_cons_of_mem run hr)
  uniform r hr := h.uniform r (List.mem_cons_of_mem run hr)
  alternate := h.alternate.tail

/-- A run of newlines ends before another character, or at the end of the text. -/
theorem AreRuns.head?_flatten_ne (h : AreRuns s (run :: runs)) (hrun : '\n' ∈ run) :
    runs.flatten.head? ≠ some '\n' := by
  cases runs with
  | nil => simp
  | cons next runs =>
    obtain ⟨c, next, rfl⟩ := List.exists_cons_of_ne_nil
      (h.ne_nil next (List.mem_cons_of_mem run List.mem_cons_self))
    obtain ⟨halternate, -⟩ := List.isChain_cons_cons.1 h.alternate
    intro hhead
    obtain rfl : c = '\n' := Option.some.inj hhead
    exact halternate.1 hrun List.mem_cons_self

theorem AreRuns.singleton (c : Char) : AreRuns [c] [[c]] where
  flatten_eq := rfl
  ne_nil := by simp
  uniform := by simp [eq_comm, em]
  alternate := .singleton [c]

/-- A character that is of the kind of the first run becomes a part of it. -/
theorem AreRuns.cons_of_iff (h : AreRuns s (run :: runs)) (hc : c = '\n' ↔ '\n' ∈ run) :
    AreRuns (c :: s) ((c :: run) :: runs) where
  flatten_eq := by rw [← h.flatten_eq]; rfl
  ne_nil := by
    rw [List.forall_mem_cons]
    exact ⟨List.cons_ne_nil c run, h.tail.ne_nil⟩
  uniform := by
    rw [List.forall_mem_cons]
    refine ⟨?_, h.tail.uniform⟩
    by_cases hnewline : c = '\n'
    · subst hnewline
      refine .inl (congrArg ('\n' :: ·) ((h.uniform run List.mem_cons_self).resolve_right ?_))
      exact fun hnot ↦ hnot (hc.1 rfl)
    · exact .inr (List.not_mem_cons_of_ne_of_not_mem (Ne.symm hnewline) (mt hc.2 hnewline))
  alternate := by
    have hmem : '\n' ∈ c :: run ↔ '\n' ∈ run := by
      rw [List.mem_cons, eq_comm, hc, or_self]
    have hchain := h.alternate
    rw [List.isChain_cons] at hchain ⊢
    exact ⟨fun next hnext ↦ hmem.trans (hchain.1 next hnext), hchain.2⟩

/-- A character that is not of the kind of the first run is a run of its own. -/
theorem AreRuns.cons_of_not_iff (h : AreRuns s (run :: runs)) (hc : ¬ (c = '\n' ↔ '\n' ∈ run)) :
    AreRuns (c :: s) ([c] :: run :: runs) where
  flatten_eq := by rw [← h.flatten_eq]; rfl
  ne_nil := by
    rw [List.forall_mem_cons]
    exact ⟨List.cons_ne_nil c [], h.ne_nil⟩
  uniform := by
    rw [List.forall_mem_cons]
    exact ⟨(AreRuns.singleton c).uniform [c] List.mem_cons_self, h.uniform⟩
  alternate := by
    refine List.isChain_cons_cons.2 ⟨?_, h.alternate⟩
    rw [List.mem_singleton, eq_comm]
    exact (not_iff_comm.1 (not_iff.1 hc)).symm

/-- Every text has runs. -/
theorem exists_areRuns (s : Text) : ∃ runs, AreRuns s runs := by
  induction s with
  | nil => exact ⟨[], rfl, by simp, by simp, .nil⟩
  | cons c s ih =>
    obtain ⟨runs, hruns⟩ := ih
    cases runs with
    | nil =>
      obtain rfl : [] = s := hruns.flatten_eq
      exact ⟨_, AreRuns.singleton c⟩
    | cons run runs =>
      by_cases hc : c = '\n' ↔ '\n' ∈ run
      · exact ⟨_, hruns.cons_of_iff hc⟩
      · exact ⟨_, hruns.cons_of_not_iff hc⟩

theorem collapseBlankLines_append_of_not_mem (ha : '\n' ∉ a) :
    collapseBlankLines (a ++ s) = a ++ collapseBlankLines s := by
  induction a with
  | nil => rfl
  | cons c a ih =>
    obtain ⟨hc, ha⟩ := List.ne_and_not_mem_of_not_mem_cons ha
    rw [List.cons_append, collapseBlankLines_cons, if_neg fun h ↦ hc h.1.symm, ih ha]
    rfl

theorem collapseBlankLines_replicate_append (n : Nat) (hs : s.head? ≠ some '\n') :
    collapseBlankLines (List.replicate n '\n' ++ s) =
      List.replicate (min n 2) '\n' ++ collapseBlankLines s := by
  match n with
  | 0 => rfl
  | 1 =>
    have hrest : ¬ ['\n', '\n'] <+: s := fun ⟨rest, hrest⟩ ↦ hs (hrest ▸ rfl)
    change collapseBlankLines ('\n' :: s) = '\n' :: collapseBlankLines s
    rw [collapseBlankLines_cons, if_neg fun h ↦ hrest h.2]
  | 2 =>
    change collapseBlankLines ('\n' :: (List.replicate 1 '\n' ++ s)) =
      '\n' :: '\n' :: collapseBlankLines s
    rw [collapseBlankLines_cons, collapseBlankLines_replicate_append 1 hs, if_neg]
    · rfl
    · exact fun h ↦ hs (two_newlines_prefix_cons_iff.1 h.2).2
  | n + 3 =>
    have hmin : min (n + 3) 2 = min (n + 2) 2 := by omega
    rw [hmin, ← collapseBlankLines_replicate_append (n + 2) hs]
    exact collapseBlankLines_three_newlines (List.replicate n '\n' ++ s)

/-- Each run is collapsed on its own. -/
theorem AreRuns.collapseBlankLines_eq (h : AreRuns s runs) :
    collapseBlankLines s = (runs.map limitNewlines).flatten := by
  induction runs generalizing s with
  | nil =>
    rw [← h.flatten_eq]
    exact collapseBlankLines_nil
  | cons run runs ih =>
    rw [← h.flatten_eq, List.flatten_cons, List.map_cons, List.flatten_cons, ← ih h.tail,
      limitNewlines]
    split
    · rename_i hrun
      rcases h.uniform run List.mem_cons_self with heq | hnot
      · rw [← collapseBlankLines_replicate_append _ (h.head?_flatten_ne hrun), ← heq]
      · contradiction
    · rename_i hrun
      exact collapseBlankLines_append_of_not_mem hrun

/-- Collapsing blank lines shortens each longest run of newlines to two and keeps all else; it is
idempotent, leaves no three newlines in a row, and can be done in each part of a text first. -/
theorem collapseBlankLines_exact (t : Text) :
    (∃ runs, AreRuns t runs) ∧
    (∀ runs, AreRuns t runs → collapseBlankLines t = (runs.map limitNewlines).flatten) ∧
    collapseBlankLines (collapseBlankLines t) = collapseBlankLines t ∧
    ¬ ['\n', '\n', '\n'] <:+: collapseBlankLines t ∧
    ∀ a b : Text, collapseBlankLines (a ++ b) =
      collapseBlankLines (collapseBlankLines a ++ collapseBlankLines b) := by
  refine ⟨exists_areRuns t, fun runs h ↦ h.collapseBlankLines_eq,
    collapseBlankLines_collapseBlankLines t, not_three_newlines_infix_collapseBlankLines t, ?_⟩
  intro a b
  rw [collapseBlankLines_append_left, collapseBlankLines_append_right]

/-- The runs of a text with a run of four newlines and one of two. -/
theorem collapseBlankLines_fourNewlines :
    AreRuns (.of "a\n\n\n\nb\n\nc")
      [['a'], ['\n', '\n', '\n', '\n'], ['b'], ['\n', '\n'], ['c']] ∧
    collapseBlankLines (.of "a\n\n\n\nb\n\nc") = .of "a\n\nb\n\nc" := by
  have hruns : AreRuns (.of "a\n\n\n\nb\n\nc")
      [['a'], ['\n', '\n', '\n', '\n'], ['b'], ['\n', '\n'], ['c']] :=
    ⟨by decide, by decide, by decide, by decide⟩
  exact ⟨hruns, (collapseBlankLines_exact _).2.1 _ hruns⟩

end SolidityImports.Text
