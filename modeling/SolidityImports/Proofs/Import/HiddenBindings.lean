import SolidityImports.Proofs.Import.Merging

/-! # Bindings that a literal hides

The names that a statement binds are sought in its whole text, its literal included. No binding
reaches over a quote, and so they are those before the literal, in it, and behind it. Main statement:
two statements that differ in their literals alone bind the same names exactly if the literals hide
the same bindings; and a literal hides none exactly if no renaming stands in it. -/

namespace SolidityImports

open Text

variable {s a rest literal literal' : Text} {c q : Char} {st : Statement}

/-! ## Readers stop at a mark -/

theorem startsOff_append_mark_iff (hq : IsMark q) :
    StartsOff isWordChar (a ++ q :: s) ↔ StartsOff isWordChar a := by
  cases a with
  | nil => simp [StartsOff, hq.2]
  | cons c a => simp

/-- A reader that stops at the end of a word reads the same before a mark as at the end of a text, if
it reads no marks. -/
theorem read?_append_mark {α : Type} {read? : Text → Option (α × Text)} {text : α → Text}
    {Valid : α → Prop}
    (hread : ∀ {s x rest}, read? s = some (x, rest) ↔
      s = text x ++ rest ∧ Valid x ∧ StartsOff isWordChar rest)
    (hq : IsMark q) (hmem : ∀ x, Valid x → q ∉ text x) :
    read? (a ++ q :: s) = (read? a).map fun (x, rest) ↦ (x, rest ++ q :: s) := by
  cases ha : read? a with
  | some found =>
    obtain ⟨x, rest⟩ := found
    obtain ⟨rfl, hx, hrest⟩ := hread.1 ha
    exact hread.2 ⟨List.append_assoc _ _ _, hx, (startsOff_append_mark_iff hq).2 hrest⟩
  | none =>
    cases hall : read? (a ++ q :: s) with
    | none => rfl
    | some found =>
      obtain ⟨x, rest⟩ := found
      obtain ⟨htext, hx, hrest⟩ := hread.1 hall
      obtain ⟨more, rfl, rfl⟩ := exists_of_append_eq_append_cons htext.symm (hmem x hx)
      rw [hread.2 ⟨rfl, hx, (startsOff_append_mark_iff hq).1 hrest⟩] at ha
      cases ha

theorem word?_append_mark (hq : IsMark q) :
    word? (a ++ q :: s) = (word? a).map fun (w, rest) ↦ (w, rest ++ q :: s) := by
  have hread : ∀ {s w rest}, word? s = some (w, rest) ↔
      s = id w ++ rest ∧ w.IsWord ∧ StartsOff isWordChar rest := word?_eq_some_iff
  exact read?_append_mark hread hq fun _ ↦ hq.not_mem_of_isWord

theorem Renaming.read?_append_mark (hq : IsMark q) :
    read? (a ++ q :: s) = (read? a).map fun (r, rest) ↦ (r, rest ++ q :: s) :=
  SolidityImports.read?_append_mark read?_eq_some_iff hq fun _ hr ↦ hr.not_mem hq

theorem Binding.read?_append_mark (hq : IsMark q) (ha : a ≠ []) :
    read? (a ++ q :: s) = read? a := by
  obtain ⟨c, a, rfl⟩ := List.exists_cons_of_ne_nil ha
  have hword : word? (c :: (a ++ q :: s)) = (word? (c :: a)).map fun (w, rest) ↦
      (w, rest ++ q :: s) := word?_append_mark (a := c :: a) hq
  rw [List.cons_append, read?, read?, hword]
  split
  · rw [Renaming.read?_append_mark hq]
    cases Renaming.read? a <;> rfl
  · cases word? (c :: a) with
    | none => rfl
    | some found =>
      obtain ⟨w, rest⟩ := found
      simp only [Option.map_some, Option.bind_eq_bind, Option.bind_some,
        Renaming.read?_append_mark hq]
      cases Renaming.read? rest <;> rfl

/-! ## The bindings at a place -/

/-- What is read as a binding: a mark for the file or a word, and a renaming behind it. -/
theorem Binding.read?_eq_some {binding : Binding} {length : Nat}
    (h : read? s = some (binding, length)) :
    ∃ (front : Text) (c : Char) (r : Renaming) (rest : Text),
      s = front ++ c :: (r.text ++ rest) ∧ (IsFileMark c ∨ isWordChar c) ∧ r.WellFormed ∧
        length = front.length + 1 + r.text.length := by
  cases s with
  | nil => cases h
  | cons c s =>
    rw [read?] at h
    split at h
    · rename_i hc
      simp only [Option.bind_eq_bind, Option.bind_eq_some_iff, Option.pure_def, Option.some.injEq,
        Prod.mk.injEq, Prod.exists] at h
      obtain ⟨r, rest, hread, -, rfl⟩ := h
      obtain ⟨rfl, hr, -⟩ := Renaming.read?_eq_some_iff.1 hread
      exact ⟨[], c, r, rest, rfl, .inl hc, hr, by simp⟩
    · simp only [Option.bind_eq_bind, Option.bind_eq_some_iff, Option.pure_def, Option.some.injEq,
        Prod.mk.injEq, Prod.exists] at h
      obtain ⟨w, s', hword, r, rest, hread, -, rfl⟩ := h
      obtain ⟨hs, hw, -⟩ := word?_eq_some_iff.1 hword
      obtain ⟨rfl, hr, -⟩ := Renaming.read?_eq_some_iff.1 hread
      obtain ⟨w, d, rfl⟩ : ∃ front d, w = front ++ [d] :=
        ⟨_, _, (List.dropLast_concat_getLast hw.1).symm⟩
      refine ⟨w, d, r, rest, ?_, .inr (hw.2 d (by simp)), hr, ?_⟩
      · simpa using hs
      · simp

theorem Binding.length_le_of_read? {binding : Binding} {length : Nat}
    (h : read? s = some (binding, length)) : length ≤ s.length := by
  obtain ⟨front, c, r, rest, rfl, -, -, rfl⟩ := read?_eq_some h
  simp only [List.length_append, List.length_cons]
  omega

theorem bindingsFrom_append_mark (hq : IsMark q) {passed : Nat} (hpassed : passed ≤ a.length) :
    bindingsFrom passed (a ++ q :: s) = bindingsFrom passed a ++ bindings (q :: s) := by
  induction a generalizing passed with
  | nil =>
    obtain rfl := Nat.le_zero.1 hpassed
    rfl
  | cons c a ih =>
    cases passed with
    | succ passed => exact ih (Nat.le_of_succ_le_succ hpassed)
    | zero =>
      have hread := Binding.read?_append_mark (s := s) hq (List.cons_ne_nil c a)
      rw [List.cons_append] at hread ⊢
      rw [bindingsFrom, bindingsFrom, hread]
      cases hfound : Binding.read? (c :: a) with
      | none => exact ih (Nat.zero_le _)
      | some found =>
        obtain ⟨binding, length⟩ := found
        have hlength := Binding.length_le_of_read? hfound
        rw [List.length_cons] at hlength
        dsimp only
        rw [ih (by omega), List.cons_append]

/-- No binding reaches over a mark. -/
theorem bindings_append_mark (hq : IsMark q) :
    bindings (a ++ q :: s) = bindings a ++ bindings (q :: s) :=
  bindingsFrom_append_mark hq (Nat.zero_le _)

/-! ## Where there are bindings -/

/-- Whether a renaming stands in a text, behind a word or a mark for a whole file. -/
def HoldsRenaming (s : Text) : Prop :=
  ∃ (before : Text) (c : Char) (r : Renaming) (after : Text),
    s = before ++ c :: (r.text ++ after) ∧ (IsFileMark c ∨ isWordChar c) ∧ r.WellFormed

/-- Where a renaming stands, one is read, with a longer name if the word goes on. -/
theorem Renaming.exists_read?_text {r : Renaming} (hr : r.WellFormed) (rest : Text) :
    ∃ found, read? (r.text ++ rest) = some found := by
  refine ⟨(⟨r.before, r.after, r.name ++ rest.takeWhile isWordChar⟩, rest.dropWhile isWordChar),
    read?_eq_some_iff.2 ⟨?_, ⟨hr.before, hr.after, ?_, ?_⟩, startsOff_dropWhile _ _⟩⟩
  · simp [text]
  · exact List.append_ne_nil_of_left_ne_nil hr.name.1 _
  · intro c hc
    rcases List.mem_append.1 hc with hc | hc
    · exact hr.name.2 c hc
    · exact List.all_eq_true.1 List.all_takeWhile c hc

theorem Binding.exists_read?_text {r : Renaming} (hc : IsFileMark c ∨ isWordChar c)
    (hr : r.WellFormed) (rest : Text) : ∃ found, read? (c :: (r.text ++ rest)) = some found := by
  obtain ⟨⟨r', rest'⟩, hread⟩ := Renaming.exists_read?_text hr rest
  rcases hc with hmark | hword
  · rw [read?, if_pos (show c = '*' ∨ c ∈ quotes from hmark), hread]
    exact ⟨_, rfl⟩
  · have hgap : StartsOff isWordChar (r.text ++ rest) := by
      simpa [Renaming.text] using hr.before.startsOff
    have hw : IsWord [c] := ⟨List.cons_ne_nil _ _, by simpa using hword⟩
    rw [← List.singleton_append, Binding.read?_word hw hgap, hread]
    exact ⟨_, rfl⟩

theorem bindings_eq_nil_iff :
    bindings s = [] ↔ ∀ after, after <:+ s → Binding.read? after = none := by
  induction s with
  | nil =>
    refine iff_of_true rfl fun after hafter ↦ ?_
    rw [List.suffix_nil.1 hafter]
    rfl
  | cons c s ih =>
    cases hread : Binding.read? (c :: s) with
    | none =>
      rw [bindings_of_read?_eq_none hread, ih]
      simp [List.suffix_cons_iff, hread]
    | some found =>
      constructor
      · intro hnil
        rw [bindings, bindingsFrom, hread] at hnil
        cases hnil
      · intro hnone
        rw [hnone _ List.suffix_rfl] at hread
        cases hread

/-- There is no binding exactly if there is no renaming. -/
theorem bindings_eq_nil_iff_not_holdsRenaming : bindings s = [] ↔ ¬ HoldsRenaming s := by
  rw [bindings_eq_nil_iff]
  constructor
  · rintro hnone ⟨before, c, r, after, rfl, hc, hr⟩
    obtain ⟨found, hread⟩ := Binding.exists_read?_text hc hr after
    rw [hnone _ (List.suffix_append _ _)] at hread
    cases hread
  · rintro hnone after ⟨before, rfl⟩
    cases hread : Binding.read? after with
    | none => rfl
    | some found =>
      obtain ⟨front, c, r, rest, rfl, hc, hr, -⟩ := Binding.read?_eq_some hread
      exact absurd ⟨before ++ front, c, r, rest, by simp, hc, hr⟩ hnone

/-! ## Statements that differ in their literals -/

/-- The same statement with another literal. -/
def Statement.withLiteral : Statement → Text → Statement
  | .file gap quote _ rename beforeEnd, literal => .file gap quote literal rename beforeEnd
  | .taking gap clause beforeFrom afterFrom quote _ beforeEnd, literal =>
    .taking gap clause beforeFrom afterFrom quote literal beforeEnd

@[simp] theorem Statement.literal_withLiteral (st : Statement) (literal : Text) :
    (st.withLiteral literal).literal = literal := by
  cases st <;> rfl

@[simp] theorem Statement.lead_withLiteral (st : Statement) (literal : Text) :
    (st.withLiteral literal).lead = st.lead := by
  cases st <;> rfl

@[simp] theorem Statement.quote_withLiteral (st : Statement) (literal : Text) :
    (st.withLiteral literal).quote = st.quote := by
  cases st <;> rfl

@[simp] theorem Statement.behind_withLiteral (st : Statement) (literal : Text) :
    (st.withLiteral literal).behind = st.behind := by
  cases st <;> rfl

theorem Statement.WellFormed.withLiteral (h : st.WellFormed) (hliteral : '\n' ∉ literal) :
    (st.withLiteral literal).WellFormed := by
  cases st with
  | file =>
    obtain ⟨hgap, hquote, -, hrename, hb⟩ := h
    exact ⟨hgap, hquote, hliteral, hrename, hb⟩
  | taking =>
    obtain ⟨hgap, hclause, hbefore, hafter, hquote, -, hb⟩ := h
    exact ⟨hgap, hclause, hbefore, hafter, hquote, hliteral, hb⟩

/-- The bindings that a second look takes for written in a literal: its opening quote passes for a
whole file. -/
def hiddenBindings (quote : Char) (literal : Text) : List Binding := bindings (quote :: literal)

/-- A source with one statement alone is scanned to its literal, whatever stands in that. -/
theorem importLiterals_text (h : st.WellFormed) : importLiterals st.text = [st.importLiteral 0] := by
  have hline : st.quote ∉ restOfLine (st.behind ++ []) :=
    not_mem_restOfLine_append (h.quote_not_mem_behind h.quote_mem) List.not_mem_nil
  have hscan : statementsFrom 0 0 (st.text ++ []) = (0, st) :: statementsFrom _ 0 [] :=
    statementsFrom_of_read? (Statement.read?_text h hline)
  rw [List.append_nil] at hscan
  rw [importLiterals, statements, hscan]
  rfl

/-- Between the bindings before and behind the literal stand those that the literal hides. -/
theorem Statement.exists_bindings_text_eq (h : st.WellFormed) : ∃ front back, ∀ literal,
    bindings (st.withLiteral literal).text = front ++ hiddenBindings st.quote literal ++ back := by
  obtain ⟨up, hlead, -⟩ := h.exists_lead_eq
  have hmark : IsMark st.quote := isMark_of_mem_quotes h.quote_mem
  refine ⟨bindings up, bindings (st.quote :: st.behind), fun literal ↦ ?_⟩
  have htext : (st.withLiteral literal).text =
      up ++ st.quote :: (literal ++ st.quote :: st.behind) := by
    simp [text_eq, hlead]
  rw [htext, bindings_append_mark hmark, ← List.cons_append, bindings_append_mark hmark,
    hiddenBindings, List.append_assoc]

/-- The names that a statement binds are those of its clause and those that its literal hides. They
are the same with another literal exactly if that hides the same ones, and a literal hides none
exactly if no renaming stands in it. -/
theorem bindings_withLiteral_iff (h : st.WellFormed) :
    (∃ front back, ∀ literal, '\n' ∉ literal →
      (importLiterals (st.withLiteral literal).text).map (·.bindings) =
        [front ++ hiddenBindings st.quote literal ++ back]) ∧
    (∀ literal literal', '\n' ∉ literal → '\n' ∉ literal' →
      ((importLiterals (st.withLiteral literal).text).map (·.bindings) =
        (importLiterals (st.withLiteral literal').text).map (·.bindings) ↔
          hiddenBindings st.quote literal = hiddenBindings st.quote literal')) ∧
    ∀ literal, hiddenBindings st.quote literal = [] ↔ ¬ HoldsRenaming (st.quote :: literal) := by
  obtain ⟨front, back, hbindings⟩ := Statement.exists_bindings_text_eq h
  have hscan : ∀ literal, '\n' ∉ literal →
      (importLiterals (st.withLiteral literal).text).map (·.bindings) =
        [front ++ hiddenBindings st.quote literal ++ back] := by
    intro literal hliteral
    rw [importLiterals_text (h.withLiteral hliteral), ← hbindings]
    rfl
  refine ⟨⟨front, back, hscan⟩, fun literal literal' hliteral hliteral' ↦ ?_,
    fun _ ↦ bindings_eq_nil_iff_not_holdsRenaming⟩
  rw [hscan literal hliteral, hscan literal' hliteral', List.singleton_inj,
    List.append_left_inj, List.append_right_inj]

/-- An import of one symbol by another name, from a path with a space in it. -/
def spacedImport : Statement :=
  .taking (.of " ") (.listed [] ⟨.of "T", some ⟨.of " ", .of " ", .of "U"⟩⟩ [] [] none) (.of " ")
    (.of " ") '"' (.of "my lib/T.sol") []

/-- Spaces in a literal hide no binding, nor does an `as` that no name follows. -/
theorem bindings_withLiteral_spacedImport :
    spacedImport.WellFormed ∧ ¬ HoldsRenaming (.of "\"as is as .sol") ∧
      (importLiterals spacedImport.text).map (·.bindings) =
        (importLiterals (spacedImport.withLiteral (.of "as is as .sol")).text).map (·.bindings) := by
  have h : spacedImport.WellFormed := by decide +kernel
  have hhidden : hiddenBindings '"' (.of "my lib/T.sol") =
      hiddenBindings '"' (.of "as is as .sol") := by decide +kernel
  have hnone : hiddenBindings '"' (.of "as is as .sol") = [] := by decide +kernel
  obtain ⟨-, hsame, hholds⟩ := bindings_withLiteral_iff h
  exact ⟨h, (hholds _).1 hnone,
    (hsame (.of "my lib/T.sol") (.of "as is as .sol") (by decide) (by decide)).2 hhidden⟩

/-- A space on both sides of an `as` lets a literal bind a name that no clause binds. -/
theorem bindings_withLiteral_ne :
    spacedImport.WellFormed ∧ NoQuote (.of "Tokens as Mocks.sol") ∧
      '\n' ∉ Text.of "Tokens as Mocks.sol" ∧
      (importLiterals spacedImport.text).map (·.bindings) ≠
        (importLiterals (spacedImport.withLiteral (.of "Tokens as Mocks.sol")).text).map
          (·.bindings) := by
  decide +kernel

end SolidityImports
