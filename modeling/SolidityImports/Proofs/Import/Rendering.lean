import SolidityImports.Proofs.Import.Bindings
import SolidityImports.Proofs.Import.Matches

/-! # Scanning what was rendered

A document is a text with statements in it. Main statement: a scan of a document finds all of its
statements and nothing else, with their literals, the places of these and the bindings that are
written, if the text around the statements neither says `import` nor puts a quote on the line on
which a statement ends. -/

namespace SolidityImports

open Text

/-- Text, and statements with the text behind each of them. -/
def document (before : Text) (parts : List (Statement × Text)) : Text :=
  before ++ parts.flatMap fun (st, after) ↦ st.text ++ after

/-- What a scan has to give for a statement at a byte offset. -/
def Statement.writtenLiteral (offset : Nat) (st : Statement) : ImportLiteral :=
  let start := offset + st.lead.utf8Size
  ⟨st.literal, st.writtenBindings, start, start + st.literal.utf8Size⟩

/-- No quote stands on the line that a text starts in. -/
def NoQuoteOnLine (s : Text) : Prop := ∀ c ∈ restOfLine s, c ∉ quotes

instance (s : Text) : Decidable (NoQuoteOnLine s) :=
  decidable_of_iff ((restOfLine s).all (· ∉ quotes)) (by simp [NoQuoteOnLine])

/-- A document whose statements can be told from the text around them. -/
structure IsRendering (before : Text) (parts : List (Statement × Text)) : Prop where
  wellFormed : ∀ p ∈ parts, p.1.WellFormed
  tight : ∀ p ∈ parts, p.1.literal.IsTight
  noAs : ∀ p ∈ parts, p.1.NoAsBehindImport
  noImportBefore : ¬ Text.of "import" <:+: before
  noImportAfter : ∀ p ∈ parts, ¬ Text.of "import" <:+: p.2
  noQuote : ∀ p ∈ parts, NoQuoteOnLine p.2
  /-- The next statement starts on a line of its own. -/
  newline : ∀ p ∈ parts.dropLast, '\n' ∈ p.2

variable {before after junk next s : Text} {parts : List (Statement × Text)} {st : Statement}

theorem IsRendering.tail (h : IsRendering before ((st, after) :: parts)) :
    IsRendering after parts where
  wellFormed := (List.forall_mem_cons.1 h.wellFormed).2
  tight := (List.forall_mem_cons.1 h.tight).2
  noAs := (List.forall_mem_cons.1 h.noAs).2
  noImportBefore := h.noImportAfter (st, after) List.mem_cons_self
  noImportAfter := (List.forall_mem_cons.1 h.noImportAfter).2
  noQuote := (List.forall_mem_cons.1 h.noQuote).2
  newline := by
    cases parts with
    | nil =>
      intro p hp
      cases hp
    | cons p parts => exact (List.forall_mem_cons.1 h.newline).2

theorem document_cons (before : Text) (st : Statement) (after : Text)
    (parts : List (Statement × Text)) :
    document before ((st, after) :: parts) = before ++ (st.text ++ document after parts) := by
  simp [document]

/-! ## Text between statements -/

/-- No text without `import` goes on to an `import` that starts in it: the word starts with a letter
that it does not hold again. -/
theorem after?_import_eq_none {c : Char} (hjunk : ¬ Text.of "import" <:+: c :: junk)
    (hnext : next = [] ∨ Text.of "import" <+: next) :
    Text.after? (.of "import") (c :: (junk ++ next)) = none := by
  cases hafter : Text.after? (.of "import") (c :: (junk ++ next)) with
  | none => rfl
  | some rest =>
    have heq := after?_eq_some_iff.1 hafter
    rcases hnext with rfl | ⟨t, rfl⟩
    · rw [List.append_nil] at heq
      exact absurd ⟨[], rest, heq.symm⟩ hjunk
    · have hi : 'i' ∉ Text.of "mport" := by decide
      have hsplit : (c :: junk) ++ 'i' :: (Text.of "mport" ++ t) =
          [] ++ ('i' :: Text.of "mport" ++ rest) := heq
      exact absurd (infix_of_append_eq hi hsplit (Nat.succ_pos _)) hjunk

/-- A scan passes over text that does not say `import`. -/
theorem statementsFrom_junk {offset : Nat} (hjunk : ¬ Text.of "import" <:+: junk)
    (hnext : next = [] ∨ Text.of "import" <+: next) :
    statementsFrom offset 0 (junk ++ next) = statementsFrom (offset + junk.utf8Size) 0 next := by
  induction junk generalizing offset with
  | nil => rfl
  | cons c junk ih =>
    have hread : Statement.read? (c :: (junk ++ next)) = none := by
      simp [Statement.read?, after?_import_eq_none hjunk hnext]
    rw [List.cons_append, statementsFrom_of_read?_eq_none hread,
      ih fun hinfix ↦ hjunk (List.infix_cons hinfix), utf8Size_cons, Nat.add_assoc]

/-! ## The line of a statement's end -/

theorem IsRendering.quote_not_mem (h : IsRendering before ((st, after) :: parts)) {q : Char}
    (hq : q ∈ quotes) : q ∉ restOfLine (document after parts) := by
  have hafter : q ∉ restOfLine after := by
    intro hmem
    exact h.noQuote (st, after) List.mem_cons_self q hmem hq
  cases parts with
  | nil => simpa [document] using hafter
  | cons p parts =>
    have hline : '\n' ∈ after := h.newline (st, after) List.mem_cons_self
    rwa [document, restOfLine_append hline]

theorem Renaming.WellFormed.not_mem {r : Renaming} {c : Char} (hr : r.WellFormed) (hc : IsMark c) :
    c ∉ r.text := by
  simp [Renaming.text, hc.not_mem_of_isBlanks hr.before.2, hc.not_mem_of_isBlanks hr.after.2,
    hc.not_mem_of_isWord isWord_as, hc.not_mem_of_isWord hr.name]

theorem Statement.WellFormed.quote_not_mem_behind (h : st.WellFormed) {q : Char} (hq : q ∈ quotes) :
    q ∉ st.behind := by
  have hmark : IsMark q := isMark_of_mem_quotes hq
  have hend : q ≠ ';' := by
    intro heq
    exact absurd (heq ▸ hq) (by decide)
  cases st with
  | file gap quote literal rename beforeEnd =>
    obtain ⟨-, -, -, hrename, hb⟩ := h
    have hbeforeEnd : q ∉ beforeEnd := hmark.not_mem_of_isBlanks hb
    cases rename with
    | none => simpa [behind, hbeforeEnd] using hend
    | some r =>
      have hr : q ∉ r.text := (hrename r rfl).not_mem hmark
      simpa [behind, hbeforeEnd, hr] using hend
  | taking gap clause beforeFrom afterFrom quote literal beforeEnd =>
    obtain ⟨-, -, -, -, -, -, hb⟩ := h
    have hbeforeEnd : q ∉ beforeEnd := hmark.not_mem_of_isBlanks hb
    simpa [behind, hbeforeEnd] using hend

/-! ## Scanning a document -/

theorem map_statementsFrom_document (h : IsRendering before parts) (offset : Nat) :
    ((statementsFrom offset 0 (document before parts)).map fun m ↦ m.2.importLiteral m.1) =
      parts.mapIdx fun i p ↦
        p.1.writtenLiteral (offset + (document before (parts.take i)).utf8Size) := by
  induction parts generalizing before offset with
  | nil =>
    have hpassed : statementsFrom offset 0 (before ++ []) = _ :=
      statementsFrom_junk h.noImportBefore (.inl rfl)
    rw [List.append_nil] at hpassed
    simp [document, hpassed, statementsFrom]
  | cons p parts ih =>
    obtain ⟨st, after⟩ := p
    have hst : st.WellFormed := h.wellFormed (st, after) List.mem_cons_self
    obtain ⟨t, htext⟩ := st.exists_text_eq_import_append
    have hstart : Text.of "import" <+: st.text ++ document after parts :=
      ⟨t ++ document after parts, by simp [htext]⟩
    have hline : st.quote ∉ restOfLine (st.behind ++ document after parts) :=
      not_mem_restOfLine_append (hst.quote_not_mem_behind hst.quote_mem)
        (h.quote_not_mem hst.quote_mem)
    have hbindings : bindings st.text = st.writtenBindings :=
      st.bindings_text hst (h.tight (st, after) List.mem_cons_self)
        (h.noAs (st, after) List.mem_cons_self)
    rw [document_cons, statementsFrom_junk h.noImportBefore (.inr hstart),
      statementsFrom_of_read? (Statement.read?_text hst hline), List.map_cons, ih h.tail,
      List.mapIdx_cons]
    congr 1
    · simp [Statement.importLiteral, Statement.writtenLiteral, hbindings, document]
    · congr 1
      funext i p
      rw [List.take_succ_cons, document_cons, utf8Size_append, utf8Size_append]
      simp only [Nat.add_assoc]

/-- Scanning a document finds exactly its statements, in order: each with its literal and the place
of it in the document, and with the bindings that it writes. -/
theorem importLiterals_document (h : IsRendering before parts) :
    importLiterals (document before parts) =
      parts.mapIdx fun i p ↦ p.1.writtenLiteral (document before (parts.take i)).utf8Size := by
  have hscan := map_statementsFrom_document h 0
  simp only [Nat.zero_add] at hscan
  exact hscan

/-- One import that renames a file, and one that renames a symbol of it. -/
def renamingImports : List (Statement × Text) :=
  [(.file (.of " ") '"' (.of "a;'import") (some ⟨.of " ", .of " ", .of "A"⟩) (.of " "), .of "\n"),
    (.taking (.of " ") (.listed [] ⟨.of "T", some ⟨.of " ", .of "\n", .of "U"⟩⟩
      [⟨[], .of " ", ⟨.of "V", none⟩⟩] [] (some [])) (.of " ") (.of " ") '\'' (.of "b") [], [])]

/-- The quote, the semicolon and the keyword in the first literal do not mislead the scan. -/
theorem importLiterals_renamingImports :
    IsRendering (.of "/* é */ ") renamingImports ∧
      importLiterals (document (.of "/* é */ ") renamingImports) =
        [⟨.of "a;'import", [⟨.of "A", none⟩], 17, 26⟩,
          ⟨.of "b", [⟨.of "U", some (.of "T")⟩], 61, 62⟩] := by
  have h : IsRendering (.of "/* é */ ") renamingImports :=
    ⟨by decide +kernel, by decide +kernel, by decide, by decide +kernel, by decide +kernel,
      by decide, by decide⟩
  refine ⟨h, ?_⟩
  rw [importLiterals_document h]
  decide +kernel

end SolidityImports
