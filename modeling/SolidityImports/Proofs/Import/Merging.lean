import SolidityImports.Proofs.Import.Rendering

/-! # Statements that merge

A literal reaches to the last quote of its line that can close it. Of two statements on a line, the
first one may so run on to a quote of the second. Main statement: a scan of statements with nothing
but white space between them gives just their literals exactly if no two of them merge in this way. -/

namespace SolidityImports

open Text

variable {before after between s a : Text} {parts : List (Statement × Text)} {st st' : Statement}
  {q c : Char} {offset : Nat}

/-! ## Places of a quote -/

/-- A character that a text does not hold stands behind it. -/
theorem exists_of_append_eq_append_cons {l r : Text} (h : a ++ s = l ++ c :: r) (hc : c ∉ a) :
    ∃ more, l = a ++ more ∧ s = more ++ c :: r := by
  rcases List.append_eq_append_iff.1 h with ⟨more, rfl, hs⟩ | ⟨more, rfl, hmore⟩
  · exact ⟨more, rfl, hs⟩
  · cases more with
    | nil => exact ⟨[], by simp, hmore.symm⟩
    | cons d more =>
      obtain ⟨rfl, -⟩ := List.cons.inj hmore
      exact absurd (List.mem_append_right _ List.mem_cons_self) hc

theorem ImportedName.WellFormed.not_mem {i : ImportedName} (hi : i.WellFormed) (hc : IsMark c) :
    c ∉ i.text := by
  obtain ⟨name, rename⟩ := i
  obtain ⟨hname, hrename⟩ := hi
  cases rename with
  | none => simpa [ImportedName.text] using hc.not_mem_of_isWord hname
  | some r => simp [ImportedName.text, hc.not_mem_of_isWord hname, (hrename r rfl).not_mem hc]

theorem NextName.WellFormed.not_mem {n : NextName} (hn : n.WellFormed) (hc : IsMark c)
    (hcomma : c ≠ ',') : c ∉ n.text := by
  simp [NextName.text, hcomma, hc.not_mem_of_isBlanks hn.before, hc.not_mem_of_isBlanks hn.after,
    hn.item.not_mem hc]

theorem Clause.WellFormed.quote_not_mem {clause : Clause} (h : clause.WellFormed) (hq : q ∈ quotes) :
    q ∉ clause.text := by
  have hmark : IsMark q := isMark_of_mem_quotes hq
  have hne : ∀ c ∉ quotes, q ≠ c := fun c hc heq ↦ hc (heq ▸ hq)
  cases clause with
  | single item => exact ImportedName.WellFormed.not_mem h hmark
  | whole rename =>
    exact List.not_mem_cons_of_ne_of_not_mem (hne '*' (by decide))
      (Renaming.WellFormed.not_mem h hmark)
  | listed afterOpen first more afterLast afterComma =>
    obtain ⟨hopen, hfirst, hmore, hlast, hcomma⟩ := h
    have hnames : q ∉ more.flatMap NextName.text := by
      intro hmem
      obtain ⟨n, hn, hq⟩ := List.mem_flatMap.1 hmem
      exact (hmore n hn).not_mem hmark (hne ',' (by decide)) hq
    have hend : q ∉ (afterComma.map (',' :: ·)).getD [] := by
      cases afterComma with
      | none => exact List.not_mem_nil
      | some b =>
        exact List.not_mem_cons_of_ne_of_not_mem (hne ',' (by decide))
          (hmark.not_mem_of_isBlanks (hcomma b rfl))
    simp [Clause.text, hne '{' (by decide), hne '}' (by decide), hmark.not_mem_of_isBlanks hopen,
      hfirst.not_mem hmark, hnames, hmark.not_mem_of_isBlanks hlast, hend]

/-- What is written before the opening quote of a statement holds no quote. -/
theorem Statement.WellFormed.exists_lead_eq (h : st.WellFormed) :
    ∃ up, st.lead = up ++ [st.quote] ∧ ∀ q ∈ quotes, q ∉ up := by
  cases st with
  | file gap quote literal rename beforeEnd =>
    refine ⟨Text.of "import" ++ gap, rfl, fun q hq ↦ ?_⟩
    have hmark : IsMark q := isMark_of_mem_quotes hq
    simp [hmark.not_mem_of_isWord isWord_import, hmark.not_mem_of_isBlanks h.1.2]
  | taking gap clause beforeFrom afterFrom quote literal beforeEnd =>
    obtain ⟨hgap, hclause, hbefore, hafter, -⟩ := h
    refine ⟨Text.of "import" ++ gap ++ clause.text ++ beforeFrom ++ Text.of "from" ++ afterFrom, rfl,
      fun q hq ↦ ?_⟩
    have hmark : IsMark q := isMark_of_mem_quotes hq
    simp [hmark.not_mem_of_isWord isWord_import, hmark.not_mem_of_isBlanks hgap.2,
      hclause.quote_not_mem hq, hmark.not_mem_of_isBlanks hbefore.2,
      hmark.not_mem_of_isWord isWord_from, hmark.not_mem_of_isBlanks hafter.2]

/-- No quote stands in a text. -/
def NoQuote (s : Text) : Prop := ∀ q ∈ quotes, q ∉ s

instance (s : Text) : Decidable (NoQuote s) :=
  decidable_of_iff (quotes.all (· ∉ s)) (by simp [NoQuote])

/-- Statements with white space alone between them, and no quote in their literals. -/
structure IsPlainSequence (parts : List (Statement × Text)) : Prop where
  wellFormed : ∀ p ∈ parts, p.1.WellFormed
  noQuote : ∀ p ∈ parts, NoQuote p.1.literal
  blanks : ∀ p ∈ parts, p.2.IsBlanks

theorem IsPlainSequence.tail {p : Statement × Text} (h : IsPlainSequence (p :: parts)) :
    IsPlainSequence parts where
  wellFormed := (List.forall_mem_cons.1 h.wellFormed).2
  noQuote := (List.forall_mem_cons.1 h.noQuote).2
  blanks := (List.forall_mem_cons.1 h.blanks).2

/-- A quote behind the start of a statement opens its literal, closes it, or stands behind the
statement. -/
theorem Statement.WellFormed.exists_of_text_append_eq (h : st.WellFormed) (hq : q ∈ quotes)
    (hliteral : q ∉ st.literal) {l r : Text} (heq : st.text ++ s = l ++ q :: r) :
    (st.quote = q ∧ l ++ [q] = st.lead ∧ r = st.literal ++ q :: (st.behind ++ s)) ∨
      (st.quote = q ∧ l = st.lead ++ st.literal ∧ r = st.behind ++ s) ∨
        ∃ more, l = st.text ++ more ∧ s = more ++ q :: r := by
  obtain ⟨up, hlead, hup⟩ := h.exists_lead_eq
  have hparts : up ++ st.quote :: (st.literal ++ st.quote :: (st.behind ++ s)) = l ++ q :: r := by
    rw [← heq, Statement.text_eq, hlead]
    simp
  obtain ⟨l, rfl, hopen⟩ := exists_of_append_eq_append_cons hparts (hup q hq)
  cases l with
  | nil =>
    obtain ⟨hquote, rfl⟩ := List.cons.inj hopen
    exact .inl ⟨hquote, by simp [hlead, hquote], by rw [hquote]⟩
  | cons _ l =>
    obtain ⟨rfl, hinside⟩ := List.cons.inj hopen
    obtain ⟨l, rfl, hclose⟩ := exists_of_append_eq_append_cons hinside hliteral
    cases l with
    | nil =>
      obtain ⟨hquote, rfl⟩ := List.cons.inj hclose
      exact .inr (.inl ⟨hquote, by simp [hlead], rfl⟩)
    | cons _ l =>
      obtain ⟨rfl, hbehind⟩ := List.cons.inj hclose
      obtain ⟨more, rfl, hrest⟩ :=
        exists_of_append_eq_append_cons hbehind (h.quote_not_mem_behind hq)
      exact .inr (.inr ⟨more, by simp [Statement.text_eq, hlead], hrest⟩)

/-- A quote in a sequence of statements opens or closes the literal of one of them. -/
theorem IsPlainSequence.exists_of_document_eq (h : IsPlainSequence parts) (hbefore : before.IsBlanks)
    (hq : q ∈ quotes) {l r : Text} (hdocument : document before parts = l ++ q :: r) :
    ∃ (between : List (Statement × Text)) (st : Statement) (after : Text)
      (rest : List (Statement × Text)), parts = between ++ (st, after) :: rest ∧ st.quote = q ∧
        (l ++ [q] = document before between ++ st.lead ∧
            r = st.literal ++ q :: (st.behind ++ document after rest) ∨
          l = document before between ++ st.lead ++ st.literal ∧
            r = st.behind ++ document after rest) := by
  have hmark : IsMark q := isMark_of_mem_quotes hq
  induction parts generalizing before l with
  | nil =>
    have hmem : q ∈ before := by
      have hnil : before = l ++ q :: r := by simpa [document] using hdocument
      rw [hnil]
      exact List.mem_append_right _ List.mem_cons_self
    exact absurd hmem (hmark.not_mem_of_isBlanks hbefore)
  | cons p parts ih =>
    obtain ⟨st, after⟩ := p
    have hst : st.WellFormed := h.wellFormed _ List.mem_cons_self
    have hliteral : q ∉ st.literal := h.noQuote _ List.mem_cons_self q hq
    have hafter : after.IsBlanks := h.blanks _ List.mem_cons_self
    rw [document_cons] at hdocument
    obtain ⟨l, rfl, hfrom⟩ :=
      exists_of_append_eq_append_cons hdocument (hmark.not_mem_of_isBlanks hbefore)
    rcases hst.exists_of_text_append_eq hq hliteral hfrom with
      ⟨hquote, hl, hr⟩ | ⟨hquote, rfl, hr⟩ | ⟨l, rfl, hrest⟩
    · exact ⟨[], st, after, parts, rfl, hquote, .inl ⟨by simp [document, hl], hr⟩⟩
    · exact ⟨[], st, after, parts, rfl, hquote, .inr ⟨by simp [document], hr⟩⟩
    · obtain ⟨between, st', after', rest, rfl, hquote, hplace⟩ := ih h.tail hafter hrest
      refine ⟨(st, after) :: between, st', after', rest, rfl, hquote, ?_⟩
      rw [document_cons]
      refine hplace.imp ?_ ?_
      · rintro ⟨hl, hr⟩
        exact ⟨by simp only [List.append_assoc, hl], hr⟩
      · rintro ⟨rfl, hr⟩
        exact ⟨by simp, hr⟩

/-! ## What ends a statement -/

/-- The renaming behind the literal. -/
def Statement.rename? : Statement → Option Renaming
  | .file _ _ _ rename _ => rename
  | .taking .. => none

theorem Statement.WellFormed.exists_behind_eq (h : st.WellFormed) :
    ∃ b, b.IsBlanks ∧ (∀ r ∈ st.rename?, r.WellFormed) ∧
      st.behind = (st.rename?.map Renaming.text).getD [] ++ (b ++ [';']) := by
  cases st with
  | file gap quote literal rename beforeEnd =>
    obtain ⟨-, -, -, hrename, hb⟩ := h
    exact ⟨beforeEnd, hb, hrename, by simp [behind, rename?]⟩
  | taking gap clause beforeFrom afterFrom quote literal beforeEnd =>
    obtain ⟨-, -, -, -, -, -, hb⟩ := h
    exact ⟨beforeEnd, hb, by simp [rename?], rfl⟩

/-- Blanks are followed by one character only. -/
theorem eq_of_isBlanks_append_cons {b b' t : Text} {d : Char} (hb : b.IsBlanks) (hb' : b'.IsBlanks)
    (hc : isBlank c = false) (hd : isBlank d = false) (h : b ++ c :: s = b' ++ d :: t) : c = d := by
  have hsplit : (b ++ c :: s).takeBlanks = (b, c :: s) :=
    takeBlanks_eq_iff.2 ⟨rfl, hb, startsOff_cons.2 hc⟩
  have hsplit' : (b ++ c :: s).takeBlanks = (b', d :: t) :=
    takeBlanks_eq_iff.2 ⟨h, hb', startsOff_cons.2 hd⟩
  rw [hsplit] at hsplit'
  exact (List.cons.inj (Prod.mk.inj hsplit').2).1

/-- What is behind a literal ends every statement without a clause. -/
theorem Statement.WellFormed.readFileEnd?_behind (h : st.WellFormed) (s : Text) :
    (readFileEnd? (st.behind ++ s)).isSome := by
  obtain ⟨b, hb, hrename, hbehind⟩ := h.exists_behind_eq
  have hread : readFileEnd? (st.behind ++ s) = some ((st.rename?, b), s) :=
    readFileEnd?_eq_some_iff.2 ⟨by rw [hbehind]; simp, hrename, hb⟩
  exact Option.isSome_iff_exists.2 ⟨_, hread⟩

theorem Statement.isSome_readEnd?_iff :
    (readEnd? s).isSome ↔ ∃ b more, s = b ++ ';' :: more ∧ b.IsBlanks := by
  simp [Option.isSome_iff_exists, readEnd?_eq_some_iff]

/-- What is behind a literal ends a statement with a clause if it does not rename the file. -/
theorem Statement.WellFormed.readEnd?_behind_iff (h : st.WellFormed) (s : Text) :
    (readEnd? (st.behind ++ s)).isSome ↔ st.rename? = none := by
  obtain ⟨b, hb, hrename, hbehind⟩ := h.exists_behind_eq
  rw [isSome_readEnd?_iff, hbehind]
  cases hst : st.rename? with
  | none => exact iff_of_true ⟨b, s, by simp, hb⟩ rfl
  | some r =>
    refine iff_of_false ?_ nofun
    rintro ⟨b', more, heq, hb'⟩
    have has : r.before ++ 'a' :: ('s' :: r.after ++ r.name ++ (b ++ [';']) ++ s) =
        b' ++ ';' :: more := by
      rw [← heq]
      simp [Renaming.text, Text.of]
    exact absurd (eq_of_isBlanks_append_cons (hrename r hst).before.2 hb' (by decide) (by decide) has)
      (by decide)

/-- A literal ends a statement with a clause if it starts with blanks and a semicolon. -/
theorem Statement.isSome_readEnd?_append_quote_iff (hq : q ∈ quotes) :
    (readEnd? (a ++ q :: s)).isSome ↔ ∃ b more, a = b ++ ';' :: more ∧ b.IsBlanks := by
  rw [isSome_readEnd?_iff]
  constructor
  · rintro ⟨b, more, heq, hb⟩
    have hend : q ∉ b ++ [';'] := by
      have hsemicolon : q ≠ ';' := by
        rintro rfl
        exact absurd hq (by decide)
      simp [hsemicolon, (isMark_of_mem_quotes hq).not_mem_of_isBlanks hb]
    have hsplit : (b ++ [';']) ++ more = a ++ q :: s := by simpa using heq.symm
    obtain ⟨rest, rfl, -⟩ := exists_of_append_eq_append_cons hsplit hend
    exact ⟨b, rest, by simp, hb⟩
  · rintro ⟨b, more, rfl, hb⟩
    exact ⟨b, more ++ q :: s, by simp, hb⟩

/-! ## Statements that run on -/

/-- One statement merges with a later one: both use the same quote, nothing from the end of the first
up to the literal of the second breaks the line, and if the first one has a clause, then the second
one does not rename its file, or has a literal that starts like an end. -/
def Statement.MergesWith (st : Statement) (between : Text) (st' : Statement) : Prop :=
  st'.quote = st.quote ∧ '\n' ∉ st.behind ++ between ++ st'.lead ∧
    match st with
    | .file .. => True
    | .taking .. => st'.rename? = none ∨ ∃ b more, st'.literal = b ++ ';' :: more ∧ b.IsBlanks

/-- A statement merges with one of those behind it. -/
def Statement.MergesInto (st : Statement) (after : Text) (rest : List (Statement × Text)) : Prop :=
  ∃ between st' after' rest', rest = between ++ (st', after') :: rest' ∧
    st.MergesWith (document after between) st'

/-- Some statement of a sequence merges with one of those behind it. -/
def HasMerge (parts : List (Statement × Text)) : Prop :=
  ∃ front st after rest, parts = front ++ (st, after) :: rest ∧ st.MergesInto after rest

theorem not_hasMerge_nil : ¬ HasMerge [] := by
  rintro ⟨front, st, after, rest, hparts, -⟩
  exact List.append_ne_nil_of_right_ne_nil front (List.cons_ne_nil _ rest) hparts.symm

theorem hasMerge_cons_iff :
    HasMerge ((st, after) :: parts) ↔ st.MergesInto after parts ∨ HasMerge parts := by
  constructor
  · rintro ⟨front, st', after', rest, hparts, hmerge⟩
    cases front with
    | nil =>
      obtain ⟨⟨rfl, rfl⟩, rfl⟩ := by simpa using hparts
      exact .inl hmerge
    | cons p front =>
      obtain ⟨-, rfl⟩ := List.cons.inj hparts
      exact .inr ⟨front, st', after', rest, rfl, hmerge⟩
  · rintro (hmerge | ⟨front, st', after', rest, rfl, hmerge⟩)
    · exact ⟨[], st, after, parts, rfl, hmerge⟩
    · exact ⟨(st, after) :: front, st', after', rest, rfl, hmerge⟩

theorem document_append_cons (before : Text) (between : List (Statement × Text)) (st : Statement)
    (after : Text) (rest : List (Statement × Text)) :
    document before (between ++ (st, after) :: rest) =
      document before between ++ (st.text ++ document after rest) := by
  simp [document]

/-- The first of the statements is read as it is written exactly if it merges with none of the
others. -/
theorem IsPlainSequence.read?_text_iff (h : IsPlainSequence ((st, after) :: parts)) :
    Statement.read? (st.text ++ document after parts) = some (st, document after parts) ↔
      ¬ st.MergesInto after parts := by
  have hst : st.WellFormed := h.wellFormed _ List.mem_cons_self
  have hquote : st.quote ∈ quotes := hst.quote_mem
  rw [Statement.read?_text_iff hst]
  constructor
  · rintro hnone ⟨between, st', after', rest, rfl, hsame, hline, hends⟩
    have hst' : st'.WellFormed := h.wellFormed (st', after') (by simp)
    obtain ⟨up, hlead, -⟩ := hst'.exists_lead_eq
    have hopen := hnone (st.behind ++ document after between ++ up)
      (st'.literal ++ st.quote :: (st'.behind ++ document after' rest))
      (by simp [document_append_cons, Statement.text_eq, hlead, hsame])
      (by simpa [hlead, hst'.quote_ne.symm] using hline)
    have hclose := hnone (st.behind ++ document after between ++ st'.lead ++ st'.literal)
      (st'.behind ++ document after' rest)
      (by simp [document_append_cons, Statement.text_eq, hsame])
      (by simpa [hst'.literal_not_mem] using hline)
    cases st with
    | file => exact hclose (hst'.readFileEnd?_behind _)
    | taking =>
      rcases hends with hrename | hliteral
      · exact hclose ((hst'.readEnd?_behind_iff _).2 hrename)
      · exact hopen ((Statement.isSome_readEnd?_append_quote_iff hquote).2 hliteral)
  · intro hnot literal s heq hline hend
    obtain ⟨l, rfl, hdocument⟩ :=
      exists_of_append_eq_append_cons heq (hst.quote_not_mem_behind hquote)
    obtain ⟨between, st', after', rest, rfl, hsame, hplace⟩ :=
      h.tail.exists_of_document_eq (h.blanks _ List.mem_cons_self) hquote hdocument
    have hst' : st'.WellFormed := h.wellFormed (st', after') (by simp)
    refine hnot ⟨between, st', after', rest, rfl, hsame, ?_, ?_⟩
    · rcases hplace with ⟨hl, -⟩ | ⟨rfl, -⟩
      · rw [List.append_assoc, ← hl]
        simpa [hst.quote_ne.symm] using hline
      · simp only [List.mem_append, not_or] at hline ⊢
        exact ⟨⟨hline.1, hline.2.1.1⟩, hline.2.1.2⟩
    · cases st with
      | file => trivial
      | taking =>
        rcases hplace with ⟨-, rfl⟩ | ⟨-, rfl⟩
        · exact .inr ((Statement.isSome_readEnd?_append_quote_iff hquote).1 hend)
        · exact .inl ((hst'.readEnd?_behind_iff _).1 hend)

/-! ## The literals that are found -/

theorem not_import_infix_of_isBlanks (h : before.IsBlanks) : ¬ Text.of "import" <:+: before := by
  intro hword
  exact absurd (h 'i' (hword.subset (by decide))) (by decide)

/-- A statement that merges is not found: what is found in its place has a longer literal. -/
theorem Statement.exists_read?_of_ne (h : st.WellFormed)
    (hne : read? (st.text ++ s) ≠ some (st, s)) :
    ∃ st' rest, st.text ++ s = st'.text ++ rest ∧ read? (st'.text ++ rest) = some (st', rest) ∧
      st'.literal ≠ st.literal := by
  obtain ⟨st', rest, hread, hlonger⟩ := exists_read?_text h s
  obtain ⟨htext, -⟩ := read?_eq_some hread
  refine ⟨st', rest, htext, htext ▸ hread, ?_⟩
  rcases hlonger with rfl | hlonger
  · obtain rfl : s = rest := List.append_cancel_left htext
    exact absurd hread hne
  · intro heq
    rw [heq] at hlonger
    exact absurd hlonger (Nat.lt_irrefl _)

theorem IsPlainSequence.map_statementsFrom_document_iff (h : IsPlainSequence parts)
    (hbefore : before.IsBlanks) :
    ((statementsFrom offset 0 (document before parts)).map fun m ↦ m.2.literal) =
      parts.map (fun p ↦ p.1.literal) ↔ ¬ HasMerge parts := by
  induction parts generalizing before offset with
  | nil =>
    have hpassed : statementsFrom offset 0 (before ++ []) = _ :=
      statementsFrom_junk (not_import_infix_of_isBlanks hbefore) (.inl rfl)
    rw [List.append_nil] at hpassed
    simp [document, hpassed, statementsFrom, not_hasMerge_nil]
  | cons p parts ih =>
    obtain ⟨st, after⟩ := p
    have hst : st.WellFormed := h.wellFormed _ List.mem_cons_self
    have hstart : Text.of "import" <+: st.text ++ document after parts := by
      obtain ⟨t, htext⟩ := st.exists_text_eq_import_append
      exact ⟨t ++ document after parts, by simp [htext]⟩
    rw [document_cons, statementsFrom_junk (not_import_infix_of_isBlanks hbefore) (.inr hstart),
      hasMerge_cons_iff, not_or, ← h.read?_text_iff]
    by_cases hread : Statement.read? (st.text ++ document after parts) =
        some (st, document after parts)
    · rw [statementsFrom_of_read? hread, List.map_cons, List.map_cons, List.cons.injEq,
        ih h.tail (h.blanks _ List.mem_cons_self)]
      simp [hread]
    · obtain ⟨st', rest, htext, hread', hne⟩ := Statement.exists_read?_of_ne hst hread
      rw [htext, statementsFrom_of_read? hread']
      simp [← htext, hread, hne]

/-- A scan of statements with white space alone between them gives one path for each, as it is
written, exactly if no two of the statements merge. -/
theorem importPaths_document_iff (h : IsPlainSequence parts) (hbefore : before.IsBlanks) :
    importPaths (document before parts) = parts.map (fun p ↦ p.1.literal) ↔ ¬ HasMerge parts :=
  h.map_statementsFrom_document_iff hbefore

/-- Two statements on one line that use different quotes, and one on the next line. -/
def mixedQuotes : List (Statement × Text) :=
  [(.file (.of " ") '"' (.of "a") none [], .of " "),
    (.taking (.of " ") (.single ⟨.of "B", none⟩) (.of " ") (.of " ") '\'' (.of "b") [], .of "\n"),
    (.file (.of " ") '"' (.of "c") (some ⟨.of " ", .of " ", .of "C"⟩) [], [])]

theorem isPlainSequence_mixedQuotes : IsPlainSequence mixedQuotes :=
  ⟨by decide +kernel, by decide +kernel, by decide +kernel⟩

theorem not_hasMerge_mixedQuotes : IsPlainSequence mixedQuotes ∧ IsBlanks (.of " ") ∧
    importPaths (document (.of " ") mixedQuotes) = [.of "a", .of "b", .of "c"] ∧
      ¬ HasMerge mixedQuotes := by
  have hblanks : IsBlanks (.of " ") := by decide
  have hpaths : importPaths (document (.of " ") mixedQuotes) = [.of "a", .of "b", .of "c"] := by
    decide +kernel
  exact ⟨isPlainSequence_mixedQuotes, hblanks, hpaths,
    (importPaths_document_iff isPlainSequence_mixedQuotes hblanks).1 hpaths⟩

/-- Two statements on one line. -/
def twoOnLine : List (Statement × Text) :=
  [(.file (.of " ") '"' (.of "A.sol") none [], .of " "),
    (.file (.of " ") '"' (.of "B.sol") none [], [])]

/-- The second statement is lost, and the first one swallows it. -/
theorem importPaths_twoOnLine : IsPlainSequence twoOnLine ∧
    document [] twoOnLine = .of "import \"A.sol\"; import \"B.sol\";" ∧
      importPaths (document [] twoOnLine) = [.of "A.sol\"; import \"B.sol"] ∧
        importPaths (document [] twoOnLine) ≠ twoOnLine.map fun p ↦ p.1.literal :=
  ⟨⟨by decide +kernel, by decide +kernel, by decide +kernel⟩, by decide +kernel, by decide +kernel,
    by decide +kernel⟩

end SolidityImports
