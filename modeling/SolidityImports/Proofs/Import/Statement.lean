import SolidityImports.Proofs.Import.Clause
import SolidityImports.Proofs.Text.Line

/-! # The grammar of import statements

The well-formed statements and how they are read. A statement without its literal is read in one way
only, so all that is left to choose is where the literal ends, and the longest literal is taken.
Main statements: what is read is well-formed; a well-formed statement is read, or one with a longer
literal; and it is read itself if no quote follows it on its line. -/

namespace SolidityImports

open Text

variable {s rest : Text}

/-! ## The longest literal -/

section LongestLiteral

variable {α : Type} {tail? : Text → Option (α × Text)} {quote : Char} {literal : Text} {x : α}

theorem longestLiteral?_eq_some (h : longestLiteral? tail? quote s = some (literal, x, rest)) :
    '\n' ∉ literal ∧ ∃ s', s = literal ++ quote :: s' ∧ tail? s' = some (x, rest) := by
  induction s generalizing literal with
  | nil => cases h
  | cons c s ih =>
    rw [longestLiteral?] at h
    split at h
    · cases h
    rename_i hc
    cases hlongest : longestLiteral? tail? quote s with
    | some found =>
      obtain ⟨more, y, rest'⟩ := found
      rw [hlongest] at h
      obtain ⟨rfl, rfl, rfl⟩ := h
      obtain ⟨hmore, s', rfl, htail⟩ := ih hlongest
      exact ⟨by simp [hmore, Ne.symm hc], s', rfl, htail⟩
    | none =>
      rw [hlongest] at h
      dsimp only at h
      split at h
      · rename_i hquote
        obtain ⟨⟨y, rest'⟩, htail, heq⟩ := Option.map_eq_some_iff.1 h
        obtain ⟨rfl, rfl, rfl⟩ := heq
        exact ⟨List.not_mem_nil, s, by rw [hquote]; rfl, htail⟩
      · cases h

/-- A literal is found, unless there is a longer one. -/
theorem longestLiteral?_append (hliteral : '\n' ∉ literal) (hquote : quote ≠ '\n')
    (htail : tail? s = some (x, rest)) :
    longestLiteral? tail? quote (literal ++ quote :: s) =
      match longestLiteral? tail? quote s with
      | some (more, end_) => some (literal ++ quote :: more, end_)
      | none => some (literal, x, rest) := by
  induction literal with
  | nil =>
    rw [List.nil_append, longestLiteral?, if_neg hquote, if_pos rfl, htail]
    cases longestLiteral? tail? quote s <;> rfl
  | cons c literal ih =>
    obtain ⟨hc, hliteral⟩ := List.ne_and_not_mem_of_not_mem_cons hliteral
    rw [List.cons_append, longestLiteral?, if_neg hc.symm, ih hliteral]
    cases longestLiteral? tail? quote s <;> rfl

/-- There is no literal exactly if nothing that `tail?` reads follows a quote of the line. -/
theorem longestLiteral?_eq_none_iff (hquote : quote ≠ '\n') :
    longestLiteral? tail? quote s = none ↔
      ∀ literal s', s = literal ++ quote :: s' → '\n' ∉ literal → ¬ (tail? s').isSome := by
  constructor
  · rintro hnone literal s' rfl hliteral hsome
    obtain ⟨⟨x, rest⟩, htail⟩ := Option.isSome_iff_exists.1 hsome
    rw [longestLiteral?_append hliteral hquote htail] at hnone
    split at hnone <;> cases hnone
  · intro h
    cases hlongest : longestLiteral? tail? quote s with
    | none => rfl
    | some found =>
      obtain ⟨literal, x, rest⟩ := found
      obtain ⟨hliteral, s', hs, htail⟩ := longestLiteral?_eq_some hlongest
      exact absurd (Option.isSome_iff_exists.2 ⟨_, htail⟩) (h literal s' hs hliteral)

/-- Where the line has no closing quote, there is no literal. -/
theorem longestLiteral?_eq_none (h : quote ∉ restOfLine s) :
    longestLiteral? tail? quote s = none := by
  induction s with
  | nil => rfl
  | cons c s ih =>
    rw [longestLiteral?]
    split
    · rfl
    · rename_i hc
      have hline : restOfLine (c :: s) = c :: restOfLine s := by simp [restOfLine, hc]
      rw [hline] at h
      obtain ⟨hne, hmore⟩ := List.ne_and_not_mem_of_not_mem_cons h
      rw [ih hmore]
      exact if_neg hne.symm

end LongestLiteral

namespace Statement

/-- A statement is well-formed in all its parts, with blanks where they must stand and where they
may, and a literal that stands on one line between two quotes of one kind. -/
def WellFormed : Statement → Prop
  | .file gap quote literal rename beforeEnd =>
    gap.IsGap ∧ quote ∈ quotes ∧ '\n' ∉ literal ∧ (∀ r ∈ rename, r.WellFormed) ∧
      beforeEnd.IsBlanks
  | .taking gap clause beforeFrom afterFrom quote literal beforeEnd =>
    gap.IsGap ∧ clause.WellFormed ∧ beforeFrom.IsGap ∧ afterFrom.IsGap ∧ quote ∈ quotes ∧
      '\n' ∉ literal ∧ beforeEnd.IsBlanks

instance : (st : Statement) → Decidable st.WellFormed
  | .file gap quote literal rename beforeEnd =>
    inferInstanceAs (Decidable (gap.IsGap ∧ quote ∈ quotes ∧ '\n' ∉ literal ∧
      (∀ r ∈ rename, r.WellFormed) ∧ beforeEnd.IsBlanks))
  | .taking gap clause beforeFrom afterFrom quote literal beforeEnd =>
    inferInstanceAs (Decidable (gap.IsGap ∧ clause.WellFormed ∧ beforeFrom.IsGap ∧
      afterFrom.IsGap ∧ quote ∈ quotes ∧ '\n' ∉ literal ∧ beforeEnd.IsBlanks))

theorem readEnd?_eq_some_iff {b : Text} :
    readEnd? s = some (b, rest) ↔ s = b ++ ';' :: rest ∧ b.IsBlanks := by
  obtain ⟨b', s', hblanks, rfl, hb'⟩ := exists_takeBlanks_eq s
  simp only [readEnd?, hblanks, Option.bind_eq_bind, Option.bind_eq_some_iff, Option.pure_def,
    Option.some.injEq, Prod.mk.injEq, after?_eq_some_iff]
  constructor
  · rintro ⟨_, rfl, rfl, rfl⟩
    exact ⟨rfl, hb'⟩
  · rintro ⟨heq, hb⟩
    have hsplit : (b ++ ';' :: rest).takeBlanks = (b, ';' :: rest) :=
      takeBlanks_mark hb (by decide)
    rw [heq, hsplit] at hblanks
    obtain ⟨rfl, rfl⟩ := Prod.mk.inj hblanks
    exact ⟨rest, rfl, rfl, rfl⟩

theorem readFileEnd?_eq_some_iff {rename : Option Renaming} {b : Text} :
    readFileEnd? s = some ((rename, b), rest) ↔
      s = (rename.map Renaming.text).getD [] ++ (b ++ ';' :: rest) ∧
        (∀ r ∈ rename, r.WellFormed) ∧ b.IsBlanks := by
  simp only [readFileEnd?, Option.bind_eq_bind, Option.bind_eq_some_iff, Prod.exists,
    Option.pure_def, Option.some.injEq, Prod.mk.injEq, readEnd?_eq_some_iff]
  constructor
  · obtain ⟨rename', s', hread⟩ : ∃ rename' s', optionally Renaming.read? s = (rename', s') :=
      ⟨_, _, rfl⟩
    rw [hread]
    rintro ⟨_, _, ⟨rfl, hb⟩, ⟨rfl, rfl⟩, rfl⟩
    rcases optionally_cases hread with ⟨r, rfl, hr⟩ | ⟨rfl, rfl, -⟩
    · obtain ⟨rfl, hwf, -⟩ := Renaming.read?_eq_some_iff.1 hr
      refine ⟨rfl, ?_, hb⟩
      rintro _ ⟨⟩
      exact hwf
    · exact ⟨rfl, nofun, hb⟩
  · rintro ⟨rfl, hrename, hb⟩
    have hread : optionally Renaming.read? ((rename.map Renaming.text).getD [] ++
        (b ++ ';' :: rest)) = (rename, b ++ ';' :: rest) := by
      cases rename with
      | none =>
        exact optionally_of_none (Renaming.read?_mark hb (by decide))
      | some r =>
        refine optionally_of_some (Renaming.read?_eq_some_iff.2 ⟨rfl, hrename r rfl, ?_⟩)
        exact hb.startsOff_mark (by decide)
    rw [hread]
    exact ⟨b, rest, ⟨rfl, hb⟩, ⟨rfl, rfl⟩, rfl⟩

/-- What is read as a statement is one, and stands there. -/
theorem read?_eq_some {st : Statement} (h : read? s = some (st, rest)) :
    s = st.text ++ rest ∧ st.WellFormed := by
  simp only [read?, Option.bind_eq_bind, Option.bind_eq_some_iff, after?_eq_some_iff] at h
  obtain ⟨_, rfl, ⟨gap, s⟩, hreadGap, h⟩ := h
  obtain ⟨rfl, hgap, -⟩ := takeBlanks?_eq_some_iff.1 hreadGap
  cases s with
  | nil => cases h
  | cons c s =>
    dsimp only at h
    split at h
    · rename_i hc
      simp only [Option.bind_eq_some_iff] at h
      obtain ⟨⟨literal, ⟨rename, beforeEnd⟩, rest'⟩, hreadLiteral, heq⟩ := h
      obtain ⟨rfl, rfl⟩ := Prod.mk.inj (Option.some.inj heq)
      obtain ⟨hliteral, _, rfl, htail⟩ := longestLiteral?_eq_some hreadLiteral
      obtain ⟨rfl, hrename, hb⟩ := readFileEnd?_eq_some_iff.1 htail
      exact ⟨by simp [text, lead, trail, Statement.literal], hgap, hc, hliteral, hrename, hb⟩
    · simp only [Option.bind_eq_some_iff, after?_eq_some_iff] at h
      obtain ⟨⟨clause, s₁⟩, hreadClause, ⟨beforeFrom, _⟩, hreadBefore, _, rfl,
        ⟨afterFrom, s₂⟩, hreadAfter, h⟩ := h
      obtain ⟨heq, hclause⟩ := Clause.read?_eq_some hreadClause
      obtain ⟨rfl, hbefore, -⟩ := takeBlanks?_eq_some_iff.1 hreadBefore
      obtain ⟨rfl, hafter, -⟩ := takeBlanks?_eq_some_iff.1 hreadAfter
      rw [heq]
      cases s₂ with
      | nil => cases h
      | cons quote s₂ =>
        dsimp only at h
        split at h
        · rename_i hquote
          simp only [Option.bind_eq_some_iff] at h
          obtain ⟨⟨literal, beforeEnd, rest'⟩, hreadLiteral, heq⟩ := h
          obtain ⟨rfl, rfl⟩ := Prod.mk.inj (Option.some.inj heq)
          obtain ⟨hliteral, _, rfl, htail⟩ := longestLiteral?_eq_some hreadLiteral
          obtain ⟨rfl, hb⟩ := readEnd?_eq_some_iff.1 htail
          exact ⟨by simp [text, lead, trail, Statement.literal], hgap, hclause, hbefore, hafter,
            hquote, hliteral, hb⟩
        · cases h

/-- The quote on both sides of the literal. -/
def quote : Statement → Char
  | .file _ quote _ _ _ | .taking _ _ _ _ quote _ _ => quote

/-- What is written behind the closing quote. -/
def behind : Statement → Text
  | .file _ _ _ rename beforeEnd => (rename.map Renaming.text).getD [] ++ beforeEnd ++ [';']
  | .taking _ _ _ _ _ _ beforeEnd => beforeEnd ++ [';']

theorem text_eq (st : Statement) : st.text = st.lead ++ (st.literal ++ st.quote :: st.behind) := by
  cases st <;> simp [text, trail, behind, quote]

theorem read?_lead_file {gap literal beforeEnd : Text} {quote : Char} {rename : Option Renaming}
    (hgap : gap.IsGap) (hquote : quote ∈ quotes) :
    read? ((file gap quote literal rename beforeEnd).lead ++ s) =
      (longestLiteral? readFileEnd? quote s).map fun (literal, end_, rest) ↦
        (.file gap quote literal end_.1 end_.2, rest) := by
  have hlead : (file gap quote literal rename beforeEnd).lead ++ s =
      Text.of "import" ++ (gap ++ quote :: s) := by simp [lead]
  have hblanks : (gap ++ quote :: s).takeBlanks? = some (gap, quote :: s) :=
    takeBlanks?_append hgap (startsOff_cons.2 (isMark_of_mem_quotes hquote).1)
  rw [hlead]
  simp only [read?, after?_append, hblanks, Option.bind_eq_bind, Option.bind_some, if_pos hquote]
  cases longestLiteral? readFileEnd? quote s <;> rfl

theorem read?_lead_taking {gap beforeFrom afterFrom literal beforeEnd : Text} {clause : Clause}
    {quote : Char} (hgap : gap.IsGap) (hclause : clause.WellFormed) (hbefore : beforeFrom.IsGap)
    (hafter : afterFrom.IsGap) (hquote : quote ∈ quotes) :
    read? ((taking gap clause beforeFrom afterFrom quote literal beforeEnd).lead ++ s) =
      (longestLiteral? readEnd? quote s).map fun (literal, end_, rest) ↦
        (.taking gap clause beforeFrom afterFrom quote literal end_, rest) := by
  obtain ⟨c, t, htext, hblank, hc⟩ := hclause.exists_text_eq_cons
  have hlead : (taking gap clause beforeFrom afterFrom quote literal beforeEnd).lead ++ s =
      Text.of "import" ++ (gap ++ c :: (t ++ (beforeFrom ++ (Text.of "from" ++
        (afterFrom ++ quote :: s))))) := by simp [lead, htext]
  have hgapBlanks : ∀ s, (gap ++ c :: s).takeBlanks? = some (gap, c :: s) := by
    intro s
    exact takeBlanks?_append hgap (startsOff_cons.2 hblank)
  have hread : ∀ s, Clause.read? (c :: (t ++ (beforeFrom ++ (Text.of "from" ++ s)))) =
      some (clause, beforeFrom ++ (Text.of "from" ++ s)) := by
    intro s
    rw [← List.cons_append, ← htext]
    exact Clause.read?_text hclause (clause.endsBefore_from hbefore)
  have hbeforeBlanks : ∀ s, (beforeFrom ++ (Text.of "from" ++ s)).takeBlanks? =
      some (beforeFrom, Text.of "from" ++ s) := by
    intro s
    exact takeBlanks?_append hbefore isWord_from.startsOff
  have hafterBlanks : (afterFrom ++ quote :: s).takeBlanks? = some (afterFrom, quote :: s) :=
    takeBlanks?_append hafter (startsOff_cons.2 (isMark_of_mem_quotes hquote).1)
  rw [hlead]
  simp only [read?, after?_append, hgapBlanks, if_neg hc, hread, hbeforeBlanks, hafterBlanks,
    if_pos hquote, Option.bind_eq_bind, Option.bind_some]
  cases longestLiteral? readEnd? quote s <;> rfl

/-- Whether a text starts with what may end a statement: blanks and a semicolon, and if the statement
has no clause, also a renaming before them. -/
def CanEnd : Statement → Text → Prop
  | .file .., s => (readFileEnd? s).isSome
  | .taking .., s => (readEnd? s).isSome

/-- Reading a statement comes down to the longest literal behind its lead: the literal makes the
statement, together with what is read behind it. -/
theorem exists_read?_lead {st : Statement} (h : st.WellFormed) :
    ∃ (α : Type) (tail? : Text → Option (α × Text)) (build : Text → α → Statement) (x : α),
      (∀ s, read? (st.lead ++ s) = (longestLiteral? tail? st.quote s).map
        fun (literal, y, rest) ↦ (build literal y, rest)) ∧
      (∀ rest, tail? (st.behind ++ rest) = some (x, rest)) ∧
      (∀ literal y, (build literal y).literal = literal) ∧ build st.literal x = st ∧
      ∀ s, (tail? s).isSome ↔ st.CanEnd s := by
  cases st with
  | file gap quote literal rename beforeEnd =>
    obtain ⟨hgap, hquote, -, hrename, hb⟩ := h
    refine ⟨_, readFileEnd?, fun literal y ↦ .file gap quote literal y.1 y.2, (rename, beforeEnd),
      fun s ↦ read?_lead_file hgap hquote, fun rest ↦ ?_, fun _ _ ↦ rfl, rfl, fun _ ↦ .rfl⟩
    exact readFileEnd?_eq_some_iff.2 ⟨by simp [behind], hrename, hb⟩
  | taking gap clause beforeFrom afterFrom quote literal beforeEnd =>
    obtain ⟨hgap, hclause, hbefore, hafter, hquote, -, hb⟩ := h
    refine ⟨_, readEnd?, fun literal y ↦ .taking gap clause beforeFrom afterFrom quote literal y,
      beforeEnd, fun s ↦ read?_lead_taking hgap hclause hbefore hafter hquote, fun rest ↦ ?_,
      fun _ _ ↦ rfl, rfl, fun _ ↦ .rfl⟩
    exact readEnd?_eq_some_iff.2 ⟨by simp [behind], hb⟩

theorem WellFormed.quote_mem {st : Statement} (h : st.WellFormed) : st.quote ∈ quotes := by
  cases st with
  | file => exact h.2.1
  | taking => exact h.2.2.2.2.1

theorem WellFormed.literal_not_mem {st : Statement} (h : st.WellFormed) : '\n' ∉ st.literal := by
  cases st with
  | file => exact h.2.2.1
  | taking => exact h.2.2.2.2.2.1

theorem WellFormed.quote_ne {st : Statement} (h : st.WellFormed) : st.quote ≠ '\n' := by
  intro hnewline
  have hmark := isMark_of_mem_quotes h.quote_mem
  rw [hnewline] at hmark
  exact absurd hmark (by decide)

/-- A well-formed statement is read where it stands, or else one with a longer literal. -/
theorem exists_read?_text {st : Statement} (h : st.WellFormed) (rest : Text) :
    ∃ st' rest', read? (st.text ++ rest) = some (st', rest') ∧
      (st' = st ∨ st.literal.length < st'.literal.length) := by
  obtain ⟨α, tail?, build, x, hlead, htail, hbuild, hst, -⟩ := exists_read?_lead h
  have htext : st.text ++ rest = st.lead ++ (st.literal ++ st.quote :: (st.behind ++ rest)) := by
    simp [text_eq]
  rw [htext, hlead, longestLiteral?_append h.literal_not_mem h.quote_ne (htail rest)]
  cases longestLiteral? tail? st.quote (st.behind ++ rest) with
  | none => exact ⟨st, rest, by simp [hst], .inl rfl⟩
  | some found =>
    obtain ⟨more, y, rest'⟩ := found
    refine ⟨build (st.literal ++ st.quote :: more) y, rest', rfl, .inr ?_⟩
    rw [hbuild, List.length_append, List.length_cons]
    omega

/-- A well-formed statement is read where it stands exactly if no further quote of its kind, on the
line of its end, could close its literal. -/
theorem read?_text_iff {st : Statement} (h : st.WellFormed) :
    read? (st.text ++ rest) = some (st, rest) ↔
      ∀ literal s, st.behind ++ rest = literal ++ st.quote :: s → '\n' ∉ literal →
        ¬ st.CanEnd s := by
  obtain ⟨α, tail?, build, x, hlead, htail, hbuild, hst, hend⟩ := exists_read?_lead h
  have htext : st.text ++ rest = st.lead ++ (st.literal ++ st.quote :: (st.behind ++ rest)) := by
    simp [text_eq]
  simp only [← hend]
  rw [← longestLiteral?_eq_none_iff h.quote_ne, htext, hlead,
    longestLiteral?_append h.literal_not_mem h.quote_ne (htail rest)]
  cases longestLiteral? tail? st.quote (st.behind ++ rest) with
  | none => simp [hst]
  | some found =>
    -- The literal that is read is longer than the one that is written.
    obtain ⟨more, y, rest'⟩ := found
    have hne : build (st.literal ++ st.quote :: more) y ≠ st := by
      intro heq
      have hliteral := congrArg (fun st ↦ st.literal.length) heq
      simp [hbuild] at hliteral
    simp [hne]

/-- A well-formed statement is read where it stands if no further quote of its kind stands on the
line of its end. -/
theorem read?_text {st : Statement} (h : st.WellFormed)
    (hline : st.quote ∉ restOfLine (st.behind ++ rest)) :
    read? (st.text ++ rest) = some (st, rest) := by
  obtain ⟨α, tail?, build, x, hlead, htail, hbuild, hst, -⟩ := exists_read?_lead h
  have htext : st.text ++ rest = st.lead ++ (st.literal ++ st.quote :: (st.behind ++ rest)) := by
    simp [text_eq]
  rw [htext, hlead, longestLiteral?_append h.literal_not_mem h.quote_ne (htail rest),
    longestLiteral?_eq_none hline]
  simp [hst]

end Statement

end SolidityImports
