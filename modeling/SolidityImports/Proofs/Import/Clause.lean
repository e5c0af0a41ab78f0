import SolidityImports.Import.Statement
import SolidityImports.Proofs.Text.Reading

/-! # The grammar of clauses

The well-formed clauses of import statements, with all their white space. Main statement: a reader
gives a clause exactly for its text, up to where the clause cannot go on. -/

namespace SolidityImports

open Text

variable {s rest : Text}

section Optionally

variable {α : Type} {read? : Text → Option (α × Text)}

theorem optionally_of_some {x : α} (h : read? s = some (x, rest)) :
    optionally read? s = (some x, rest) := by
  simp only [optionally, h]

theorem optionally_of_none (h : read? s = none) : optionally read? s = (none, s) := by
  simp only [optionally, h]

/-- Reading optionally gives what is read, or nothing if nothing can be read. -/
theorem optionally_cases {o : Option α} (h : optionally read? s = (o, rest)) :
    (∃ x, o = some x ∧ read? s = some (x, rest)) ∨ o = none ∧ rest = s ∧ read? s = none := by
  cases hread : read? s with
  | none =>
    rw [optionally_of_none hread] at h
    obtain ⟨rfl, rfl⟩ := Prod.mk.inj h
    exact .inr ⟨rfl, rfl, rfl⟩
  | some x =>
    obtain ⟨x, rest'⟩ := x
    rw [optionally_of_some hread] at h
    obtain ⟨rfl, rfl⟩ := Prod.mk.inj h
    exact .inl ⟨x, rfl, rfl⟩

end Optionally

/-! ## Renamings -/

theorem isWord_as : IsWord (Text.of "as") := by decide

/-- A renaming has blanks around its `as`, and a word. -/
structure Renaming.WellFormed (r : Renaming) : Prop where
  before : r.before.IsGap
  after : r.after.IsGap
  name : r.name.IsWord

instance (r : Renaming) : Decidable r.WellFormed :=
  decidable_of_iff (r.before.IsGap ∧ r.after.IsGap ∧ r.name.IsWord)
    ⟨fun ⟨hbefore, hafter, hname⟩ ↦ ⟨hbefore, hafter, hname⟩,
      fun h ↦ ⟨h.before, h.after, h.name⟩⟩

theorem Renaming.read?_eq_some_iff {r : Renaming} :
    read? s = some (r, rest) ↔
      s = r.text ++ rest ∧ r.WellFormed ∧ StartsOff isWordChar rest := by
  simp only [read?, Option.bind_eq_bind, Option.bind_eq_some_iff, Prod.exists, Option.pure_def,
    Option.some.injEq, Prod.mk.injEq, takeBlanks?_eq_some_iff, word?_eq_some_iff,
    after?_eq_some_iff]
  constructor
  · rintro ⟨before, _, ⟨rfl, hbefore, -⟩, _, rfl, after, _, ⟨rfl, hafter, -⟩, name, _,
      ⟨rfl, hname, hrest⟩, rfl, rfl⟩
    exact ⟨by simp [text], ⟨hbefore, hafter, hname⟩, hrest⟩
  · rintro ⟨rfl, hr, hrest⟩
    refine ⟨r.before, _, ⟨by simp [text], hr.before, ?_⟩, _, rfl, r.after, _,
      ⟨rfl, hr.after, hr.name.startsOff⟩, r.name, rest, ⟨rfl, hr.name, hrest⟩, rfl, rfl⟩
    exact isWord_as.startsOff

/-- There is no renaming where no `as` follows the blanks. -/
theorem Renaming.read?_eq_none {b : Text} (hb : b.IsBlanks) (hrest : StartsOff isBlank rest)
    (has : Text.after? (.of "as") rest = none) : read? (b ++ rest) = none := by
  have hblanks : takeBlanks (b ++ rest) = (b, rest) := takeBlanks_eq_iff.2 ⟨rfl, hb, hrest⟩
  unfold read? takeBlanks?
  split
  · rfl
  · simp [hblanks, has]

/-- There is no renaming behind blanks and a mark. -/
theorem Renaming.read?_mark {b : Text} {c : Char} (hb : b.IsBlanks) (hc : IsMark c) :
    read? (b ++ c :: s) = none := by
  refine read?_eq_none hb (startsOff_cons.2 hc.1) ?_
  have hne : 'a' ≠ c := by
    rintro rfl
    exact absurd hc (by decide)
  simp [Text.of, after?, hne]

/-! ## Imported names -/

/-- An imported name is a word, with a renaming or without one. -/
def ImportedName.WellFormed (i : ImportedName) : Prop :=
  i.name.IsWord ∧ ∀ r ∈ i.rename, r.WellFormed

instance (i : ImportedName) : Decidable i.WellFormed :=
  inferInstanceAs (Decidable (i.name.IsWord ∧ ∀ r ∈ i.rename, r.WellFormed))

/-- An imported name goes no further: neither its last word, nor by a renaming. -/
def ImportedName.EndsBefore (i : ImportedName) (rest : Text) : Prop :=
  StartsOff isWordChar rest ∧ (i.rename = none → Renaming.read? rest = none)

theorem ImportedName.endsBefore_mark (i : ImportedName) {b : Text} {c : Char}
    (hb : b.IsBlanks) (hc : IsMark c) : i.EndsBefore (b ++ c :: s) := by
  constructor
  · exact hb.startsOff_mark hc
  · intro _
    exact Renaming.read?_mark hb hc

theorem ImportedName.read?_eq_some_iff {i : ImportedName} :
    read? s = some (i, rest) ↔ s = i.text ++ rest ∧ i.WellFormed ∧ i.EndsBefore rest := by
  simp only [read?, Option.bind_eq_bind, Option.bind_eq_some_iff, Prod.exists, Option.pure_def,
    word?_eq_some_iff]
  constructor
  · rintro ⟨name, s', ⟨rfl, hname, hs'⟩, hread⟩
    cases hrename : Renaming.read? s' with
    | none =>
      rw [optionally_of_none hrename] at hread
      obtain ⟨rfl, rfl⟩ := Prod.mk.inj (Option.some.inj hread)
      refine ⟨by simp [text], ⟨hname, nofun⟩, hs', ?_⟩
      intro _
      exact hrename
    | some x =>
      obtain ⟨r, rest'⟩ := x
      rw [optionally_of_some hrename] at hread
      obtain ⟨rfl, rfl⟩ := Prod.mk.inj (Option.some.inj hread)
      obtain ⟨rfl, hr, hrest⟩ := Renaming.read?_eq_some_iff.1 hrename
      refine ⟨by simp [text], ⟨hname, ?_⟩, hrest, nofun⟩
      rintro _ ⟨⟩
      exact hr
  · obtain ⟨name, rename⟩ := i
    rintro ⟨rfl, ⟨hname, hrename⟩, hrest, hends⟩
    cases rename with
    | none =>
      refine ⟨name, rest, ⟨by simp [text], hname, hrest⟩, ?_⟩
      rw [optionally_of_none (hends rfl)]
    | some r =>
      have hr : r.WellFormed := hrename r rfl
      refine ⟨name, r.text ++ rest, ⟨by simp [text], hname, ?_⟩, ?_⟩
      · simpa [Renaming.text] using hr.before.startsOff
      · rw [optionally_of_some (Renaming.read?_eq_some_iff.2 ⟨rfl, hr, hrest⟩)]

theorem ImportedName.WellFormed.startsOff {i : ImportedName} (hi : i.WellFormed) :
    StartsOff isBlank (i.text ++ rest) := by
  rw [text, List.append_assoc]
  exact hi.1.startsOff

/-! ## Lists of names -/

/-- A symbol behind a comma has blanks on both sides of the comma. -/
structure NextName.WellFormed (n : NextName) : Prop where
  before : n.before.IsBlanks
  after : n.after.IsBlanks
  item : n.item.WellFormed

instance (n : NextName) : Decidable n.WellFormed :=
  decidable_of_iff (n.before.IsBlanks ∧ n.after.IsBlanks ∧ n.item.WellFormed)
    ⟨fun ⟨hbefore, hafter, hitem⟩ ↦ ⟨hbefore, hafter, hitem⟩,
      fun h ↦ ⟨h.before, h.after, h.item⟩⟩

theorem NextName.read?_eq_some_iff {n : NextName} :
    read? s = some (n, rest) ↔ s = n.text ++ rest ∧ n.WellFormed ∧ n.item.EndsBefore rest := by
  simp only [read?, Option.bind_eq_bind, Option.bind_eq_some_iff, Prod.exists, Option.pure_def,
    Option.some.injEq, Prod.mk.injEq, after?_eq_some_iff, ImportedName.read?_eq_some_iff]
  constructor
  · obtain ⟨before, s₁, hbefore, hs, hb⟩ := exists_takeBlanks_eq s
    rw [hbefore]
    rintro ⟨s₂, rfl, item, _, ⟨hitem, hwf, hends⟩, rfl, rfl⟩
    obtain ⟨after, s₃, hafter, hs₂, ha⟩ := exists_takeBlanks_eq s₂
    rw [hafter] at hitem ⊢
    obtain rfl : s₃ = item.text ++ _ := hitem
    exact ⟨by simp [text, hs, hs₂], ⟨hb, ha, hwf⟩, hends⟩
  · rintro ⟨rfl, hn, hends⟩
    have hbefore : (n.text ++ rest).takeBlanks =
        (n.before, ',' :: n.after ++ n.item.text ++ rest) := by
      have hmark := takeBlanks_mark (s := n.after ++ n.item.text ++ rest) hn.before
        (show IsMark ',' by decide)
      simpa [text] using hmark
    have hafter : (n.after ++ n.item.text ++ rest).takeBlanks = (n.after, n.item.text ++ rest) :=
      takeBlanks_eq_iff.2 ⟨by simp, hn.after, hn.item.startsOff⟩
    rw [hbefore]
    refine ⟨n.after ++ n.item.text ++ rest, by simp, n.item, rest, ⟨?_, hn.item, hends⟩, ?_, rfl⟩
    · rw [hafter]
    · rw [hafter]

theorem NextName.length_le_length_flatMap_text (items : List NextName) :
    items.length ≤ (items.flatMap text).length := by
  induction items with
  | nil => exact Nat.le_refl 0
  | cons n items ih =>
    have hn : 1 ≤ n.text.length := by simp [text]; omega
    rw [List.flatMap_cons, List.length_append, List.length_cons]
    omega

theorem NextName.readMany_eq {items : List NextName} {n : Nat}
    (h : readMany n s = (items, rest)) :
    s = items.flatMap text ++ rest ∧ ∀ item ∈ items, item.WellFormed := by
  induction n generalizing s items with
  | zero =>
    obtain ⟨rfl, rfl⟩ := Prod.mk.inj h
    exact ⟨rfl, nofun⟩
  | succ n ih =>
    rw [readMany] at h
    cases hread : read? s with
    | none =>
      rw [hread] at h
      obtain ⟨rfl, rfl⟩ := Prod.mk.inj h
      exact ⟨rfl, nofun⟩
    | some x =>
      obtain ⟨item, s'⟩ := x
      rw [hread] at h
      obtain ⟨rfl, hrest⟩ := Prod.mk.inj h
      obtain ⟨rfl, hitem, -⟩ := read?_eq_some_iff.1 hread
      obtain ⟨hs', hitems⟩ := ih (Prod.ext rfl hrest)
      refine ⟨?_, List.forall_mem_cons.2 ⟨hitem, hitems⟩⟩
      rw [List.flatMap_cons, List.append_assoc, ← hs']

theorem ImportedName.endsBefore_flatMap_text {items : List NextName} (i : ImportedName)
    (hitems : ∀ item ∈ items, item.WellFormed) (hends : i.EndsBefore rest) :
    i.EndsBefore (items.flatMap NextName.text ++ rest) := by
  cases items with
  | nil => exact hends
  | cons next items =>
    have hbefore : next.before.IsBlanks := (hitems next List.mem_cons_self).before
    simpa [NextName.text] using i.endsBefore_mark hbefore (c := ',') (by decide)

theorem NextName.readMany_flatMap_text {items : List NextName} {n : Nat} (hn : items.length ≤ n)
    (hitems : ∀ item ∈ items, item.WellFormed) (hends : ∀ i : ImportedName, i.EndsBefore rest)
    (hrest : read? rest = none) :
    readMany n (items.flatMap text ++ rest) = (items, rest) := by
  induction items generalizing n with
  | nil =>
    cases n with
    | zero => rfl
    | succ n => rw [List.flatMap_nil, List.nil_append, readMany, hrest]
  | cons item items ih =>
    obtain ⟨hitem, hmore⟩ := List.forall_mem_cons.1 hitems
    cases n with
    | zero => simp at hn
    | succ n =>
      have hnext : item.item.EndsBefore (items.flatMap text ++ rest) :=
        item.item.endsBefore_flatMap_text hmore (hends item.item)
      have hread : read? (item.text ++ (items.flatMap text ++ rest)) =
          some (item, items.flatMap text ++ rest) := read?_eq_some_iff.2 ⟨rfl, hitem, hnext⟩
      rw [List.flatMap_cons, List.append_assoc, readMany, hread]
      simp only [ih (Nat.le_of_succ_le_succ hn) hmore]

/-! ## Clauses -/

theorem isWord_from : IsWord (Text.of "from") := by decide

theorem isMark_of_mem_quotes {q : Char} (hq : q ∈ quotes) : IsMark q := by
  rcases List.mem_cons.1 hq with rfl | hq
  · decide
  · obtain rfl := List.mem_singleton.1 hq
    decide

namespace Clause

/-- A clause of well-formed names, in braces with blanks wherever they may stand. -/
def WellFormed : Clause → Prop
  | .single item => item.WellFormed
  | .whole rename => rename.WellFormed
  | .listed afterOpen first more afterLast afterComma =>
    afterOpen.IsBlanks ∧ first.WellFormed ∧ (∀ n ∈ more, n.WellFormed) ∧ afterLast.IsBlanks ∧
      ∀ b ∈ afterComma, b.IsBlanks

/-- A clause goes no further. -/
def EndsBefore : Clause → Text → Prop
  | .single item, rest => item.EndsBefore rest
  | .whole _, rest => StartsOff isWordChar rest
  | .listed .., _ => True

instance : (c : Clause) → Decidable c.WellFormed
  | .single item => inferInstanceAs (Decidable item.WellFormed)
  | .whole rename => inferInstanceAs (Decidable rename.WellFormed)
  | .listed afterOpen first more afterLast afterComma =>
    inferInstanceAs (Decidable (afterOpen.IsBlanks ∧ first.WellFormed ∧
      (∀ n ∈ more, n.WellFormed) ∧ afterLast.IsBlanks ∧ ∀ b ∈ afterComma, b.IsBlanks))

theorem readComma?_eq_some_iff {b : Text} :
    readComma? s = some (b, rest) ↔ s = ',' :: b ++ rest ∧ b.IsBlanks ∧ StartsOff isBlank rest := by
  simp only [readComma?, Option.map_eq_some_iff, after?_eq_some_iff, takeBlanks_eq_iff]
  constructor
  · rintro ⟨_, rfl, rfl, hb⟩
    exact ⟨rfl, hb⟩
  · rintro ⟨rfl, hb⟩
    exact ⟨b ++ rest, rfl, rfl, hb⟩

/-- What is written behind the last symbol in braces. -/
def ending (afterLast : Text) (afterComma : Option Text) : Text :=
  afterLast ++ (afterComma.map (',' :: ·)).getD [] ++ ['}']

section Ending

variable {afterLast : Text} {afterComma : Option Text}

theorem text_listed_append (afterOpen : Text) (first : ImportedName) (more : List NextName) :
    (listed afterOpen first more afterLast afterComma).text ++ rest =
      '{' :: (afterOpen ++ (first.text ++
        (more.flatMap NextName.text ++ (ending afterLast afterComma ++ rest)))) := by
  simp [text, ending]

theorem endsBefore_ending (i : ImportedName) (hlast : afterLast.IsBlanks) :
    i.EndsBefore (ending afterLast afterComma ++ rest) := by
  cases afterComma with
  | none =>
    simpa [ending] using i.endsBefore_mark hlast (c := '}') (by decide)
  | some b =>
    simpa [ending] using i.endsBefore_mark hlast (c := ',') (by decide)

theorem takeBlanks_ending (hlast : afterLast.IsBlanks) :
    (ending afterLast afterComma ++ rest).takeBlanks =
      (afterLast, ending [] afterComma ++ rest) := by
  refine takeBlanks_eq_iff.2 ⟨by simp [ending], hlast, ?_⟩
  cases afterComma with
  | none => exact startsOff_cons.2 (by decide)
  | some b => exact startsOff_cons.2 (by decide)

/-- Behind the last symbol there is no further one, with a last comma or without it. -/
theorem nextName_read?_ending (hlast : afterLast.IsBlanks) (hcomma : ∀ b ∈ afterComma, b.IsBlanks) :
    NextName.read? (ending afterLast afterComma ++ rest) = none := by
  unfold NextName.read?
  rw [takeBlanks_ending hlast]
  cases afterComma with
  | none => rfl
  | some b =>
    have hblanks : (b ++ '}' :: rest).takeBlanks = (b, '}' :: rest) :=
      takeBlanks_mark (hcomma b rfl) (by decide)
    have hafter : Text.after? [','] (ending [] (some b) ++ rest) = some (b ++ '}' :: rest) :=
      after?_eq_some_iff.2 (by simp [ending])
    have hword : ImportedName.read? ('}' :: rest) = none := by
      have hbrace : ('}' :: rest).takeWhile isWordChar = [] := by
        simp [show isWordChar '}' = false by decide]
      simp [ImportedName.read?, word?, hbrace]
    simp [hafter, hblanks, hword]

theorem optionally_readComma?_ending (hcomma : ∀ b ∈ afterComma, b.IsBlanks) :
    optionally readComma? (ending [] afterComma ++ rest) = (afterComma, '}' :: rest) := by
  cases afterComma with
  | none => exact optionally_of_none rfl
  | some b =>
    refine optionally_of_some (readComma?_eq_some_iff.2 ⟨by simp [ending], hcomma b rfl, ?_⟩)
    exact startsOff_cons.2 (by decide)

end Ending

theorem read?_single {item : ImportedName} (hitem : item.WellFormed)
    (hends : item.EndsBefore rest) : read? (item.text ++ rest) = some (.single item, rest) := by
  have hread : ImportedName.read? (item.text ++ rest) = some (item, rest) :=
    ImportedName.read?_eq_some_iff.2 ⟨rfl, hitem, hends⟩
  have hfirst : ∀ c ∈ (item.text ++ rest).head?, isWordChar c := by
    obtain ⟨c, w, hname⟩ := List.exists_cons_of_ne_nil hitem.1.1
    have hc : isWordChar c := hitem.1.2 c (hname ▸ List.mem_cons_self)
    simpa [ImportedName.text, hname] using hc
  unfold read?
  split
  · rename_i s heq
    rw [heq] at hfirst
    exact absurd (hfirst '*' rfl) (by decide)
  · rename_i s heq
    rw [heq] at hfirst
    exact absurd (hfirst '{' rfl) (by decide)
  · rw [hread]
    rfl

theorem read?_listed {afterOpen : Text} {first : ImportedName} {more : List NextName}
    {afterLast : Text} {afterComma : Option Text}
    (h : (listed afterOpen first more afterLast afterComma).WellFormed) :
    read? ((listed afterOpen first more afterLast afterComma).text ++ rest) =
      some (.listed afterOpen first more afterLast afterComma, rest) := by
  obtain ⟨hopen, hfirst, hmore, hlast, hcomma⟩ := h
  have hends : ∀ i : ImportedName, i.EndsBefore (ending afterLast afterComma ++ rest) := by
    intro i
    exact endsBefore_ending i hlast
  have hblanks : ∀ behind, (afterOpen ++ (first.text ++ behind)).takeBlanks =
      (afterOpen, first.text ++ behind) := by
    intro behind
    exact takeBlanks_eq_iff.2 ⟨rfl, hopen, hfirst.startsOff⟩
  have hread := ImportedName.read?_eq_some_iff.2
    ⟨rfl, hfirst, first.endsBefore_flatMap_text hmore (hends first)⟩
  have hfuel : more.length ≤
      (more.flatMap NextName.text ++ (ending afterLast afterComma ++ rest)).length := by
    rw [List.length_append]
    exact Nat.le_trans (NextName.length_le_length_flatMap_text more) (Nat.le_add_right _ _)
  have hmany := NextName.readMany_flatMap_text hfuel hmore hends
    (nextName_read?_ending hlast hcomma)
  rw [text_listed_append]
  simp only [read?, hblanks, hread, hmany, takeBlanks_ending hlast,
    optionally_readComma?_ending hcomma, Option.bind_eq_bind, Option.bind_some]
  rfl

/-- What is read as a clause is one, and stands there. -/
theorem read?_eq_some {c : Clause} (h : read? s = some (c, rest)) :
    s = c.text ++ rest ∧ c.WellFormed := by
  unfold read? at h
  split at h
  · simp only [Option.bind_eq_bind, Option.bind_eq_some_iff, Prod.exists, Option.pure_def,
      Option.some.injEq, Prod.mk.injEq, Renaming.read?_eq_some_iff] at h
    obtain ⟨rename, _, ⟨rfl, hrename, -⟩, rfl, rfl⟩ := h
    exact ⟨rfl, hrename⟩
  · rename_i s
    obtain ⟨afterOpen, s₁, hreadOpen, rfl, hopen⟩ := exists_takeBlanks_eq s
    simp only [hreadOpen, Option.bind_eq_bind, Option.bind_eq_some_iff] at h
    obtain ⟨⟨first, s₂⟩, hreadFirst, h⟩ := h
    obtain ⟨more, s₃, hreadMore⟩ : ∃ more s₃, NextName.readMany s₂.length s₂ = (more, s₃) :=
      ⟨_, _, rfl⟩
    obtain ⟨afterLast, s₄, hreadLast, rfl, hlast⟩ := exists_takeBlanks_eq s₃
    obtain ⟨afterComma, s₅, hreadComma⟩ :
        ∃ afterComma s₅, optionally readComma? s₄ = (afterComma, s₅) := ⟨_, _, rfl⟩
    simp only [hreadMore, hreadLast, hreadComma, after?_eq_some_iff] at h
    obtain ⟨_, rfl, h⟩ := h
    obtain ⟨rfl, rfl⟩ := Prod.mk.inj (Option.some.inj h)
    obtain ⟨rfl, hfirst, -⟩ := ImportedName.read?_eq_some_iff.1 hreadFirst
    obtain ⟨rfl, hmore⟩ := NextName.readMany_eq hreadMore
    rcases optionally_cases hreadComma with ⟨b, rfl, hb⟩ | ⟨rfl, rfl, -⟩
    · obtain ⟨rfl, hb, -⟩ := readComma?_eq_some_iff.1 hb
      refine ⟨by simp [text], hopen, hfirst, hmore, hlast, ?_⟩
      rintro _ ⟨⟩
      exact hb
    · exact ⟨by simp [text], hopen, hfirst, hmore, hlast, nofun⟩
  · simp only [Option.bind_eq_bind, Option.bind_eq_some_iff, Prod.exists, Option.pure_def,
      Option.some.injEq, Prod.mk.injEq, ImportedName.read?_eq_some_iff] at h
    obtain ⟨item, _, ⟨rfl, hitem, -⟩, rfl, rfl⟩ := h
    exact ⟨rfl, hitem⟩

/-- A clause is read back from its text. -/
theorem read?_text {c : Clause} (hc : c.WellFormed) (hends : c.EndsBefore rest) :
    read? (c.text ++ rest) = some (c, rest) := by
  cases c with
  | single item => exact read?_single hc hends
  | whole rename =>
    have hread : Renaming.read? (rename.text ++ rest) = some (rename, rest) :=
      Renaming.read?_eq_some_iff.2 ⟨rfl, hc, hends⟩
    simp [text, read?, hread]
  | listed afterOpen first more afterLast afterComma => exact read?_listed hc

/-- A clause starts with no blank and no quote. -/
theorem WellFormed.exists_text_eq_cons {c : Clause} (hc : c.WellFormed) :
    ∃ d t, c.text = d :: t ∧ isBlank d = false ∧ d ∉ quotes := by
  cases c with
  | single item =>
    obtain ⟨d, w, hname⟩ := List.exists_cons_of_ne_nil hc.1.1
    have hword : isWordChar d := hc.1.2 d (hname ▸ List.mem_cons_self)
    refine ⟨d, w ++ (item.rename.map Renaming.text).getD [], ?_, ?_, ?_⟩
    · simp [text, ImportedName.text, hname]
    · have hstarts : StartsOff isBlank (item.name ++ []) := hc.1.startsOff
      rw [hname] at hstarts
      exact startsOff_cons.1 hstarts
    · intro hquote
      rw [(isMark_of_mem_quotes hquote).2] at hword
      contradiction
  | whole rename => exact ⟨'*', rename.text, rfl, by decide, by decide⟩
  | listed afterOpen first more afterLast afterComma =>
    exact ⟨'{', _, rfl, by decide, by decide⟩

theorem endsBefore_from (c : Clause) {beforeFrom : Text} (hbefore : beforeFrom.IsGap) :
    c.EndsBefore (beforeFrom ++ (Text.of "from" ++ s)) := by
  cases c with
  | single item =>
    constructor
    · exact hbefore.startsOff
    · intro _
      exact Renaming.read?_eq_none hbefore.2 isWord_from.startsOff rfl
  | whole rename => exact hbefore.startsOff
  | listed => trivial

end Clause

end SolidityImports
