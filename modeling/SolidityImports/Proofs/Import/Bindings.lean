import SolidityImports.Import.Scan
import SolidityImports.Proofs.Import.Statement

/-! # The bindings of a statement

Which names a statement binds, read off its parts and found by a second look at its text. The second
look knows nothing of the parts: it tries every place at which no binding was found before. Main
statement: it finds the bindings that are written if the literal holds no blanks and the name right
behind `import` is not `as`. -/

namespace SolidityImports

open Text

/-- The name that an imported name is bound to, if it has a renaming. -/
def ImportedName.binding? (i : ImportedName) : Option Binding :=
  i.rename.map fun r ↦ ⟨r.name, some i.name⟩

/-- The bindings of a clause, as they are written. -/
def Clause.writtenBindings : Clause → List Binding
  | .single item => item.binding?.toList
  | .whole rename => [⟨rename.name, none⟩]
  | .listed _ first more _ _ => (first :: more.map (·.item)).filterMap (·.binding?)

/-- The bindings of a statement, as they are written. -/
def Statement.writtenBindings : Statement → List Binding
  | .file _ _ _ rename _ => (rename.map fun r ↦ ⟨r.name, none⟩).toList
  | .taking _ clause _ _ _ _ _ => clause.writtenBindings

/-- The name right behind `import`, if there is one, is not `as`. -/
def Statement.NoAsBehindImport : Statement → Prop
  | .taking _ (.single item) _ _ _ _ _ => item.name ≠ Text.of "as"
  | _ => True

instance : (st : Statement) → Decidable st.NoAsBehindImport
  | .file .. => inferInstanceAs (Decidable True)
  | .taking _ (.single item) _ _ _ _ _ => inferInstanceAs (Decidable (item.name ≠ Text.of "as"))
  | .taking _ (.whole _) _ _ _ _ _ => inferInstanceAs (Decidable True)
  | .taking _ (.listed ..) _ _ _ _ _ => inferInstanceAs (Decidable True)

variable {a b w s rest : Text} {c : Char}

/-! ## Where there is no renaming -/

theorem Renaming.read?_of_startsOff (h : StartsOff isBlank s) : read? s = none := by
  have hblanks : s.takeWhile isBlank = [] := by
    cases s with
    | nil => rfl
    | cons c s => simp [startsOff_cons.1 h]
  simp [read?, takeBlanks?, hblanks]

theorem Renaming.read?_word (hb : b.IsBlanks) (hw : w.IsWord) (hs : StartsOff isWordChar s)
    (hne : w ≠ Text.of "as") : read? (b ++ (w ++ s)) = none := by
  cases hread : read? (b ++ (w ++ s)) with
  | none => rfl
  | some x =>
    obtain ⟨r, rest⟩ := x
    obtain ⟨htext, hr, -⟩ := read?_eq_some_iff.1 hread
    have hblanks : (b ++ (w ++ s)).takeBlanks = (b, w ++ s) :=
      takeBlanks_eq_iff.2 ⟨rfl, hb, hw.startsOff⟩
    have hblanks' : (b ++ (w ++ s)).takeBlanks =
        (r.before, Text.of "as" ++ (r.after ++ (r.name ++ rest))) :=
      takeBlanks_eq_iff.2 ⟨by simp [htext, text], hr.before.2, isWord_as.startsOff⟩
    have hbehind := (Prod.mk.inj (hblanks.symm.trans hblanks')).2
    have hword : word? (w ++ s) = some (w, s) := word?_eq_some_iff.2 ⟨rfl, hw, hs⟩
    have hword' : word? (w ++ s) = some (Text.of "as", r.after ++ (r.name ++ rest)) :=
      word?_eq_some_iff.2 ⟨hbehind, isWord_as, hr.after.startsOff⟩
    exact absurd (Prod.mk.inj (Option.some.inj (hword.symm.trans hword'))).1 hne

/-! ## What is passed over -/

theorem bindingsFrom_append (a s : Text) : bindingsFrom a.length (a ++ s) = bindings s := by
  induction a with
  | nil => rfl
  | cons c a ih => rw [List.cons_append, List.length_cons, bindingsFrom, ih]

theorem bindings_of_read?_eq_none (h : Binding.read? (c :: s) = none) :
    bindings (c :: s) = bindings s := by
  rw [bindings, bindingsFrom, h]
  rfl

theorem bindings_of_read? {binding : Binding}
    (h : Binding.read? (c :: (a ++ s)) = some (binding, a.length + 1)) :
    bindings (c :: (a ++ s)) = binding :: bindings s := by
  rw [bindings, bindingsFrom, h]
  simp only [Nat.add_sub_cancel, bindingsFrom_append]

/-- A mark that stands for a whole file, in front of its new name. -/
def IsFileMark (c : Char) : Prop := c = '*' ∨ c ∈ quotes

instance (c : Char) : Decidable (IsFileMark c) :=
  inferInstanceAs (Decidable (c = '*' ∨ c ∈ quotes))

theorem IsFileMark.isMark (h : IsFileMark c) : IsMark c := by
  rcases h with rfl | hc
  · decide
  · exact isMark_of_mem_quotes hc

theorem bindings_of_not_word (hc : ¬ IsFileMark c) (hword : isWordChar c = false) :
    bindings (c :: s) = bindings s := by
  apply bindings_of_read?_eq_none
  simp [Binding.read?, hword, word?, if_neg (show ¬ (c = '*' ∨ c ∈ quotes) from hc)]

theorem bindings_blanks (hb : b.IsBlanks) : bindings (b ++ s) = bindings s := by
  induction b with
  | nil => rfl
  | cons c b ih =>
    obtain ⟨hc, hb⟩ := List.forall_mem_cons.1 hb
    rw [List.cons_append, bindings_of_not_word _ (isWordChar_eq_false_of_isBlank hc), ih hb]
    intro hmark
    rw [hmark.isMark.1] at hc
    contradiction

theorem bindings_fileMark (hc : IsFileMark c) (hs : Renaming.read? s = none) :
    bindings (c :: s) = bindings s := by
  apply bindings_of_read?_eq_none
  simp [Binding.read?, if_pos (show c = '*' ∨ c ∈ quotes from hc), hs]

theorem Binding.read?_word (hw : w.IsWord) (hs : StartsOff isWordChar s) :
    Binding.read? (w ++ s) = (Renaming.read? s).map
      fun (r, _) ↦ (⟨r.name, some w⟩, w.length + r.text.length) := by
  obtain ⟨c, w, rfl⟩ := List.exists_cons_of_ne_nil hw.1
  have hmark : ¬ (c = '*' ∨ c ∈ quotes) := by
    intro hmark
    have hword := hw.2 c List.mem_cons_self
    rw [IsFileMark.isMark hmark |>.2] at hword
    contradiction
  have hword : word? (c :: w ++ s) = some (c :: w, s) := word?_eq_some_iff.2 ⟨rfl, hw, hs⟩
  rw [List.cons_append] at hword ⊢
  rw [Binding.read?, if_neg hmark, hword]
  simp only [Option.bind_eq_bind, Option.bind_some]
  cases Renaming.read? s <;> rfl

theorem bindings_word (hw : ∀ c ∈ w, isWordChar c) (hs : StartsOff isWordChar s)
    (hnone : Renaming.read? s = none) : bindings (w ++ s) = bindings s := by
  induction w with
  | nil => rfl
  | cons c w ih =>
    have hread : Binding.read? (c :: w ++ s) = none := by
      rw [Binding.read?_word ⟨List.cons_ne_nil c w, hw⟩ hs, hnone]
      rfl
    rw [List.cons_append] at hread ⊢
    rw [bindings_of_read?_eq_none hread, ih (List.forall_mem_cons.1 hw).2]

theorem startsOff_dropWhile_of_isTight {d : Char} (ha : a.IsTight) (hd : IsMark d) :
    StartsOff isBlank ((a ++ d :: s).dropWhile isWordChar) := by
  induction a with
  | nil =>
    rw [List.nil_append, List.dropWhile_cons_of_neg (by simp [hd.2])]
    exact startsOff_cons.2 hd.1
  | cons c a ih =>
    obtain ⟨hc, ha⟩ := List.forall_mem_cons.1 ha
    rw [List.cons_append, List.dropWhile_cons]
    split
    · exact ih ha
    · exact startsOff_cons.2 hc

/-- Text without blanks holds no binding, if it goes on with a mark. -/
theorem bindings_tight {d : Char} (ha : a.IsTight) (hd : IsMark d) :
    bindings (a ++ d :: s) = bindings (d :: s) := by
  induction a with
  | nil => rfl
  | cons c a ih =>
    have hbehind := startsOff_dropWhile_of_isTight (s := s) ha hd
    obtain ⟨hc, ha⟩ := List.forall_mem_cons.1 ha
    have hread : Binding.read? (c :: (a ++ d :: s)) = none := by
      rw [Binding.read?]
      split
      · simp [Renaming.read?_of_startsOff (IsTight.startsOff ha hd.1)]
      · cases hw : word? (c :: (a ++ d :: s)) with
        | none => rfl
        | some x =>
          obtain ⟨w, rest⟩ := x
          have hrest := (takeWhile_eq_and_dropWhile_eq_iff.2
            ⟨(word?_eq_some_iff.1 hw).1, (word?_eq_some_iff.1 hw).2.1.2,
              (word?_eq_some_iff.1 hw).2.2⟩).2
          rw [List.cons_append, hrest] at hbehind
          simp [Renaming.read?_of_startsOff hbehind]
    rw [List.cons_append, bindings_of_read?_eq_none hread, ih ha]

/-! ## What is found -/

theorem bindings_word_renamed {r : Renaming} (hw : w.IsWord) (hr : r.WellFormed)
    (hs : StartsOff isWordChar s) :
    bindings (w ++ (r.text ++ s)) = ⟨r.name, some w⟩ :: bindings s := by
  have hbehind : StartsOff isWordChar (r.text ++ s) := by
    simpa [Renaming.text] using hr.before.startsOff
  have hread : Binding.read? (w ++ (r.text ++ s)) =
      some (⟨r.name, some w⟩, w.length + r.text.length) := by
    rw [Binding.read?_word hw hbehind, Renaming.read?_eq_some_iff.2 ⟨rfl, hr, hs⟩]
    rfl
  obtain ⟨c, w, rfl⟩ := List.exists_cons_of_ne_nil hw.1
  have hsplit : c :: w ++ (r.text ++ s) = c :: ((w ++ r.text) ++ s) := by simp
  rw [hsplit] at hread ⊢
  refine bindings_of_read? (hread.trans ?_)
  simp only [List.length_cons, List.length_append]
  congr 2
  omega

theorem bindings_fileMark_renamed {r : Renaming} (hc : IsFileMark c) (hr : r.WellFormed)
    (hs : StartsOff isWordChar s) :
    bindings (c :: (r.text ++ s)) = ⟨r.name, none⟩ :: bindings s := by
  refine bindings_of_read? ?_
  rw [Binding.read?, if_pos (show c = '*' ∨ c ∈ quotes from hc),
    Renaming.read?_eq_some_iff.2 ⟨rfl, hr, hs⟩, Nat.add_comm r.text.length]
  rfl

theorem bindings_importedName {i : ImportedName} (hi : i.WellFormed) (hends : i.EndsBefore s) :
    bindings (i.text ++ s) = i.binding?.toList ++ bindings s := by
  obtain ⟨name, rename⟩ := i
  cases rename with
  | none =>
    simpa [ImportedName.text, ImportedName.binding?] using
      bindings_word hi.1.2 hends.1 (hends.2 rfl)
  | some r =>
    simpa [ImportedName.text, ImportedName.binding?] using
      bindings_word_renamed hi.1 (hi.2 r rfl) hends.1

theorem bindings_flatMap_text {items : List NextName} (hitems : ∀ n ∈ items, n.WellFormed)
    (hends : ∀ i : ImportedName, i.EndsBefore s) :
    bindings (items.flatMap NextName.text ++ s) =
      items.filterMap (·.item.binding?) ++ bindings s := by
  induction items with
  | nil => rfl
  | cons n items ih =>
    obtain ⟨hn, hmore⟩ := List.forall_mem_cons.1 hitems
    have hitem : bindings (n.item.text ++ (items.flatMap NextName.text ++ s)) = _ :=
      bindings_importedName hn.item (n.item.endsBefore_flatMap_text hmore (hends n.item))
    simp only [List.flatMap_cons, NextName.text, List.append_assoc, List.cons_append,
      List.nil_append]
    rw [bindings_blanks hn.before, bindings_of_not_word (by decide) (by decide),
      bindings_blanks hn.after, hitem, ih hmore, List.filterMap_cons]
    cases n.item.binding? <;> rfl

theorem bindings_ending {afterLast : Text} {afterComma : Option Text} (hlast : afterLast.IsBlanks)
    (hcomma : ∀ b ∈ afterComma, b.IsBlanks) :
    bindings (Clause.ending afterLast afterComma ++ s) = bindings s := by
  cases afterComma with
  | none =>
    simp only [Clause.ending, Option.map_none, Option.getD_none, List.append_nil,
      List.append_assoc, List.cons_append, List.nil_append]
    rw [bindings_blanks hlast, bindings_of_not_word (by decide) (by decide)]
  | some b =>
    simp only [Clause.ending, Option.map_some, Option.getD_some, List.append_assoc,
      List.cons_append, List.nil_append]
    rw [bindings_blanks hlast, bindings_of_not_word (by decide) (by decide),
      bindings_blanks (hcomma b rfl), bindings_of_not_word (by decide) (by decide)]

theorem bindings_clause {c : Clause} (hc : c.WellFormed) (hends : c.EndsBefore s) :
    bindings (c.text ++ s) = c.writtenBindings ++ bindings s := by
  cases c with
  | single item => exact bindings_importedName hc hends
  | whole rename => exact bindings_fileMark_renamed (.inl rfl) hc hends
  | listed afterOpen first more afterLast afterComma =>
    obtain ⟨hopen, hfirst, hmore, hlast, hcomma⟩ := hc
    have hends : ∀ i : ImportedName, i.EndsBefore (Clause.ending afterLast afterComma ++ s) := by
      intro i
      exact Clause.endsBefore_ending i hlast
    have hfirstEnds := first.endsBefore_flatMap_text hmore (hends first)
    rw [Clause.text_listed_append, bindings_of_not_word (by decide) (by decide),
      bindings_blanks hopen, bindings_importedName hfirst hfirstEnds,
      bindings_flatMap_text hmore hends, bindings_ending hlast hcomma, Clause.writtenBindings,
      List.filterMap_cons, List.filterMap_map]
    cases first.binding? <;> rfl

/-! ## Statements -/

theorem isWord_import : IsWord (Text.of "import") := by decide

theorem bindings_import {gap : Text} (hgap : gap.IsGap) (h : Renaming.read? (gap ++ s) = none) :
    bindings (Text.of "import" ++ (gap ++ s)) = bindings s := by
  rw [bindings_word isWord_import.2 hgap.startsOff h, bindings_blanks hgap.2]

theorem bindings_literal {quote : Char} {literal : Text} (hquote : quote ∈ quotes)
    (htight : literal.IsTight) :
    bindings (quote :: (literal ++ quote :: s)) = bindings (quote :: s) := by
  have hmark : IsFileMark quote := .inr hquote
  rw [bindings_fileMark hmark (Renaming.read?_of_startsOff (htight.startsOff hmark.isMark.1)),
    bindings_tight htight hmark.isMark]

theorem bindings_end (hb : b.IsBlanks) : bindings (b ++ [';']) = [] := by
  rw [bindings_blanks hb, bindings_of_not_word (by decide) (by decide)]
  rfl

/-- From the closing quote on, a statement binds the new name of its file, if it has one. -/
theorem bindings_trail {quote : Char} (hquote : quote ∈ quotes) (rename : Option Renaming)
    (hrename : ∀ r ∈ rename, r.WellFormed) (hb : b.IsBlanks) :
    bindings (quote :: ((rename.map Renaming.text).getD [] ++ (b ++ [';']))) =
      (rename.map fun r ↦ ⟨r.name, none⟩).toList := by
  have hmark : IsFileMark quote := .inr hquote
  cases rename with
  | none =>
    rw [Option.map_none, Option.getD_none, List.nil_append,
      bindings_fileMark hmark (Renaming.read?_mark hb (by decide)), bindings_end hb]
    rfl
  | some r =>
    have hends : StartsOff isWordChar (b ++ [';']) := hb.startsOff_mark (by decide)
    rw [Option.map_some, Option.getD_some, bindings_fileMark_renamed hmark (hrename r rfl) hends,
      bindings_end hb]
    rfl

theorem Clause.renaming_read?_append {gap : Text} {clause : Clause} (hgap : gap.IsBlanks)
    (hclause : clause.WellFormed) (hs : clause.EndsBefore s)
    (has : ∀ item, clause = .single item → item.name ≠ Text.of "as") :
    Renaming.read? (gap ++ (clause.text ++ s)) = none := by
  cases clause with
  | single item =>
    have hname := has item rfl
    obtain ⟨name, rename⟩ := item
    rw [text, ImportedName.text, List.append_assoc]
    refine Renaming.read?_word hgap hclause.1 ?_ hname
    cases rename with
    | none => exact hs.1
    | some r => simpa [Renaming.text] using (hclause.2 r rfl).before.startsOff
  | whole rename => exact Renaming.read?_mark hgap (by decide)
  | listed => exact Renaming.read?_mark hgap (by decide)

/-- A second look at a statement finds the bindings that are written. -/
theorem Statement.bindings_text {st : Statement} (h : st.WellFormed)
    (htight : st.literal.IsTight) (has : st.NoAsBehindImport) :
    bindings st.text = st.writtenBindings := by
  cases st with
  | file gap quote literal rename beforeEnd =>
    obtain ⟨hgap, hquote, -, hrename, hb⟩ := h
    replace htight : literal.IsTight := htight
    have htext : (file gap quote literal rename beforeEnd).text =
        Text.of "import" ++ (gap ++ quote :: (literal ++ quote ::
          ((rename.map Renaming.text).getD [] ++ (beforeEnd ++ [';'])))) := by
      simp [text, lead, trail, Statement.literal]
    have hmark : IsMark quote := isMark_of_mem_quotes hquote
    rw [htext, bindings_import hgap (Renaming.read?_mark hgap.2 hmark),
      bindings_literal hquote htight]
    exact bindings_trail hquote rename hrename hb
  | taking gap clause beforeFrom afterFrom quote literal beforeEnd =>
    obtain ⟨hgap, hclause, hbefore, hafter, hquote, -, hb⟩ := h
    replace htight : literal.IsTight := htight
    have htext : (taking gap clause beforeFrom afterFrom quote literal beforeEnd).text =
        Text.of "import" ++ (gap ++ (clause.text ++ (beforeFrom ++ (Text.of "from" ++
          (afterFrom ++ quote :: (literal ++ quote :: (beforeEnd ++ [';']))))))) := by
      simp [text, lead, trail, Statement.literal]
    have hmark : IsMark quote := isMark_of_mem_quotes hquote
    have hends : ∀ s, clause.EndsBefore (beforeFrom ++ (Text.of "from" ++ s)) := by
      intro s
      exact clause.endsBefore_from hbefore
    have hend : bindings (quote :: (beforeEnd ++ [';'])) = [] := by
      refine bindings_trail hquote none ?_ hb
      intro r hr
      cases hr
    have hname : ∀ item, clause = .single item → item.name ≠ Text.of "as" := by
      rintro item rfl
      exact has
    rw [htext, bindings_import hgap (Clause.renaming_read?_append hgap.2 hclause (hends _) hname),
      bindings_clause hclause (hends _), bindings_blanks hbefore.2,
      bindings_word isWord_from.2 hafter.startsOff (Renaming.read?_mark hafter.2 hmark),
      bindings_blanks hafter.2, bindings_literal hquote htight, hend, List.append_nil]
    rfl

end SolidityImports
