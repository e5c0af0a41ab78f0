import SolidityImports.Text.Bytes
import SolidityImports.Text.Word

/-! # Reading runs of characters

Blanks and words are read up to the first character that is not part of them. Main statements: each
reader gives exactly the splits of a text at the end of such a run. -/

namespace SolidityImports.Text

/-- All characters are blank. -/
def IsBlanks (s : Text) : Prop := ∀ c ∈ s, isBlank c

/-- Blanks, at least one. -/
def IsGap (s : Text) : Prop := s ≠ [] ∧ s.IsBlanks

/-- A run of word characters, at least one. -/
def IsWord (s : Text) : Prop := s ≠ [] ∧ ∀ c ∈ s, isWordChar c

/-- No character is blank. -/
def IsTight (s : Text) : Prop := ∀ c ∈ s, isBlank c = false

/-- A character that neither blanks nor words hold. -/
def IsMark (c : Char) : Prop := isBlank c = false ∧ isWordChar c = false

/-- A text starts with no character of a kind. -/
def StartsOff (p : Char → Bool) (s : Text) : Prop := ∀ c ∈ s.head?, p c = false

instance (s : Text) : Decidable s.IsBlanks := decidable_of_iff (s.all isBlank) List.all_eq_true

instance (s : Text) : Decidable s.IsGap := inferInstanceAs (Decidable (s ≠ [] ∧ s.IsBlanks))

instance (s : Text) : Decidable s.IsWord :=
  decidable_of_iff (s ≠ [] ∧ s.all isWordChar) (and_congr_right fun _ ↦ List.all_eq_true)

instance (s : Text) : Decidable s.IsTight :=
  decidable_of_iff (s.all fun c ↦ !isBlank c) (by simp [IsTight])

instance (p : Char → Bool) (s : Text) : Decidable (StartsOff p s) :=
  decidable_of_iff (s.head?.all fun c ↦ !p c) (by simp [StartsOff, Option.all_eq_true])

instance (c : Char) : Decidable (IsMark c) :=
  inferInstanceAs (Decidable (isBlank c = false ∧ isWordChar c = false))

variable {p : Char → Bool} {s a b w rest : Text} {c : Char}

@[simp] theorem startsOff_cons : StartsOff p (c :: s) ↔ p c = false := by
  simp [StartsOff]

theorem startsOff_append (ha : a ≠ []) (h : ∀ c ∈ a, p c = false) : StartsOff p (a ++ rest) := by
  cases a with
  | nil => contradiction
  | cons c a => exact startsOff_cons.2 (h c List.mem_cons_self)

/-- A gap starts no word. -/
theorem IsGap.startsOff (h : a.IsGap) : StartsOff isWordChar (a ++ rest) := by
  apply startsOff_append h.1
  intro c hc
  exact isWordChar_eq_false_of_isBlank (h.2 c hc)

/-- A word starts with no blank. -/
theorem IsWord.startsOff (h : w.IsWord) : StartsOff isBlank (w ++ rest) := by
  apply startsOff_append h.1
  intro c hc
  cases hblank : isBlank c with
  | false => rfl
  | true => exact absurd (h.2 c hc) (by simp [isWordChar_eq_false_of_isBlank hblank])

theorem IsBlanks.startsOff (h : a.IsBlanks) (hrest : StartsOff isWordChar rest) :
    StartsOff isWordChar (a ++ rest) := by
  cases a with
  | nil => exact hrest
  | cons c a => exact IsGap.startsOff ⟨List.cons_ne_nil c a, h⟩

/-- No word starts at a mark behind blanks. -/
theorem IsBlanks.startsOff_mark (h : a.IsBlanks) (hc : IsMark c) :
    StartsOff isWordChar (a ++ c :: s) := h.startsOff (startsOff_cons.2 hc.2)

theorem IsTight.startsOff (ha : a.IsTight) (hc : isBlank c = false) :
    StartsOff isBlank (a ++ c :: s) := by
  cases a with
  | nil => exact startsOff_cons.2 hc
  | cons d a => exact startsOff_cons.2 (ha d List.mem_cons_self)

theorem not_isBlanks_of_mem (hc : isBlank c = false) (h : c ∈ s) : ¬ s.IsBlanks := by
  intro hblanks
  have hblank := hblanks c h
  rw [hc] at hblank
  contradiction

theorem IsMark.not_mem_of_isBlanks (hc : IsMark c) (hb : b.IsBlanks) : c ∉ b :=
  fun hmem ↦ not_isBlanks_of_mem hc.1 hmem hb

theorem IsMark.not_mem_of_isWord (hc : IsMark c) (hw : w.IsWord) : c ∉ w := by
  intro hmem
  have hword := hw.2 c hmem
  rw [hc.2] at hword
  contradiction

theorem after?_append (word s : Text) : after? word (word ++ s) = some s :=
  after?_eq_some_iff.2 rfl

theorem startsOff_dropWhile (p : Char → Bool) (s : Text) : StartsOff p (s.dropWhile p) := by
  intro c hc
  have hhead := List.head?_dropWhile_not p s
  rw [hc] at hhead
  exact hhead

/-- The first run of a kind is the part before a rest that starts off this kind. -/
theorem takeWhile_eq_and_dropWhile_eq_iff :
    s.takeWhile p = a ∧ s.dropWhile p = rest ↔
      s = a ++ rest ∧ (∀ c ∈ a, p c) ∧ StartsOff p rest := by
  constructor
  · rintro ⟨rfl, rfl⟩
    refine ⟨List.takeWhile_append_dropWhile.symm, ?_, startsOff_dropWhile p s⟩
    exact List.all_eq_true.1 List.all_takeWhile
  · rintro ⟨rfl, ha, hrest⟩
    rw [List.takeWhile_append_of_pos ha, List.dropWhile_append_of_pos ha]
    cases rest with
    | nil => simp
    | cons c rest => simp [startsOff_cons.1 hrest]

theorem takeBlanks_eq_iff :
    s.takeBlanks = (a, rest) ↔ s = a ++ rest ∧ a.IsBlanks ∧ StartsOff isBlank rest := by
  rw [takeBlanks, Prod.mk.injEq]
  exact takeWhile_eq_and_dropWhile_eq_iff

/-- Every text starts with its blanks, if only with none. -/
theorem exists_takeBlanks_eq (s : Text) :
    ∃ b rest, s.takeBlanks = (b, rest) ∧ s = b ++ rest ∧ b.IsBlanks := by
  obtain ⟨hs, hblanks, -⟩ := takeBlanks_eq_iff.1 (rfl : s.takeBlanks = _)
  exact ⟨_, _, rfl, hs, hblanks⟩

/-- Behind its blanks a text ends, or goes on with another character. -/
theorem isBlanks_or_exists_eq_append_cons (s : Text) : s.IsBlanks ∨
    ∃ (b : Text) (c : Char) (rest : Text), s = b ++ c :: rest ∧ b.IsBlanks ∧ isBlank c = false := by
  obtain ⟨hs, hblanks, hrest⟩ := takeBlanks_eq_iff.1 (rfl : s.takeBlanks = _)
  cases hdrop : s.dropWhile isBlank with
  | nil =>
    rw [hdrop, List.append_nil] at hs
    exact .inl (hs ▸ hblanks)
  | cons c rest =>
    rw [hdrop] at hs hrest
    exact .inr ⟨_, c, rest, hs, hblanks, startsOff_cons.1 hrest⟩

/-- Blanks end at a mark. -/
theorem takeBlanks_mark (ha : a.IsBlanks) (hc : IsMark c) :
    (a ++ c :: s).takeBlanks = (a, c :: s) :=
  takeBlanks_eq_iff.2 ⟨rfl, ha, startsOff_cons.2 hc.1⟩

/-- The same for a run that must not be empty. -/
theorem ite_takeWhile_eq_some_iff :
    (if s.takeWhile p = [] then none else some (s.takeWhile p, s.dropWhile p)) = some (a, rest) ↔
      s = a ++ rest ∧ (a ≠ [] ∧ ∀ c ∈ a, p c) ∧ StartsOff p rest := by
  constructor
  · intro h
    split at h
    · contradiction
    · rename_i hne
      obtain ⟨rfl, rfl⟩ := Prod.mk.inj (Option.some.inj h)
      obtain ⟨hs, hall, hrest⟩ := takeWhile_eq_and_dropWhile_eq_iff.1 ⟨rfl, rfl⟩
      exact ⟨hs, ⟨hne, hall⟩, hrest⟩
  · rintro ⟨hs, ⟨hne, hall⟩, hrest⟩
    obtain ⟨htake, hdrop⟩ := takeWhile_eq_and_dropWhile_eq_iff.2 ⟨hs, hall, hrest⟩
    rw [htake, hdrop, if_neg hne]

theorem takeBlanks?_eq_some_iff :
    s.takeBlanks? = some (a, rest) ↔ s = a ++ rest ∧ a.IsGap ∧ StartsOff isBlank rest :=
  ite_takeWhile_eq_some_iff

theorem takeBlanks?_append (ha : a.IsGap) (hrest : StartsOff isBlank rest) :
    (a ++ rest).takeBlanks? = some (a, rest) := takeBlanks?_eq_some_iff.2 ⟨rfl, ha, hrest⟩

theorem word?_eq_some_iff :
    s.word? = some (w, rest) ↔ s = w ++ rest ∧ w.IsWord ∧ StartsOff isWordChar rest := by
  have hword : s.word? = if s.takeWhile isWordChar = [] then none
      else some (s.takeWhile isWordChar, s.dropWhile isWordChar) := by
    unfold word?
    split
    · rename_i hnil
      rw [if_pos hnil]
    · rename_i hne
      rw [if_neg hne]
  rw [hword]
  exact ite_takeWhile_eq_some_iff

/-! ## Where a word stands -/

section Infix

variable {tail front before back before' back' : Text}

/-- A word whose first letter stands in it once cannot start in a text and go on in what follows it, if
this starts with the same letter. -/
theorem infix_of_append_eq (hc : c ∉ tail) (h : before ++ c :: s = front ++ (c :: tail ++ back))
    (hlength : front.length < before.length) : c :: tail <:+: before := by
  rcases List.append_eq_append_iff.1 h with ⟨more, rfl, -⟩ | ⟨more, rfl, hmore⟩
  · rw [List.length_append] at hlength
    omega
  rcases List.append_eq_append_iff.1 hmore with ⟨rest, rfl, -⟩ | ⟨rest, hrest, hback⟩
  · exact ⟨front, rest, List.append_assoc ..⟩
  cases more with
  | nil =>
    rw [List.append_nil] at hlength
    exact absurd hlength (Nat.lt_irrefl _)
  | cons d more =>
    cases rest with
    | nil =>
      rw [List.append_nil] at hrest
      exact ⟨front, [], by rw [hrest, List.append_nil]⟩
    | cons e rest =>
      obtain rfl := (List.cons.inj hback).1
      have htail : tail = more ++ c :: rest := (List.cons.inj hrest).2
      exact absurd (htail ▸ List.mem_append_right more List.mem_cons_self) hc

/-- There is one way only to split a text at the first place of such a word. -/
theorem eq_of_append_eq (hc : c ∉ tail)
    (h : before ++ (c :: tail ++ back) = before' ++ (c :: tail ++ back'))
    (hbefore : ¬ c :: tail <:+: before) (hbefore' : ¬ c :: tail <:+: before') :
    before = before' ∧ back = back' := by
  have hle : before.length ≤ before'.length :=
    Nat.le_of_not_lt fun hlength ↦ hbefore (infix_of_append_eq hc h hlength)
  have hge : before'.length ≤ before.length :=
    Nat.le_of_not_lt fun hlength ↦ hbefore' (infix_of_append_eq hc h.symm hlength)
  obtain ⟨heq, hrest⟩ := List.append_inj h (Nat.le_antisymm hle hge)
  exact ⟨heq, List.append_cancel_left hrest⟩

/-- A word does not reach into text that holds none of its letters. -/
theorem not_infix_append (hw : w ≠ []) (ha : ¬ w <:+: a) (hb : ∀ c ∈ b, c ∉ w) :
    ¬ w <:+: a ++ b := by
  induction b generalizing a with
  | nil => rwa [List.append_nil]
  | cons c b ih =>
    obtain ⟨hc, hb⟩ := List.forall_mem_cons.1 hb
    rw [← List.singleton_append, ← List.append_assoc]
    refine ih ?_ hb
    rw [List.infix_concat_iff, List.suffix_concat_iff]
    rintro ((hnil | ⟨lead, rfl, -⟩) | hinfix)
    · exact hw hnil
    · exact hc (List.mem_append_right lead List.mem_cons_self)
    · exact ha hinfix

end Infix

end SolidityImports.Text
