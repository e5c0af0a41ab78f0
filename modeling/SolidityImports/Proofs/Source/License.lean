import Mathlib.Data.List.Basic
import SolidityImports.Proofs.Text.Line
import SolidityImports.Proofs.Text.Pieces
import SolidityImports.Source.Header

/-! # License identifiers

An identifier is read behind the first marker of a source. The white space in front of it may hold
newlines, so that the line of the marker may end before it. Main statement: what is read is the
identifier on the line of the marker exactly if this line goes on with more than white space; if not,
it is the text of a later line, or nothing. -/

namespace SolidityImports

open Text

/-! ## The first place that can be read -/

section FirstOf

variable {α : Type} {read? : Text → Option α} {c : Char} {s : Text} {a : α}

theorem firstOf?_cons_of_some (h : read? (c :: s) = some a) :
    firstOf? read? (c :: s) = some a := by
  rw [firstOf?, h]
  rfl

theorem firstOf?_cons_of_none (h : read? (c :: s) = none) :
    firstOf? read? (c :: s) = firstOf? read? s := by
  rw [firstOf?, h]
  rfl

theorem firstOf?_eq_none_iff :
    firstOf? read? s = none ↔ ∀ front back, s = front ++ back → read? back = none := by
  induction s with
  | nil => simp [firstOf?]
  | cons c s ih =>
    cases hread : read? (c :: s) with
    | some a =>
      rw [firstOf?_cons_of_some hread]
      refine iff_of_false (Option.some_ne_none _) fun h ↦ ?_
      rw [h [] (c :: s) rfl] at hread
      contradiction
    | none =>
      rw [firstOf?_cons_of_none hread, ih]
      constructor
      · rintro h (_ | ⟨d, front⟩) back hs
        · obtain rfl : c :: s = back := hs
          exact hread
        · exact h front back (List.cons.inj hs).2
      · exact fun h front back hs ↦ h (c :: front) back (congrArg (c :: ·) hs)

/-- What is found is read at some place, and nothing is read at the places before it. -/
theorem firstOf?_eq_some_iff : firstOf? read? s = some a ↔
    ∃ front back, s = front ++ back ∧ read? back = some a ∧
      ∀ front' back', s = front' ++ back' → front'.length < front.length → read? back' = none := by
  induction s with
  | nil => simp [firstOf?]
  | cons c s ih =>
    cases hread : read? (c :: s) with
    | some b =>
      rw [firstOf?_cons_of_some hread]
      constructor
      · intro h
        obtain rfl := Option.some.inj h
        exact ⟨[], c :: s, rfl, hread, fun _ _ _ h ↦ absurd h (Nat.not_lt_zero _)⟩
      · rintro ⟨_ | ⟨d, front⟩, back, hs, hback, hfirst⟩
        · obtain rfl : c :: s = back := hs
          exact hread.symm.trans hback
        · rw [hfirst [] (c :: s) rfl (Nat.succ_pos _)] at hread
          contradiction
    | none =>
      rw [firstOf?_cons_of_none hread, ih]
      constructor
      · rintro ⟨front, back, rfl, hback, hfirst⟩
        refine ⟨c :: front, back, rfl, hback, ?_⟩
        rintro (_ | ⟨d, front'⟩) back' hs hlength
        · obtain rfl : c :: (front ++ back) = back' := hs
          exact hread
        · exact hfirst front' back' (List.cons.inj hs).2 (Nat.lt_of_succ_lt_succ hlength)
      · rintro ⟨_ | ⟨d, front⟩, back, hs, hback, hfirst⟩
        · obtain rfl : c :: s = back := hs
          rw [hread] at hback
          contradiction
        · refine ⟨front, back, (List.cons.inj hs).2, hback, fun front' back' hs' hlength ↦ ?_⟩
          exact hfirst (c :: front') back' (congrArg (c :: ·) hs') (Nat.succ_lt_succ hlength)

end FirstOf

namespace Header

variable {source before mark behind s gap rest v : Text} {c : Char}

/-! ## Markers -/

/-- Two or three slashes, white space and the name in front of an identifier. -/
def IsMarker (mark : Text) : Prop :=
  ∃ slash gap : Text, (slash = [] ∨ slash = .of "/") ∧ gap.IsBlanks ∧
    mark = .of "//" ++ slash ++ gap ++ .of "SPDX-License-Identifier:"

/-- The first marker of a source, with what stands before it and behind it. -/
structure IsFirstMarker (source before mark behind : Text) : Prop where
  eq : source = before ++ (mark ++ behind)
  marker : IsMarker mark
  first : ∀ before' mark' behind', source = before' ++ (mark' ++ behind') → IsMarker mark' →
    before.length ≤ before'.length

theorem after?_takeBlanks_eq_some_iff :
    after? (.of "SPDX-License-Identifier:") s.takeBlanks.2 = some rest ↔
      ∃ gap : Text, gap.IsBlanks ∧ s = gap ++ (.of "SPDX-License-Identifier:" ++ rest) := by
  constructor
  · intro h
    obtain ⟨hs, hgap, -⟩ := takeBlanks_eq_iff.1 (rfl : s.takeBlanks = _)
    exact ⟨_, hgap, hs.trans (congrArg _ (after?_eq_some_iff.1 h))⟩
  · rintro ⟨gap, hgap, rfl⟩
    have hname : StartsOff isBlank (.of "SPDX-License-Identifier:" ++ rest) :=
      startsOff_cons.2 (by decide)
    rw [takeBlanks_eq_iff.2 ⟨rfl, hgap, hname⟩]
    exact after?_append _ rest

/-- No slash stands behind the slashes of a marker. -/
theorem after?_slash_eq_none (hgap : gap.IsBlanks) :
    after? (.of "/") (gap ++ (.of "SPDX-License-Identifier:" ++ rest)) = none := by
  refine Option.eq_none_iff_forall_ne_some.2 fun more h ↦ ?_
  have hs := after?_eq_some_iff.1 h
  cases gap with
  | nil => exact absurd (List.cons.inj hs).1 (by decide)
  | cons c gap =>
    obtain rfl := (List.cons.inj hs).1
    exact absurd (hgap '/' List.mem_cons_self) (by decide)

theorem behindMarker?_eq_some_iff :
    behindMarker? s = some behind ↔ ∃ mark, IsMarker mark ∧ s = mark ++ behind := by
  unfold behindMarker?
  simp only [Option.bind_eq_bind, Option.bind_eq_some_iff, after?_takeBlanks_eq_some_iff]
  constructor
  · rintro ⟨s', hs', gap, hgap, hs⟩
    obtain rfl := after?_eq_some_iff.1 hs'
    cases hslash : after? (.of "/") s' with
    | none =>
      rw [hslash, Option.getD_none] at hs
      exact ⟨_, ⟨[], gap, .inl rfl, hgap, rfl⟩, by simp [hs]⟩
    | some more =>
      rw [hslash, Option.getD_some] at hs
      rw [after?_eq_some_iff.1 hslash]
      exact ⟨_, ⟨.of "/", gap, .inr rfl, hgap, rfl⟩, by simp [hs]⟩
  · rintro ⟨mark, ⟨slash, gap, rfl | rfl, hgap, rfl⟩, rfl⟩
    · refine ⟨gap ++ (.of "SPDX-License-Identifier:" ++ behind),
        after?_eq_some_iff.2 (by simp), gap, hgap, ?_⟩
      rw [after?_slash_eq_none hgap]
      rfl
    · refine ⟨.of "/" ++ (gap ++ (.of "SPDX-License-Identifier:" ++ behind)),
        after?_eq_some_iff.2 (by simp), gap, hgap, ?_⟩
      rw [after?_append]
      rfl

/-- The reader finds what stands behind the first marker. -/
theorem firstOf?_behindMarker?_iff : firstOf? behindMarker? source = some behind ↔
    ∃ before mark, IsFirstMarker source before mark behind := by
  rw [firstOf?_eq_some_iff]
  constructor
  · rintro ⟨before, back, rfl, hback, hfirst⟩
    obtain ⟨mark, hmark, rfl⟩ := behindMarker?_eq_some_iff.1 hback
    refine ⟨before, mark, rfl, hmark, fun before' mark' behind' hsource hmark' ↦ ?_⟩
    refine Nat.le_of_not_lt fun hlength ↦ ?_
    have hnone := hfirst before' _ hsource hlength
    rw [behindMarker?_eq_some_iff.2 ⟨mark', hmark', rfl⟩] at hnone
    contradiction
  · rintro ⟨before, mark, hmark⟩
    refine ⟨before, _, hmark.eq, behindMarker?_eq_some_iff.2 ⟨mark, hmark.marker, rfl⟩, ?_⟩
    intro before' back' hsource hlength
    refine Option.eq_none_iff_forall_ne_some.2 fun behind' hback' ↦ ?_
    obtain ⟨mark', hmark', rfl⟩ := behindMarker?_eq_some_iff.1 hback'
    exact Nat.not_lt.2 (hmark.first before' mark' behind' hsource hmark') hlength

/-- A marker ends with the only colon in it. -/
theorem IsMarker.exists_eq_concat (h : IsMarker mark) : ∃ lead, mark = lead ++ [':'] ∧ ':' ∉ lead := by
  obtain ⟨slash, gap, hslash, hgap, rfl⟩ := h
  refine ⟨.of "//" ++ slash ++ gap ++ .of "SPDX-License-Identifier", by simp [Text.of], ?_⟩
  have hcolon : ':' ∉ gap := IsMark.not_mem_of_isBlanks (by decide) hgap
  rcases hslash with rfl | rfl <;> simp [hcolon, Text.of]

/-- If no colon follows a marker, whatever marker stands there later ends where this one ends. -/
theorem IsMarker.behind_eq (h : IsMarker mark) (hbehind : ':' ∉ behind) {front mark' behind' : Text}
    (h' : IsMarker mark') (hs : mark ++ behind = front ++ (mark' ++ behind')) : behind = behind' := by
  obtain ⟨lead, rfl, hlead⟩ := h.exists_eq_concat
  obtain ⟨lead', rfl, -⟩ := h'.exists_eq_concat
  have hsplit : lead ++ ':' :: behind = (front ++ lead') ++ ':' :: behind' := by simpa using hs
  exact ((List.append_cons_inj_of_notMem hlead hbehind).1 hsplit).2.2

/-! ## Behind a marker -/

theorem identifier?_of_isBlanks (h : s.IsBlanks) :
    identifier? s = if s.all (· = '\n') then none else some [] := by
  rw [identifier?, takeBlanks_eq_iff.2 ⟨(List.append_nil s).symm, h, by simp [StartsOff]⟩]

theorem identifier?_append_cons (hgap : gap.IsBlanks) (hc : isBlank c = false) :
    identifier? (gap ++ c :: rest) = some (strip (restOfLine (c :: rest))) := by
  rw [identifier?, takeBlanks_eq_iff.2 ⟨rfl, hgap, startsOff_cons.2 hc⟩]

/-- There is nothing to read if there are only newlines. -/
theorem identifier?_eq_none_iff : identifier? s = none ↔ ∀ c ∈ s, c = '\n' := by
  rcases isBlanks_or_exists_eq_append_cons s with hs | ⟨gap, c, rest, rfl, hgap, hc⟩
  · rw [identifier?_of_isBlanks hs]
    simp
  · rw [identifier?_append_cons hgap hc]
    refine iff_of_false (Option.some_ne_none _) fun h ↦ ?_
    obtain rfl := h c (by simp)
    exact absurd hc (by decide)

/-- What is read is what the line goes on with, if it goes on with more than white space; if not, it
is the text of a later line, or nothing. -/
theorem identifier?_cases (h : identifier? s = some v) :
    (¬ (restOfLine s).IsBlanks ∧ v = strip (restOfLine s)) ∨
      (restOfLine s).IsBlanks ∧ (s.IsBlanks ∧ v = [] ∨
        ∃ gap rest : Text, s = gap ++ rest ∧ gap.IsBlanks ∧ '\n' ∈ gap ∧ v ≠ [] ∧
          v = strip (restOfLine rest)) := by
  rcases isBlanks_or_exists_eq_append_cons s with hs | ⟨gap, c, rest, rfl, hgap, hc⟩
  · refine .inr ⟨fun c hc ↦ hs c ((restOfLine_isPrefix s).subset hc), .inl ⟨hs, ?_⟩⟩
    rw [identifier?_of_isBlanks hs] at h
    split at h
    · cases h
    · exact (Option.some.inj h).symm
  · rw [identifier?_append_cons hgap hc] at h
    obtain rfl := Option.some.inj h
    have hline : c ∈ restOfLine (c :: rest) := by
      have hne : c ≠ '\n' := by
        rintro rfl
        exact absurd hc (by decide)
      simp [restOfLine, hne]
    by_cases hnewline : '\n' ∈ gap
    · rw [restOfLine_append hnewline]
      refine .inr ⟨fun d hd ↦ hgap d ((restOfLine_isPrefix gap).subset hd), .inr ?_⟩
      refine ⟨gap, c :: rest, rfl, hgap, hnewline, fun hnil ↦ ?_, rfl⟩
      exact not_isBlanks_of_mem hc hline (strip_eq_nil_iff.1 hnil)
    · rw [restOfLine_append_of_not_mem hnewline, strip_append hgap]
      exact .inl ⟨not_isBlanks_of_mem hc (List.mem_append_right _ hline), rfl⟩

/-! ## The identifier of a source -/

/-- The search for a license line is one for a marker: behind all later markers there is nothing to
read if there is nothing behind the first one. -/
theorem license?_eq (source : Text) :
    license? source = (firstOf? behindMarker? source).bind identifier? := by
  unfold license?
  induction source with
  | nil => rfl
  | cons c s ih =>
    cases hmarker : behindMarker? (c :: s) with
    | none =>
      have hread : licenseAt? (c :: s) = none := by rw [licenseAt?, hmarker]; rfl
      rw [firstOf?_cons_of_none hread, firstOf?_cons_of_none hmarker, ih]
    | some behind =>
      have hread : licenseAt? (c :: s) = identifier? behind := by rw [licenseAt?, hmarker]; rfl
      rw [firstOf?_cons_of_some hmarker, Option.bind_some]
      cases hidentifier : identifier? behind with
      | some v => exact firstOf?_cons_of_some (hread.trans hidentifier)
      | none =>
        rw [firstOf?_cons_of_none (hread.trans hidentifier), firstOf?_eq_none_iff]
        rintro front back rfl
        refine Option.bind_eq_none_iff.2 fun behind' hbehind' ↦ ?_
        obtain ⟨mark, hmark, hs⟩ := behindMarker?_eq_some_iff.1 hmarker
        obtain ⟨mark', hmark', rfl⟩ := behindMarker?_eq_some_iff.1 hbehind'
        have hcolon : ':' ∉ behind := by
          intro hmem
          exact absurd (identifier?_eq_none_iff.1 hidentifier _ hmem) (by decide)
        rw [← hmark.behind_eq hcolon hmark' (hs.symm.trans (List.cons_append ..).symm)]
        exact hidentifier

theorem license?_of_isFirstMarker (h : IsFirstMarker source before mark behind) :
    license? source = identifier? behind := by
  rw [license?_eq, firstOf?_behindMarker?_iff.2 ⟨before, mark, h⟩, Option.bind_some]

/-- What is read is read behind the first marker. -/
theorem exists_isFirstMarker (h : license? source = some v) :
    ∃ before mark behind, IsFirstMarker source before mark behind ∧ identifier? behind = some v := by
  rw [license?_eq] at h
  obtain ⟨behind, hbehind, hv⟩ := Option.bind_eq_some_iff.1 h
  obtain ⟨before, mark, hmark⟩ := firstOf?_behindMarker?_iff.1 hbehind
  exact ⟨before, mark, behind, hmark, hv⟩

/-- What a license identifier of a source has to be. -/
structure IsIdentifier (source v : Text) : Prop where
  ne_nil : v ≠ []
  stripped : v.IsStripped
  /-- It stands on a line of the source, behind the name and white space. -/
  line : ∃ line ∈ source.pieces '\n', ∃ gap : Text, gap.IsBlanks ∧
    .of "SPDX-License-Identifier:" ++ gap ++ v <:+: line
  /-- This is the line of the first marker, and holds nothing else behind it. -/
  marked : ∀ before mark behind, IsFirstMarker source before mark behind →
    ∃ gap trail : Text, gap.IsBlanks ∧ trail.IsBlanks ∧ restOfLine behind = gap ++ v ++ trail

/-- What stands on the line of a marker stands on a line of the source. -/
theorem exists_line (h : IsFirstMarker source before mark behind) {trail : Text}
    (hline : restOfLine behind = gap ++ v ++ trail) : ∃ line ∈ source.pieces '\n',
      .of "SPDX-License-Identifier:" ++ gap ++ v <:+: line := by
  obtain ⟨slash, gap', -, -, hmark⟩ := h.marker
  obtain ⟨more, hmore⟩ := restOfLine_isPrefix behind
  apply exists_mem_pieces_infix
  · refine ⟨before ++ (Text.of "//" ++ slash ++ gap'), trail ++ more, ?_⟩
    rw [h.eq, hmark, ← hmore, hline]
    simp only [List.append_assoc]
  · have hrest := newline_not_mem_restOfLine behind
    have hname : '\n' ∉ Text.of "SPDX-License-Identifier:" := by decide
    rw [hline] at hrest
    simp only [List.mem_append, not_or] at hrest ⊢
    exact ⟨⟨hname, hrest.1.1⟩, hrest.1.2⟩

theorem isIdentifier_iff (h : IsFirstMarker source before mark behind)
    (hv : identifier? behind = some v) :
    IsIdentifier source v ↔ ¬ (restOfLine behind).IsBlanks := by
  constructor
  · intro hidentifier hblanks
    obtain ⟨gap, trail, -, -, hline⟩ := hidentifier.marked before mark behind h
    obtain ⟨c, rest, rfl⟩ := List.exists_cons_of_ne_nil hidentifier.ne_nil
    have hc := startsOff_cons.1 hidentifier.stripped.front
    have hmem : c ∈ restOfLine behind := by
      rw [hline]
      simp
    exact not_isBlanks_of_mem hc hmem hblanks
  · intro hline
    obtain ⟨-, rfl⟩ | ⟨hblanks, -⟩ := identifier?_cases hv
    · obtain ⟨gap, trail, hgap, htrail, hrest⟩ := exists_eq_append_strip_append (restOfLine behind)
      obtain ⟨line, hmem, hinfix⟩ := exists_line h hrest
      refine ⟨fun hnil ↦ hline (strip_eq_nil_iff.1 hnil), isStripped_strip _,
        ⟨line, hmem, gap, hgap, hinfix⟩, fun before' mark' behind' h' ↦ ?_⟩
      -- The first marker is the same, whichever way it is split off.
      have hbehind : some behind' = some behind :=
        (firstOf?_behindMarker?_iff.2 ⟨before', mark', h'⟩).symm.trans
          (firstOf?_behindMarker?_iff.2 ⟨before, mark, h⟩)
      rw [Option.some.inj hbehind]
      exact ⟨gap, trail, hgap, htrail, hrest⟩
    · exact absurd hblanks hline

/-- What is read is an identifier exactly if the line of the first marker goes on with more than white
space. If not, it is the text of a later line, or nothing is left of the source. -/
theorem license?_isIdentifier_iff (h : license? source = some v) :
    (∃ before mark behind, IsFirstMarker source before mark behind) ∧
    ∀ before mark behind, IsFirstMarker source before mark behind →
      (IsIdentifier source v ↔ ¬ (restOfLine behind).IsBlanks) ∧
      ((restOfLine behind).IsBlanks → behind.IsBlanks ∧ v = [] ∨
        ∃ gap rest : Text, behind = gap ++ rest ∧ gap.IsBlanks ∧ '\n' ∈ gap ∧ v ≠ [] ∧
          v = strip (restOfLine rest)) := by
  constructor
  · obtain ⟨before, mark, behind, hmark, -⟩ := exists_isFirstMarker h
    exact ⟨before, mark, behind, hmark⟩
  · intro before mark behind hmark
    rw [license?_of_isFirstMarker hmark] at h
    refine ⟨isIdentifier_iff hmark h, fun hblanks ↦ ?_⟩
    obtain ⟨hline, -⟩ | ⟨-, hlater⟩ := identifier?_cases h
    · exact absurd hblanks hline
    · exact hlater

/-- A license line as it should be, with white space of several kinds. -/
def licenseLine : Text := .of "///  SPDX-License-Identifier:\tMIT \r\ncontract A \x7b\x7d\n"

theorem license?_licenseLine :
    license? licenseLine = some (.of "MIT") ∧ IsIdentifier licenseLine (.of "MIT") := by
  have hread : license? licenseLine = some (.of "MIT") := by decide
  have hmark : IsFirstMarker licenseLine [] (.of "///  SPDX-License-Identifier:")
      (.of "\tMIT \r\ncontract A \x7b\x7d\n") :=
    ⟨rfl, ⟨.of "/", .of "  ", .inr rfl, by decide, rfl⟩, fun _ _ _ _ _ ↦ Nat.zero_le _⟩
  obtain ⟨hidentifier, -⟩ := (license?_isIdentifier_iff hread).2 _ _ _ hmark
  exact ⟨hread, hidentifier.2 (by decide)⟩

/-- A marker that ends its line. -/
def bareMarker : Text := .of "// SPDX-License-Identifier:\ncontract A \x7b\x7d\n"

/-- Behind a marker that ends its line the next line is read, which has no marker. Blanks behind a
marker at the end of a source are read as an empty identifier. -/
theorem license?_bareMarker :
    license? bareMarker = some (.of "contract A \x7b\x7d") ∧
      ¬ IsIdentifier bareMarker (.of "contract A \x7b\x7d") ∧
      license? (.of "// SPDX-License-Identifier: ") = some [] := by
  refine ⟨by decide, ?_, by decide⟩
  rintro ⟨-, -, ⟨line, hline, gap, -, hinfix⟩, -⟩
  -- No line is long enough for the name and the text of the later line.
  have hlines : ∀ line ∈ bareMarker.pieces '\n', line.length ≤ 27 := by decide
  have hname : (Text.of "SPDX-License-Identifier:").length = 24 := rfl
  have htext : (Text.of "contract A \x7b\x7d").length = 13 := rfl
  have hlength := Nat.le_trans hinfix.length_le (hlines line hline)
  rw [List.length_append, List.length_append, hname, htext] at hlength
  omega

end Header

end SolidityImports
