import Mathlib.Data.Bool.AllAny
import SolidityImports.Proofs.Source.License

/-! # First headers

A pragma and a license line are searched for in any text, which may repeat their words or break off in
the middle of them. Main statement: what is found is the value of the first header as it is written,
but for the white space around it, whatever stands before and behind. -/

namespace SolidityImports.Header

open Text

variable {before mark gap v behind rest source s : Text}

/-- The value of a header, as it stands behind white space on the rest of its line. -/
structure IsValue (v : Text) : Prop where
  ne_nil : v ≠ []
  front : StartsOff isBlank v
  oneLine : '\n' ∉ v

instance (v : Text) : Decidable (IsValue v) :=
  decidable_of_iff (v ≠ [] ∧ StartsOff isBlank v ∧ '\n' ∉ v)
    ⟨fun h ↦ ⟨h.1, h.2.1, h.2.2⟩, fun h ↦ ⟨h.ne_nil, h.front, h.oneLine⟩⟩

theorem IsValue.startsOff_append (hv : IsValue v) : StartsOff isBlank (v ++ rest) := by
  obtain ⟨c, more, rfl⟩ := List.exists_cons_of_ne_nil hv.ne_nil
  exact startsOff_cons.2 (startsOff_cons.1 hv.front)

/-! ## Pragmas -/

/-- The two words that a pragma starts with. -/
def IsPragmaMark (mark : Text) : Prop :=
  ∃ gap : Text, gap.IsGap ∧ mark = .of "pragma" ++ gap ++ .of "solidity"

/-- No other `p` stands behind the one that a pragma starts with. -/
theorem IsPragmaMark.exists_eq_cons (h : IsPragmaMark mark) :
    ∃ tail, mark = 'p' :: tail ∧ 'p' ∉ tail := by
  obtain ⟨gap, hgap, rfl⟩ := h
  refine ⟨Text.of "ragma" ++ gap ++ Text.of "solidity", rfl, ?_⟩
  have hp : 'p' ∉ gap := fun hp ↦ not_isBlanks_of_mem (by decide) hp hgap.2
  simp [hp, Text.of]

theorem expression?_append (hv : IsValue v) (hstop : ';' ∉ v) :
    expression? (v ++ ';' :: rest) = some v := by
  obtain ⟨c, more, rfl⟩ := List.exists_cons_of_ne_nil hv.ne_nil
  obtain ⟨hc, hline⟩ := List.ne_and_not_mem_of_not_mem_cons hv.oneLine
  have hmore : ';' ∉ more := fun h ↦ hstop (List.mem_cons_of_mem c h)
  rw [List.cons_append, expression?, if_neg hc.symm, upTo?_append hmore hline]
  rfl

/-- The expression of a pragma is read where the pragma starts. -/
theorem pragmaAt?_append (hmark : IsPragmaMark mark) (hgap : gap.IsGap) (hv : IsValue v)
    (hstop : ';' ∉ v) : pragmaAt? (mark ++ (gap ++ (v ++ ';' :: rest))) = some v.strip := by
  obtain ⟨between, hbetween, rfl⟩ := hmark
  have hword : StartsOff isBlank (Text.of "solidity" ++ (gap ++ (v ++ ';' :: rest))) :=
    startsOff_cons.2 (by decide)
  unfold pragmaAt?
  simp only [List.append_assoc, after?_append, takeBlanks?_append hbetween hword,
    takeBlanks?_append hgap hv.startsOff_append, expression?_append hv hstop,
    Option.bind_eq_bind, Option.bind_some, Option.pure_def]
  rfl

theorem exists_isPragmaMark (h : pragmaAt? s = some v) :
    ∃ mark rest, IsPragmaMark mark ∧ s = mark ++ rest := by
  unfold pragmaAt? at h
  simp only [Option.bind_eq_bind, Option.bind_eq_some_iff] at h
  obtain ⟨s₁, h₁, ⟨between, s₂⟩, h₂, s₃, h₃, -⟩ := h
  obtain rfl := after?_eq_some_iff.1 h₁
  obtain ⟨rfl, hbetween, -⟩ := takeBlanks?_eq_some_iff.1 h₂
  obtain rfl := after?_eq_some_iff.1 h₃
  exact ⟨_, s₃, ⟨between, hbetween, rfl⟩, by simp⟩

/-- The expression of the first pragma is read, whatever follows it. -/
theorem versionPragma?_append (hbefore : ∀ mark, IsPragmaMark mark → ¬ mark <:+: before)
    (hmark : IsPragmaMark mark) (hgap : gap.IsGap) (hv : IsValue v) (hstop : ';' ∉ v) :
    versionPragma? (before ++ (mark ++ (gap ++ (v ++ ';' :: rest)))) = some v.strip := by
  refine firstOf?_eq_some_iff.2 ⟨before, _, rfl, pragmaAt?_append hmark hgap hv hstop, ?_⟩
  intro front back hsource hlength
  refine Option.eq_none_iff_forall_ne_some.2 fun found hfound ↦ ?_
  obtain ⟨mark', more, hmark', rfl⟩ := exists_isPragmaMark hfound
  -- A pragma that starts earlier cannot end later, and so stands in the text before.
  obtain ⟨tail, rfl, -⟩ := hmark.exists_eq_cons
  obtain ⟨tail', rfl, hp⟩ := hmark'.exists_eq_cons
  exact hbefore _ hmark' (infix_of_append_eq hp hsource hlength)

/-! ## License lines -/

/-- A marker ends with the name, behind characters that the name does not hold. -/
theorem IsMarker.exists_eq_append (h : IsMarker mark) :
    ∃ lead, mark = lead ++ .of "SPDX-License-Identifier:" ∧
      ∀ c ∈ lead, c ∉ Text.of "SPDX-License-Identifier:" := by
  obtain ⟨slash, gap, hslash, hgap, rfl⟩ := h
  refine ⟨_, rfl, ?_⟩
  have hslashes : ∀ c ∈ Text.of "//" ++ slash, c ∉ Text.of "SPDX-License-Identifier:" := by
    rcases hslash with rfl | rfl <;> exact List.all_iff_forall_prop.1 (by decide)
  have hname : Text.IsTight (.of "SPDX-License-Identifier:") := by decide
  intro c hc hmem
  rcases List.mem_append.1 hc with hc | hc
  · exact hslashes c hc hmem
  · exact not_isBlanks_of_mem (hname c hmem) hc hgap

/-- A marker behind text without the name is the first one, or ends where the first one does. -/
theorem license?_append (hbefore : ¬ Text.of "SPDX-License-Identifier:" <:+: before)
    (hmark : IsMarker mark) : license? (before ++ (mark ++ behind)) = identifier? behind := by
  rw [license?_eq]
  cases hfirst : firstOf? behindMarker? (before ++ (mark ++ behind)) with
  | none =>
    have hnone := firstOf?_eq_none_iff.1 hfirst before _ rfl
    rw [behindMarker?_eq_some_iff.2 ⟨mark, hmark, rfl⟩] at hnone
    contradiction
  | some behind' =>
    obtain ⟨before', mark', heq, hmark', hleast⟩ := firstOf?_behindMarker?_iff.1 hfirst
    have hstart : before' <+: before ++ (mark ++ behind) := ⟨mark' ++ behind', heq.symm⟩
    have hprefix : before' <+: before :=
      List.prefix_of_prefix_length_le hstart (List.prefix_append before _)
        (hleast before mark behind rfl hmark)
    obtain ⟨lead, rfl, hlead⟩ := hmark.exists_eq_append
    obtain ⟨lead', rfl, hlead'⟩ := hmark'.exists_eq_append
    have hname : Text.of "SPDX-License-Identifier:" ≠ [] := by decide
    have hout := not_infix_append hname hbefore hlead
    have hout' := not_infix_append hname (fun h ↦ hbefore (h.trans hprefix.isInfix)) hlead'
    have hsplit : (before ++ lead) ++ (.of "SPDX-License-Identifier:" ++ behind) =
        (before' ++ lead') ++ (.of "SPDX-License-Identifier:" ++ behind') := by simpa using heq
    rw [Option.bind_some, (eq_of_append_eq (by decide) hsplit hout hout').2]

/-- The identifier behind the white space of a marker is read up to the end of its line. -/
theorem identifier?_append (hgap : gap.IsBlanks) (hv : IsValue v)
    (hrest : ∀ c ∈ rest.head?, c = '\n') : identifier? (gap ++ (v ++ rest)) = some v.strip := by
  obtain ⟨c, more, rfl⟩ := List.exists_cons_of_ne_nil hv.ne_nil
  rw [List.cons_append, identifier?_append_cons hgap (startsOff_cons.1 hv.front),
    ← List.cons_append, restOfLine_append_of_not_mem hv.oneLine]
  cases rest with
  | nil => rw [restOfLine, List.takeWhile_nil, List.append_nil]
  | cons d rest =>
    obtain rfl := hrest d rfl
    have hline : restOfLine ('\n' :: rest) = [] := rfl
    rw [hline, List.append_nil]

/-! ## Both -/

/-- The first header of each kind is read as it is written, but for the white space around its value:
the expression of a pragma up to the semicolon, and the identifier of a license up to the end of the
line. -/
theorem first_header_as_written (before rest : Text) :
    (∀ mark gap v : Text, (∀ mark', IsPragmaMark mark' → ¬ mark' <:+: before) → IsPragmaMark mark →
      gap.IsGap → IsValue v → ';' ∉ v →
      versionPragma? (before ++ (mark ++ (gap ++ (v ++ ';' :: rest)))) = some v.strip) ∧
    (∀ mark gap v : Text, ¬ Text.of "SPDX-License-Identifier:" <:+: before → IsMarker mark →
      gap.IsBlanks → '\n' ∉ gap → IsValue v → (∀ c ∈ rest.head?, c = '\n') →
      license? (before ++ (mark ++ (gap ++ (v ++ rest)))) = some v.strip) := by
  constructor
  · intro mark gap v hbefore hmark hgap hv hstop
    exact versionPragma?_append hbefore hmark hgap hv hstop
  · intro mark gap v hbefore hmark hgap _ hv hrest
    rw [license?_append hbefore hmark]
    exact identifier?_append hgap hv hrest

/-- The words of both headers break off right before the headers, and stand again behind them. -/
theorem first_header_brokenOff :
    versionPragma? (Text.of "/pragma solidit" ++ (Text.of "pragma\t\nsolidity" ++ (Text.of "  " ++
        (Text.of ">=0.6.0   <0.9.0 " ++ ';' :: Text.of "\npragma solidity 0.5.0;")))) =
      some (Text.of ">=0.6.0   <0.9.0") ∧
    license? (Text.of "/// SPDX-License-Identifier" ++ (Text.of "// SPDX-License-Identifier:" ++
        ([] ++ (Text.of "MIT OR GPL-2.0 " ++ Text.of "\n//SPDX-License-Identifier: X")))) =
      some (Text.of "MIT OR GPL-2.0") := by
  have hversion : strip (.of ">=0.6.0   <0.9.0 ") = .of ">=0.6.0   <0.9.0" := by decide
  have hname : strip (.of "MIT OR GPL-2.0 ") = .of "MIT OR GPL-2.0" := by decide
  rw [← hversion, ← hname]
  constructor
  · refine (first_header_as_written (.of "/pragma solidit") (.of "\npragma solidity 0.5.0;")).1
      (.of "pragma\t\nsolidity") (.of "  ") (.of ">=0.6.0   <0.9.0 ") ?_
      ⟨.of "\t\n", by decide, rfl⟩ (by decide) (by decide) (by decide)
    -- A pragma ends with a letter that does not stand before it.
    rintro _ ⟨gap, -, rfl⟩ hword
    have hy : 'y' ∈ Text.of "pragma" ++ gap ++ Text.of "solidity" :=
      List.mem_append_right _ (by decide)
    exact absurd (hword.subset hy) (by decide)
  · refine (first_header_as_written (.of "/// SPDX-License-Identifier")
      (.of "\n//SPDX-License-Identifier: X")).2 (.of "// SPDX-License-Identifier:") []
      (.of "MIT OR GPL-2.0 ") ?_ ⟨[], .of " ", .inl rfl, by decide, rfl⟩ (by decide) (by decide)
      (by decide) fun c hc ↦ (Option.mem_some_iff.1 hc).symm
    intro hword
    have hcolon : ':' ∈ Text.of "SPDX-License-Identifier:" := by decide
    exact absurd (hword.subset hcolon) (by decide)

end SolidityImports.Header
