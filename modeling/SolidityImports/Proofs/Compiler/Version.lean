import Mathlib.Data.List.Lex
import SolidityImports.Compiler.Version
import SolidityImports.Proofs.Text.Numeral
import SolidityImports.Proofs.Text.Pieces

/-! # Reading versions

Two forms decide together which names are versions: that of the names that are tried, with digits of
any script, and that of versions, of which the scheme knows more than releases. Main statement: whatever
else a scheme reads, the names that are read are three numerals with points between them, and a version
is written as the name that it is read from. -/

namespace SolidityImports

open Text

/-! ## Schemes -/

/-- What is known of a scheme of versions: `final` is the version that has a release and nothing
else. Other versions may be read from other texts. -/
structure VersionScheme.IsLawful {V : Type} (S : VersionScheme V) (final : List Nat → V) : Prop where
  /-- Runs of ASCII digits with points between them are the version with these numbers. -/
  read?_release : ∀ ds : List Text, ds ≠ [] → (∀ d ∈ ds, d.isDigits) →
    S.read? (joinWith ['.'] ds) = some (final (ds.map natValue))
  /-- No version is written with digits of another script. -/
  isDigit_of_read? : ∀ s v, S.read? s = some v → ∀ c ∈ s, isDecimal c → c.isDigit
  release_final : ∀ numbers, numbers ≠ [] → S.release (final numbers) = numbers
  /-- A release is written as the numerals of its numbers with points between them. -/
  text_final : ∀ numbers, numbers ≠ [] →
    S.text (final numbers) = joinWith ['.'] (numbers.map ofNat)
  /-- Releases of equal length are compared number by number. -/
  le_final : ∀ numbers others, numbers ≠ [] → numbers.length = others.length →
    (S.le (final numbers) (final others) ↔ numbers ≤ others)

/-- Points stand between the numbers alone. -/
theorem pieces_joinWith_digits {ds : List Text} (hne : ds ≠ []) (hds : ∀ d ∈ ds, d.isDigits) :
    (joinWith ['.'] ds).pieces '.' = ds := by
  refine pieces_joinWith (fun d hd hpoint ↦ ?_) hne
  exact absurd ((isDigits_iff.1 (hds d hd)).2 _ hpoint) (by decide)

namespace Version

/-! ## Zeros at the end of a release -/

theorem dropLastZeros_cons (n : Nat) (numbers : List Nat) : dropLastZeros (n :: numbers) =
    if dropLastZeros numbers = [] ∧ n = 0 then [] else n :: dropLastZeros numbers := by
  simp only [dropLastZeros, List.reverse_eq_nil_iff]
  rw [List.reverse_cons, List.dropWhile_append]
  by_cases hzeros : numbers.reverse.dropWhile (· = 0) = []
  · by_cases hn : n = 0 <;> simp [hzeros, hn]
  · simp [hzeros]

/-- Zeros at the end of releases of equal length make no difference to their order. -/
theorem dropLastZeros_lt_iff {numbers others : List Nat} (h : numbers.length = others.length) :
    dropLastZeros numbers < dropLastZeros others ↔ numbers < others := by
  induction numbers generalizing others with
  | nil =>
    obtain rfl := List.eq_nil_of_length_eq_zero h.symm
    rfl
  | cons n numbers ih =>
    obtain ⟨m, others, rfl⟩ := List.exists_cons_of_length_eq_add_one h.symm
    rw [dropLastZeros_cons, dropLastZeros_cons, List.cons_lt_cons_iff, ← ih (Nat.succ.inj h)]
    by_cases hright : dropLastZeros others = [] ∧ m = 0
    · -- Nothing comes before zeros alone.
      rw [if_pos hright]
      obtain ⟨hnil, rfl⟩ := hright
      rw [hnil]
      refine iff_of_false (List.not_lt_nil _) ?_
      rintro (hn | ⟨-, hrest⟩)
      · exact Nat.not_lt_zero n hn
      · exact List.not_lt_nil _ hrest
    · rw [if_neg hright]
      by_cases hleft : dropLastZeros numbers = [] ∧ n = 0
      · rw [if_pos hleft]
        obtain ⟨hnil, rfl⟩ := hleft
        rw [hnil]
        refine iff_of_true (List.nil_lt_cons _ _) ?_
        rcases Nat.eq_zero_or_pos m with rfl | hm
        · obtain ⟨k, rest, hrest⟩ := List.exists_cons_of_ne_nil fun hrest ↦ hright ⟨hrest, rfl⟩
          rw [hrest]
          exact .inr ⟨rfl, List.nil_lt_cons k rest⟩
        · exact .inl hm
      · rw [if_neg hleft, List.cons_lt_cons_iff]

theorem le_iff {v w : Version} (h : v.numbers.length = w.numbers.length) :
    le v w ↔ v.numbers ≤ w.numbers := by
  rw [← not_lt, ← dropLastZeros_lt_iff h.symm, ← List.lex_eq_true_iff_lt, le, Bool.not_eq_eq_eq_not,
    Bool.not_true, Bool.not_eq_true]

/-! ## The scheme of releases -/

theorem isDecimal_point : isDecimal '.' = false := by decide

theorem read?_eq_some_iff {s : Text} {v : Version} : read? s = some v ↔
    (∀ d ∈ s.pieces '.', d.isDigits) ∧ v = ⟨(s.pieces '.').map natValue⟩ := by
  rw [read?, Option.ite_none_right_eq_some, List.all_eq_true, Option.some.injEq,
    eq_comm]

theorem isLawful_scheme : scheme.IsLawful Version.mk where
  read?_release := by
    intro ds hne hdigits
    refine read?_eq_some_iff.2 ?_
    rw [pieces_joinWith_digits hne hdigits]
    exact ⟨hdigits, rfl⟩
  isDigit_of_read? := by
    intro s v hread c hc hdecimal
    obtain ⟨hdigits, -⟩ := read?_eq_some_iff.1 hread
    have hpoint : c ∉ ['.'] := by
      intro hpoint
      rw [List.mem_singleton.1 hpoint, isDecimal_point] at hdecimal
      contradiction
    rw [← joinWith_pieces '.' s, mem_joinWith_iff hpoint] at hc
    obtain ⟨d, hd, hc⟩ := hc
    exact (isDigits_iff.1 (hdigits d hd)).2 c hc
  release_final := fun _ _ ↦ rfl
  text_final := fun _ _ ↦ rfl
  le_final := fun _ _ _ hlength ↦ le_iff hlength

end Version

/-! ## Names -/

/-- A numeral is a number as it stands in names, with ASCII digits alone. -/
theorem isNumeral_iff {d : Text} : d.IsNumeral ↔ isNameNumber d ∧ ∀ c ∈ d, c.isDigit := by
  cases d with
  | nil => exact iff_of_false (fun h ↦ h.ne_nil rfl) (by simp [isNameNumber])
  | cons c digits =>
    simp only [isNameNumber, Bool.or_eq_true, Bool.and_eq_true, decide_eq_true_eq,
      List.all_eq_true]
    constructor
    · intro h
      refine ⟨?_, h.digit⟩
      obtain ⟨hc, hdigits⟩ := List.forall_mem_cons.1 h.digit
      by_cases hzero : c = '0'
      · subst hzero
        exact .inl ⟨rfl, (List.cons.inj (h.lead rfl)).2⟩
      · exact .inr ⟨⟨hzero, hc⟩, fun x hx ↦ isDecimal_of_isDigit (hdigits x hx)⟩
    · rintro ⟨hform, hdigit⟩
      refine ⟨List.cons_ne_nil c digits, hdigit, fun hhead ↦ ?_⟩
      obtain rfl : c = '0' := Option.some.inj hhead
      rcases hform with ⟨-, rfl⟩ | ⟨⟨hzero, -⟩, -⟩
      · rfl
      · exact absurd rfl hzero

/-- The digits in a number of a name are decimal digits, of whatever scripts. -/
theorem isDecimal_of_mem {d : Text} (h : isNameNumber d) {c : Char} (hc : c ∈ d) : isDecimal c := by
  cases d with
  | nil => cases hc
  | cons lead digits =>
    simp only [isNameNumber, Bool.or_eq_true, Bool.and_eq_true, decide_eq_true_eq,
      List.all_eq_true] at h
    rcases h with ⟨rfl, rfl⟩ | ⟨⟨-, hlead⟩, hdigits⟩
    · rw [List.mem_singleton.1 hc]
      decide
    · rcases List.mem_cons.1 hc with rfl | hc
      · exact isDecimal_of_isDigit hlead
      · exact hdigits c hc

namespace VersionScheme

variable {V : Type} {S : VersionScheme V} {final : List Nat → V} {s s' : Text} {v v' : V}

/-- Names with digits of another script are no versions, and the others are releases. -/
theorem ofName?_eq_some_iff (hS : S.IsLawful final) : S.ofName? s = some v ↔
    ∃ a b c : Text, (∀ d ∈ [a, b, c], d.IsNumeral) ∧ s = joinWith ['.'] [a, b, c] ∧
      v = final [a.natValue, b.natValue, c.natValue] := by
  have hrelease : ∀ a b c : Text, (∀ d ∈ [a, b, c], d.IsNumeral) →
      S.read? (joinWith ['.'] [a, b, c]) = some (final [a.natValue, b.natValue, c.natValue]) :=
    fun a b c h ↦ hS.read?_release _ (List.cons_ne_nil _ _) fun d hd ↦ (h d hd).isDigits
  constructor
  · intro h
    obtain ⟨hname, hread⟩ := Option.ite_none_right_eq_some.1 h
    simp only [isVersionName, Bool.and_eq_true, decide_eq_true_eq, List.all_eq_true] at hname
    obtain ⟨hlength, hform⟩ := hname
    -- The pattern lets digits of other scripts pass, the scheme does not.
    have hnumeral : ∀ d ∈ s.pieces '.', d.IsNumeral := by
      refine fun d hd ↦ isNumeral_iff.2 ⟨hform d hd, fun x hx ↦ ?_⟩
      exact hS.isDigit_of_read? s v hread x (mem_of_mem_of_mem_pieces hd hx)
        (isDecimal_of_mem (hform d hd) hx)
    obtain ⟨a, b, c, habc⟩ := List.length_eq_three.1 hlength
    rw [habc] at hnumeral
    have hs := joinWith_pieces '.' s
    rw [habc] at hs
    refine ⟨a, b, c, hnumeral, hs.symm, Option.some.inj ?_⟩
    rw [← hread, ← hs, hrelease a b c hnumeral]
  · rintro ⟨a, b, c, hnumeral, rfl, rfl⟩
    have hname : isVersionName (joinWith ['.'] [a, b, c]) := by
      unfold isVersionName
      rw [pieces_joinWith_digits (List.cons_ne_nil _ _) fun d hd ↦ (hnumeral d hd).isDigits,
        Bool.and_eq_true]
      exact ⟨rfl, List.all_eq_true.2 fun d hd ↦ (isNumeral_iff.1 (hnumeral d hd)).1⟩
    rw [ofName?, if_pos hname]
    exact hrelease a b c hnumeral

/-- What is read from a name is a release of three numbers, and is written as the name. -/
theorem exists_of_ofName? (hS : S.IsLawful final) (h : S.ofName? s = some v) :
    ∃ major minor patch : Nat, v = final [major, minor, patch] ∧
      S.release v = [major, minor, patch] ∧ S.text v = s ∧
      s = joinWith ['.'] [ofNat major, ofNat minor, ofNat patch] := by
  obtain ⟨a, b, c, hnumeral, rfl, rfl⟩ := (ofName?_eq_some_iff hS).1 h
  have hwritten : [a, b, c] = [ofNat a.natValue, ofNat b.natValue, ofNat c.natValue] :=
    (List.map_id' _).symm.trans
      (List.map_congr_left fun d hd ↦ (hnumeral d hd).ofNat_natValue.symm)
  refine ⟨_, _, _, rfl, hS.release_final _ (List.cons_ne_nil _ _), ?_,
    congrArg (joinWith ['.']) hwritten⟩
  rw [hwritten]
  exact hS.text_final _ (List.cons_ne_nil _ _)

/-- Every release of three numbers is read from its text. -/
theorem ofName?_text (hS : S.IsLawful final) (major minor patch : Nat) :
    S.ofName? (joinWith ['.'] [ofNat major, ofNat minor, ofNat patch]) =
      some (final [major, minor, patch]) := by
  refine (ofName?_eq_some_iff hS).2 ⟨_, _, _, ?_, rfl, ?_⟩
  · simp [isNumeral_ofNat]
  · simp

/-- Versions that are read from names are compared number by number. -/
theorem le_iff_of_ofName? (hS : S.IsLawful final) (h : S.ofName? s = some v)
    (h' : S.ofName? s' = some v') : S.le v v' ↔ S.release v ≤ S.release v' := by
  obtain ⟨a, b, c, rfl, hrelease, -⟩ := exists_of_ofName? hS h
  obtain ⟨a', b', c', rfl, hrelease', -⟩ := exists_of_ofName? hS h'
  rw [hrelease, hrelease']
  exact hS.le_final _ _ (List.cons_ne_nil _ _) rfl

theorem eq_of_release_eq (hS : S.IsLawful final) (h : S.ofName? s = some v)
    (h' : S.ofName? s' = some v') (heq : S.release v = S.release v') : s = s' := by
  obtain ⟨a, b, c, rfl, hrelease, -, rfl⟩ := exists_of_ofName? hS h
  obtain ⟨a', b', c', rfl, hrelease', -, rfl⟩ := exists_of_ofName? hS h'
  rw [hrelease, hrelease'] at heq
  cases heq
  rfl

/-- The names that are read as versions are three numerals with points between them, and nothing
else. The release of the version is these numbers, it is written as the name, and no other name is
read as this version, or as one that is the same in the order of versions. -/
theorem ofName?_exact (hS : S.IsLawful final) (s : Text) :
    ((∃ v, S.ofName? s = some v) ↔ ∃ a b c : Text,
      a.IsNumeral ∧ b.IsNumeral ∧ c.IsNumeral ∧ s = a ++ ['.'] ++ (b ++ ['.'] ++ c)) ∧
    ∀ v, S.ofName? s = some v →
      (∃ a b c : Text, a.IsNumeral ∧ b.IsNumeral ∧ c.IsNumeral ∧
        s = a ++ ['.'] ++ (b ++ ['.'] ++ c) ∧
        S.release v = [a.natValue, b.natValue, c.natValue]) ∧
      S.text v = s ∧
      ∀ s' v', S.ofName? s' = some v' → (v = v' ∨ S.le v v' ∧ S.le v' v) → s = s' := by
  have hread : ∀ v, S.ofName? s = some v → ∃ a b c : Text, a.IsNumeral ∧ b.IsNumeral ∧
      c.IsNumeral ∧ s = a ++ ['.'] ++ (b ++ ['.'] ++ c) ∧
        S.release v = [a.natValue, b.natValue, c.natValue] := by
    intro v hv
    obtain ⟨a, b, c, hnumeral, rfl, rfl⟩ := (ofName?_eq_some_iff hS).1 hv
    exact ⟨a, b, c, hnumeral a (by simp), hnumeral b (by simp), hnumeral c (by simp), rfl,
      hS.release_final _ (List.cons_ne_nil _ _)⟩
  constructor
  · constructor
    · rintro ⟨v, hv⟩
      obtain ⟨a, b, c, ha, hb, hc, hs, -⟩ := hread v hv
      exact ⟨a, b, c, ha, hb, hc, hs⟩
    · rintro ⟨a, b, c, ha, hb, hc, rfl⟩
      exact ⟨_, (ofName?_eq_some_iff hS).2 ⟨a, b, c, by simp [ha, hb, hc], rfl, rfl⟩⟩
  · intro v hv
    obtain ⟨_, _, _, -, -, htext, -⟩ := exists_of_ofName? hS hv
    refine ⟨hread v hv, htext, fun s' v' hv' hsame ↦ eq_of_release_eq hS hv hv' ?_⟩
    rcases hsame with rfl | ⟨hle, hge⟩
    · rfl
    · exact le_antisymm ((le_iff_of_ofName? hS hv hv').1 hle) ((le_iff_of_ofName? hS hv' hv).1 hge)

theorem ofName?_scheme : Version.scheme.IsLawful Version.mk ∧
    Version.scheme.ofName? (.of "0.8.10") = some ⟨[0, 8, 10]⟩ ∧
    Version.scheme.text ⟨[0, 8, 10]⟩ = .of "0.8.10" ∧
    ∀ s v, Version.scheme.ofName? s = some v →
      Version.scheme.le ⟨[0, 8, 10]⟩ v ∧ Version.scheme.le v ⟨[0, 8, 10]⟩ → .of "0.8.10" = s := by
  have hread : Version.scheme.ofName? (.of "0.8.10") = some ⟨[0, 8, 10]⟩ := by decide +kernel
  obtain ⟨-, hexact⟩ := ofName?_exact Version.isLawful_scheme (.of "0.8.10")
  obtain ⟨-, htext, hunique⟩ := hexact _ hread
  exact ⟨Version.isLawful_scheme, hread, htext, fun s v hv hsame ↦ hunique s v hv (.inr hsame)⟩

end VersionScheme

/-- The last digit is one of another script, which the form of names lets pass. -/
example : isVersionName (.of "0.8.1٠") ∧ Version.ofText? (.of "0.8.1٠") = none := by
  decide +kernel

end SolidityImports
