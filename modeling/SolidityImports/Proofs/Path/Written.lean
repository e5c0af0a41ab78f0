import Mathlib.Data.List.Basic
import SolidityImports.Proofs.Path.Join

/-! # Written paths

A path is read back from its text: its anchor from the slashes in front, its segments from what
stands between the slashes. Main statement: reading undoes writing. -/

namespace SolidityImports

theorem FileName.text_injective : Function.Injective FileName.text := by
  rintro ⟨s, hs⟩ ⟨s', hs'⟩ rfl
  rfl

namespace Segment

theorem text_ne_nil (s : Segment) : s.text ≠ [] := by
  cases s with
  | up => exact List.cons_ne_nil _ _
  | name n => exact n.valid.1

theorem text_ne_dot (s : Segment) : s.text ≠ ['.'] := by
  cases s with
  | up => decide
  | name n => exact n.valid.2.1

theorem text_injective : Function.Injective text := by
  intro s s' h
  have hread := congrArg ofText? h
  rw [ofText?_text, ofText?_text] at hread
  exact Option.some.inj hread

theorem map_text_inj {segments segments' : List Segment} :
    segments.map text = segments'.map text ↔ segments = segments' :=
  List.map_inj_right fun _ _ h ↦ text_injective h

/-- A segment that is joined with others starts their text, and no segment starts with a slash. -/
theorem head?_joinWith_ne_slash (segments : List Segment) :
    (Text.joinWith ['/'] (segments.map text)).head? ≠ some '/' := by
  cases segments with
  | nil => simp [Text.joinWith]
  | cons s segments =>
    obtain ⟨c, rest, hs⟩ := List.exists_cons_of_ne_nil s.text_ne_nil
    have hslash : c ≠ '/' := by
      rintro rfl
      exact s.slash_not_mem_text (hs ▸ List.mem_cons_self)
    have hhead : (Text.joinWith ['/'] ((s :: segments).map text)).head? = some c := by
      cases segments <;> simp [Text.joinWith, hs]
    rw [hhead]
    exact fun h ↦ hslash (Option.some.inj h)

theorem joinWith_ne_nil {segments : List Segment} (h : segments ≠ []) :
    Text.joinWith ['/'] (segments.map text) ≠ [] := by
  obtain ⟨s, segments, rfl⟩ := List.exists_cons_of_ne_nil h
  cases segments <;> simp [Text.joinWith, s.text_ne_nil]

theorem getLast?_joinWith_ne_slash (segments : List Segment) :
    (Text.joinWith ['/'] (segments.map text)).getLast? ≠ some '/' := by
  induction segments with
  | nil => simp [Text.joinWith]
  | cons s segments ih =>
    cases segments with
    | nil =>
      intro hlast
      exact s.slash_not_mem_text (List.mem_of_mem_getLast? hlast)
    | cons s' segments =>
      have hne := joinWith_ne_nil (List.cons_ne_nil s' segments)
      rw [List.map_cons, List.map_cons, Text.joinWith_cons_cons, ← List.map_cons,
        List.getLast?_append_of_ne_nil _ hne]
      exact ih

theorem listOfText_joinWith_text (segments : List Segment) :
    listOfText (Text.joinWith ['/'] (segments.map text)) = segments := by
  have hslash : ∀ p ∈ segments.map text, '/' ∉ p := by
    intro p hp
    obtain ⟨s, -, rfl⟩ := List.mem_map.1 hp
    exact s.slash_not_mem_text
  have hread : ∀ s : Segment, listOfText s.text = [s] := by
    intro s
    rw [listOfText_of_not_mem s.slash_not_mem_text, ofText?_text]
    rfl
  rw [listOfText_joinWith hslash]
  simp [List.flatMap_map, hread]

end Segment

namespace Anchor

/-- An anchor is read from its slashes if no other slash follows them. -/
theorem ofText_text_append (a : Anchor) {s : Text} (h : s.head? ≠ some '/') :
    ofText (a.text ++ s) = a := by
  cases a with
  | relative => exact ofText_eq_relative h
  | root =>
    cases s with
    | nil => rfl
    | cons c s =>
      have hc : c ≠ '/' := fun hc ↦ h (congrArg some hc)
      simp [text, ofText, hc]
  | doubleRoot =>
    cases s with
    | nil => rfl
    | cons c s =>
      have hc : c ≠ '/' := fun hc ↦ h (congrArg some hc)
      simp [text, ofText, hc]

/-- The slashes of an anchor are no segments. -/
theorem listOfText_text_append (a : Anchor) (s : Text) :
    Segment.listOfText (a.text ++ s) = Segment.listOfText s := by
  have hslash : ∀ s : Text, Segment.listOfText ('/' :: s) = Segment.listOfText s := fun s ↦
    Segment.listOfText_append_slash (p := []) List.not_mem_nil s
  cases a with
  | relative => rfl
  | root => exact hslash s
  | doubleRoot => exact (hslash _).trans (hslash s)

/-- Whether a text starts at a root is told by its first character. -/
theorem ofText_eq_relative_iff {s : Text} : ofText s = .relative ↔ s.head? ≠ some '/' := by
  constructor
  · intro h hhead
    obtain ⟨s, rfl⟩ := List.head?_eq_some_iff.1 hhead
    unfold ofText at h
    split at h <;> simp_all
  · exact ofText_eq_relative

end Anchor

namespace Path

/-- Only a path without segments has no last name. -/
theorem lastText_eq_nil_iff {p : Path} : p.lastText = [] ↔ p.segments = [] := by
  unfold lastText
  cases hlast : p.segments.getLast? with
  | none => simpa using List.getLast?_eq_none_iff.1 hlast
  | some s =>
    refine iff_of_false s.text_ne_nil ?_
    intro hnil
    rw [hnil] at hlast
    cases hlast

theorem isRooted_ofText {s : Text} : (ofText s).isRooted = decide (s.head? = some '/') := by
  unfold isRooted
  rw [decide_eq_decide, ne_eq]
  exact (not_congr Anchor.ofText_eq_relative_iff).trans Decidable.not_not

/-- A path is read back from its text. -/
theorem ofText_text (p : Path) : ofText p.text = p := by
  unfold text
  split
  · rename_i hp
    subst hp
    rfl
  · show (⟨_, _⟩ : Path) = p
    rw [Anchor.ofText_text_append _ (Segment.head?_joinWith_ne_slash p.segments),
      Anchor.listOfText_text_append, Segment.listOfText_joinWith_text]

end Path

end SolidityImports
