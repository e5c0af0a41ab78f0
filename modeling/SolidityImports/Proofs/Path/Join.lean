import SolidityImports.Proofs.Text.Pieces
import SolidityImports.Path.Basic

/-! # Joining written paths

Segments that are joined onto a path one after the other lead where their text, with slashes
between them, leads at once. -/

namespace SolidityImports

namespace Segment

theorem listOfText_of_not_mem {s : Text} (h : '/' ∉ s) : listOfText s = (ofText? s).toList := by
  unfold listOfText
  rw [Text.pieces_of_not_mem h]
  cases hs : ofText? s <;> simp [hs]

theorem listOfText_append_slash {p : Text} (h : '/' ∉ p) (s : Text) :
    listOfText (p ++ '/' :: s) = listOfText p ++ listOfText s := by
  rw [listOfText_of_not_mem h]
  unfold listOfText
  rw [Text.pieces_append_cons h, List.filterMap_cons]
  cases ofText? p <;> rfl

/-- The segments of slash-free pieces are read piece by piece. -/
theorem listOfText_joinWith {ps : List Text} (h : ∀ p ∈ ps, '/' ∉ p) :
    listOfText (Text.joinWith ['/'] ps) = ps.flatMap listOfText := by
  induction ps with
  | nil => rfl
  | cons p ps ih =>
    cases ps with
    | nil => simp [Text.joinWith]
    | cons q ps =>
      have hp : '/' ∉ p := h p List.mem_cons_self
      have hrest : ∀ x ∈ q :: ps, '/' ∉ x := fun x hx ↦ h x (List.mem_cons_of_mem p hx)
      rw [Text.joinWith_cons_cons, List.append_assoc, List.singleton_append,
        listOfText_append_slash hp, ih hrest]
      rfl

end Segment

namespace Anchor

/-- A text that starts with anything but a slash is relative. -/
theorem ofText_eq_relative {s : Text} (h : s.head? ≠ some '/') : ofText s = .relative := by
  unfold ofText
  split
  · exact absurd rfl h
  · exact absurd rfl h
  · exact absurd rfl h
  · rfl

end Anchor

namespace Path

theorem join_of_relative (p : Path) {q : Path} (h : q.anchor = .relative) :
    p / q = ⟨p.anchor, p.segments ++ q.segments⟩ := by
  rw [join_def, join, isRooted, h]
  rfl

/-- Relative texts that are joined one by one only bring their segments. -/
theorem foldl_join_of_relative (p : Path) {ps : List Text} (h : ∀ s ∈ ps, s.head? ≠ some '/') :
    ps.foldl (fun q s ↦ q / ofText s) p =
      ⟨p.anchor, p.segments ++ ps.flatMap Segment.listOfText⟩ := by
  induction ps generalizing p with
  | nil => simp
  | cons s ps ih =>
    obtain ⟨hs, hps⟩ := List.forall_mem_cons.1 h
    have hanchor : (ofText s).anchor = .relative := Anchor.ofText_eq_relative hs
    rw [List.foldl_cons, ih _ hps, join_of_relative p hanchor, List.flatMap_cons,
      List.append_assoc]
    rfl

/-- Joining pieces one by one is joining their text. -/
theorem foldl_join_ofText (p : Path) {ps : List Text} (h : ∀ s ∈ ps, s ≠ [] ∧ '/' ∉ s) :
    ps.foldl (fun q s ↦ q / ofText s) p = p / ofText (Text.joinWith ['/'] ps) := by
  have hhead : ∀ s ∈ ps, s.head? ≠ some '/' := by
    intro s hs hslash
    exact (h s hs).2 (List.mem_of_mem_head? hslash)
  have hanchor : (ofText (Text.joinWith ['/'] ps)).anchor = .relative := by
    apply Anchor.ofText_eq_relative
    cases ps with
    | nil => simp [Text.joinWith]
    | cons s ps =>
      obtain ⟨hne, -⟩ := h s List.mem_cons_self
      obtain ⟨c, s, rfl⟩ := List.exists_cons_of_ne_nil hne
      have hc := hhead (c :: s) List.mem_cons_self
      cases ps <;> exact hc
  have hslash : ∀ s ∈ ps, '/' ∉ s := by
    intro s hs
    exact (h s hs).2
  rw [foldl_join_of_relative p hhead, join_of_relative p hanchor,
    ← Segment.listOfText_joinWith hslash]
  rfl

end Path

end SolidityImports
