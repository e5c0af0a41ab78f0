import SolidityImports.Text.Basic

/-! # Pieces of a text

Splitting a text at a separator and joining pieces with one, piece by piece. Main statements: a text
that starts with a piece and a separator is split into that piece and the pieces of the rest, and the
pieces of a text make it up again when they are joined. -/

namespace SolidityImports.Text

theorem pieces_of_not_mem {sep : Char} {p : Text} (h : sep ∉ p) : pieces sep p = [p] := by
  induction p with
  | nil => rfl
  | cons c p ih =>
    obtain ⟨hc, hp⟩ := List.ne_and_not_mem_of_not_mem_cons h
    rw [pieces, if_neg hc.symm, ih hp]

theorem pieces_append_cons {sep : Char} {p : Text} (h : sep ∉ p) (s : Text) :
    pieces sep (p ++ sep :: s) = p :: pieces sep s := by
  induction p with
  | nil => simp [pieces]
  | cons c p ih =>
    obtain ⟨hc, hp⟩ := List.ne_and_not_mem_of_not_mem_cons h
    rw [List.cons_append, pieces, if_neg hc.symm, ih hp]

/-- A piece holds no character that the text does not hold. -/
theorem mem_of_mem_of_mem_pieces {sep c : Char} {s p : Text} (hp : p ∈ pieces sep s)
    (hc : c ∈ p) : c ∈ s := by
  induction s generalizing p with
  | nil =>
    obtain rfl := List.mem_singleton.1 hp
    exact hc
  | cons d s ih =>
    rw [pieces] at hp
    split at hp
    · rcases List.mem_cons.1 hp with rfl | hp
      · exact absurd hc List.not_mem_nil
      · exact List.mem_cons_of_mem _ (ih hp hc)
    · split at hp
      · rename_i hs
        exact absurd hs (pieces_ne_nil sep s)
      · rename_i q qs hs
        rcases List.mem_cons.1 hp with rfl | hp
        · rcases List.mem_cons.1 hc with rfl | hc
          · exact List.mem_cons_self
          · exact List.mem_cons_of_mem _ (ih (hs ▸ List.mem_cons_self) hc)
        · exact List.mem_cons_of_mem _ (ih (hs ▸ List.mem_cons_of_mem _ hp) hc)

/-- What stands in a text without a separator in it stands in one of the pieces. -/
theorem exists_mem_pieces_infix {sep : Char} {w s : Text} (h : w <:+: s) (hw : sep ∉ w) :
    ∃ p ∈ pieces sep s, w <:+: p := by
  obtain ⟨front, back, rfl⟩ := h
  induction front with
  | nil =>
    rw [List.nil_append]
    by_cases hback : sep ∈ back
    · obtain ⟨rest, more, rfl, hrest⟩ := List.eq_append_cons_of_mem hback
      rw [← List.append_assoc, pieces_append_cons (by simp [hw, hrest])]
      exact ⟨_, List.mem_cons_self, (List.prefix_append w rest).isInfix⟩
    · rw [pieces_of_not_mem (by simp [hw, hback])]
      exact ⟨_, List.mem_cons_self, (List.prefix_append w back).isInfix⟩
  | cons c front ih =>
    obtain ⟨p, hp, hinfix⟩ := ih
    rw [List.cons_append, List.cons_append, pieces]
    split
    · exact ⟨p, List.mem_cons_of_mem _ hp, hinfix⟩
    · split
      · rename_i hnil
        exact absurd hnil (pieces_ne_nil sep _)
      · rename_i q qs hq
        rw [hq] at hp
        rcases List.mem_cons.1 hp with rfl | hp
        · exact ⟨_, List.mem_cons_self, List.infix_cons hinfix⟩
        · exact ⟨p, List.mem_cons_of_mem _ hp, hinfix⟩

theorem joinWith_cons_cons (sep p q : Text) (ps : List Text) :
    joinWith sep (p :: q :: ps) = p ++ sep ++ joinWith sep (q :: ps) := rfl

/-- Pieces that are joined by a separator, and do not hold it, are split again. -/
theorem pieces_joinWith {sep : Char} {ps : List Text} (h : ∀ p ∈ ps, sep ∉ p) (hne : ps ≠ []) :
    pieces sep (joinWith [sep] ps) = ps := by
  induction ps with
  | nil => contradiction
  | cons p ps ih =>
    have hp : sep ∉ p := h p List.mem_cons_self
    cases ps with
    | nil => exact pieces_of_not_mem hp
    | cons q ps =>
      have hrest : ∀ x ∈ q :: ps, sep ∉ x := fun x hx ↦ h x (List.mem_cons_of_mem p hx)
      rw [joinWith_cons_cons, List.append_assoc, List.singleton_append, pieces_append_cons hp,
        ih hrest (List.cons_ne_nil q ps)]

/-- The pieces of a text are joined to the text again. -/
theorem joinWith_pieces (sep : Char) (s : Text) : joinWith [sep] (pieces sep s) = s := by
  induction s with
  | nil => rfl
  | cons c s ih =>
    obtain ⟨p, ps, hs⟩ := List.exists_cons_of_ne_nil (pieces_ne_nil sep s)
    rw [hs] at ih
    rw [pieces, hs]
    split
    · rename_i hc
      rw [joinWith_cons_cons, ih, hc]
      rfl
    · cases ps with
      | nil => exact congrArg (c :: ·) ih
      | cons q ps => exact congrArg (c :: ·) ih

/-- Joined pieces hold the characters of the pieces and none but the separator's beside them. -/
theorem mem_joinWith_iff {sep : Text} {ps : List Text} {c : Char} (hc : c ∉ sep) :
    c ∈ joinWith sep ps ↔ ∃ p ∈ ps, c ∈ p := by
  induction ps with
  | nil => simp [joinWith]
  | cons p ps ih =>
    cases ps with
    | nil => simp [joinWith]
    | cons q ps =>
      rw [joinWith_cons_cons, List.mem_append, List.mem_append, ih]
      simp [hc]

end SolidityImports.Text
