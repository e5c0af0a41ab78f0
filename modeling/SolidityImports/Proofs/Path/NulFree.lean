import SolidityImports.Path.Clean
import SolidityImports.Proofs.Text.Pieces

/-! # Paths without NUL

No path that is handed to the system may hold a NUL character. What is built from paths that hold
none holds none either: joined and cleaned paths, parents and children. -/

namespace SolidityImports

namespace Segment

theorem text_of_ofText? {s : Text} {segment : Segment} (h : ofText? s = some segment) :
    segment.text = s := by
  unfold ofText? at h
  split at h
  · rename_i hs
    obtain rfl := Option.some.inj h
    exact hs.symm
  · obtain ⟨n, hn, rfl⟩ := Option.map_eq_some_iff.1 h
    unfold FileName.ofText? at hn
    split at hn
    · obtain rfl := Option.some.inj hn
      rfl
    · contradiction

/-- The segments of a text hold no character that the text does not hold. -/
theorem mem_of_mem_listOfText {s : Text} {segment : Segment} {c : Char}
    (hs : segment ∈ listOfText s) (hc : c ∈ segment.text) : c ∈ s := by
  obtain ⟨piece, hpiece, hread⟩ := List.mem_filterMap.1 hs
  rw [text_of_ofText? hread] at hc
  exact Text.mem_of_mem_of_mem_pieces hpiece hc

end Segment

namespace Path

/-- Whether no segment of a path holds a NUL character. -/
def NulFree (p : Path) : Prop := ∀ s ∈ p.segments, '\x00' ∉ s.text

instance (p : Path) : Decidable p.NulFree :=
  inferInstanceAs (Decidable (∀ s ∈ p.segments, '\x00' ∉ s.text))

/-- Anchors and slashes hold no NUL, so that the written path tells. -/
theorem nulFree_iff {p : Path} : p.NulFree ↔ '\x00' ∉ p.text := by
  have hjoined : '\x00' ∈ Text.joinWith ['/'] (p.segments.map Segment.text) ↔
      ∃ s ∈ p.segments, '\x00' ∈ s.text := by
    rw [Text.mem_joinWith_iff (by decide)]
    constructor
    · rintro ⟨piece, hpiece, hc⟩
      obtain ⟨s, hs, rfl⟩ := List.mem_map.1 hpiece
      exact ⟨s, hs, hc⟩
    · rintro ⟨s, hs, hc⟩
      exact ⟨s.text, List.mem_map_of_mem hs, hc⟩
  unfold NulFree text
  split
  · rename_i hp
    subst hp
    decide
  · have hanchor : '\x00' ∉ p.anchor.text := by cases p.anchor <;> decide
    rw [List.mem_append, hjoined]
    simp [hanchor]

theorem nul_mem_text_iff {p : Path} : '\x00' ∈ p.text ↔ ¬ p.NulFree := by
  rw [nulFree_iff, Decidable.not_not]

/-- Of the names in a path that hold a NUL character one is the first. -/
theorem not_nulFree_iff {p : Path} : ¬ p.NulFree ↔
    ∃ before n after, p.segments = before ++ .name n :: after ∧ (∀ s ∈ before, '\x00' ∉ s.text) ∧
      '\x00' ∈ n.text := by
  constructor
  · intro hp
    have hfound : ∃ s, p.segments.find? (fun s ↦ '\x00' ∈ s.text) = some s := by
      rw [← Option.isSome_iff_exists, List.find?_isSome]
      simpa [NulFree] using hp
    obtain ⟨s, hfound⟩ := hfound
    obtain ⟨hs, before, after, hsplit, hbefore⟩ := List.find?_eq_some_iff_append.1 hfound
    cases s with
    | up => exact absurd hs (by decide)
    | name n =>
      refine ⟨before, n, after, hsplit, fun s hs ↦ ?_, of_decide_eq_true hs⟩
      simpa using hbefore s hs
  · rintro ⟨before, n, after, hsplit, -, hn⟩ hp
    exact hp (.name n) (by simp [hsplit]) hn

theorem NulFree.ofText {s : Text} (h : '\x00' ∉ s) : (ofText s).NulFree := by
  intro segment hs hc
  exact h (Segment.mem_of_mem_listOfText hs hc)

theorem NulFree.join {p q : Path} (hp : p.NulFree) (hq : q.NulFree) : (p / q).NulFree := by
  rw [join_def, Path.join]
  split
  · exact hq
  · intro s hs
    rcases List.mem_append.1 hs with hs | hs
    · exact hp s hs
    · exact hq s hs

theorem NulFree.parent {p : Path} (hp : p.NulFree) : p.parent.NulFree := by
  intro s hs
  exact hp s (List.dropLast_subset _ hs)

theorem NulFree.child {p : Path} (hp : p.NulFree) {n : FileName} (hn : '\x00' ∉ n.text) :
    (p.child n).NulFree := by
  intro s hs
  rcases List.mem_append.1 hs with hs | hs
  · exact hp s hs
  · obtain rfl := List.mem_singleton.1 hs
    exact hn

/-- Putting a segment behind cleaned ones brings in no other segment. -/
theorem mem_of_mem_pushClean {done : List Segment} {s x : Segment} (h : x ∈ pushClean done s) :
    x = s ∨ x ∈ done := by
  unfold pushClean at h
  split at h
  · exact .inr (List.mem_cons_of_mem _ h)
  · exact List.mem_cons.1 h

theorem mem_of_mem_foldl_pushClean {segments done : List Segment} {x : Segment}
    (h : x ∈ segments.foldl pushClean done) : x ∈ done ∨ x ∈ segments := by
  induction segments generalizing done with
  | nil => exact .inl h
  | cons s segments ih =>
    rcases ih h with h | h
    · rcases mem_of_mem_pushClean h with rfl | h
      · exact .inr List.mem_cons_self
      · exact .inl h
    · exact .inr (List.mem_cons_of_mem _ h)

/-- Cleaning only removes segments. -/
theorem mem_of_mem_cleanSegments {segments : List Segment} {x : Segment}
    (h : x ∈ cleanSegments segments) : x ∈ segments := by
  rcases mem_of_mem_foldl_pushClean (List.mem_reverse.1 h) with h | h
  · exact absurd h List.not_mem_nil
  · exact h

theorem NulFree.clean {p : Path} (hp : p.NulFree) : p.clean.NulFree := by
  intro s hs
  exact hp s (mem_of_mem_cleanSegments hs)

end Path

end SolidityImports
