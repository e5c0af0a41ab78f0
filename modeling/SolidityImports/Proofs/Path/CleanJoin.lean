import SolidityImports.Import.Ancestor
import SolidityImports.Proofs.Path.Clean

/-! # Cleaning and joining

A deletion in a part of the written segments is a deletion in the whole, so that parts may be cleaned
before they are put together. Main statement: two paths that are cleaned, joined and cleaned again lead
to the clean form of the joined paths, and an import is looked up at the same place from a directory
and from its clean form. -/

namespace SolidityImports

namespace Path

/-! ## Deletions in a part of the segments -/

variable {ws ws' vs vs' : List Text}

theorem Deletion.append_left (front : List Text) (h : Deletion ws ws') :
    Deletion (front ++ ws) (front ++ ws') := by
  cases h with
  | dot before after =>
    rw [← List.append_assoc, ← List.append_assoc]
    exact .dot (front ++ before) after
  | name before n after =>
    rw [← List.append_assoc, ← List.append_assoc]
    exact .name (front ++ before) n after

theorem Deletion.append_right (h : Deletion ws ws') (back : List Text) :
    Deletion (ws ++ back) (ws' ++ back) := by
  cases h with
  | dot before after =>
    rw [List.append_assoc, List.append_assoc]
    exact .dot before (after ++ back)
  | name before n after =>
    rw [List.append_assoc, List.append_assoc]
    exact .name before n (after ++ back)

/-- Deletions in two parts, those in the first part before those in the second. -/
theorem deletes_append (h : Relation.ReflTransGen Deletion ws ws')
    (h' : Relation.ReflTransGen Deletion vs vs') :
    Relation.ReflTransGen Deletion (ws ++ vs) (ws' ++ vs') := by
  have hfirst : Relation.ReflTransGen Deletion (ws ++ vs) (ws' ++ vs) :=
    h.lift (· ++ vs) fun _ _ hstep ↦ hstep.append_right vs
  have hsecond : Relation.ReflTransGen Deletion (ws' ++ vs) (ws' ++ vs') :=
    h'.lift (ws' ++ ·) fun _ _ hstep ↦ hstep.append_left ws'
  exact hfirst.trans hsecond

/-! ## Joined paths -/

/-- Two runs of segments may be cleaned before they are put together: that only does some of the
deletions first. -/
theorem cleanSegments_append (segments rest : List Segment) :
    cleanSegments (cleanSegments segments ++ cleanSegments rest) =
      cleanSegments (segments ++ rest) := by
  have hsegments := deletes_cleanWritten (Segment.slashFree_of_mem_map_text segments)
  have hrest := deletes_cleanWritten (Segment.slashFree_of_mem_map_text rest)
  have heq := cleanWritten_eq_of_deletes (deletes_append hsegments hrest)
  simp only [cleanWritten_map_text, ← List.map_append] at heq
  exact (Segment.map_text_inj.1 heq).symm

/-- Cleaning commutes with joining. -/
theorem clean_join_clean (p q : Path) : (p.clean / q.clean).clean = (p / q).clean := by
  simp only [join_def, join, isRooted_clean]
  split
  · exact clean_clean q
  · rename_i hq
    rw [Path.ext_iff]
    refine ⟨?_, cleanSegments_append p.segments q.segments⟩
    show (if p.clean.isRooted then Anchor.root else Anchor.relative) = _
    rw [isRooted_clean]
    rfl

end Path

namespace FileTree

variable {t : FileTree} {d d' : Path} {b b' : Text}

/-- Two imports, each from its own directory, that end alike: both are found at the same path, or both
fail for the same reason, each with its own path as it is written. -/
structure NormalizesAlike (t : FileTree) (d : Path) (b : Text) (d' : Path) (b' : Text) : Prop where
  found : ∀ q, t.normalize d b = .ok q ↔ t.normalize d' b' = .ok q
  failed : ∀ r, t.normalize d b = .error (.file r (d / Path.ofText b)) ↔
    t.normalize d' b' = .error (.file r (d' / Path.ofText b'))

/-- Only the clean form of the joined path is looked at. -/
theorem normalizesAlike_of_clean_eq
    (h : (d / Path.ofText b).clean = (d' / Path.ofText b').clean) :
    t.NormalizesAlike d b d' b' := by
  cases hstat : t.stat (d' / Path.ofText b').clean.text with
  | ok found =>
    have hrun : t.normalize d b = .ok (d' / Path.ofText b').clean := by
      simp only [normalize, h, hstat]
    have hrun' : t.normalize d' b' = .ok (d' / Path.ofText b').clean := by
      simp only [normalize, hstat]
    constructor <;> simp [hrun, hrun']
  | error f =>
    have hrun : t.normalize d b = .error (.file f.reason (d / Path.ofText b)) := by
      simp only [normalize, h, hstat]
    have hrun' : t.normalize d' b' = .error (.file f.reason (d' / Path.ofText b')) := by
      simp only [normalize, hstat]
    constructor <;> simp [hrun, hrun']

end FileTree

/-- Cleaning commutes with joining. So an import ends alike when it is looked up from a directory and
from its clean form, and also when the import itself is cleaned before. -/
theorem Path.clean_join_ofText (a b : Text) :
    (ofText a / ofText b).clean = ((ofText a).clean / (ofText b).clean).clean ∧
      ∀ t : FileTree, t.NormalizesAlike (ofText a) b (ofText a).clean b ∧
        t.NormalizesAlike (ofText a) b (ofText a).clean (ofText b).clean.text := by
  have hboth := (clean_join_clean (ofText a) (ofText b)).symm
  refine ⟨hboth, fun t ↦ ⟨FileTree.normalizesAlike_of_clean_eq ?_,
    FileTree.normalizesAlike_of_clean_eq ?_⟩⟩
  · rw [hboth, ← clean_join_clean (ofText a).clean (ofText b), clean_clean]
  · rw [hboth, ofText_text]

end SolidityImports
