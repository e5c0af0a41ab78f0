import SolidityImports.Proofs.Path.Ancestor
import SolidityImports.Proofs.Path.Written

/-! # Names of sources

A source is named by its path from the root of its project on. Main statement: the name of a source
below the root is the one relative path that leads from the root to the source, and any other source
keeps its whole path; whether it is below is told by whole parts, so that what lies in a directory
whose name only starts alike is not; and what is joined onto the root is named by what was joined. -/

namespace SolidityImports.Path

variable {p q r base : Path}

/-- The parts of a path: its anchor as it is written, if there is one, and the texts of its
segments. -/
def parts (p : Path) : List Text :=
  if p.isRooted then p.anchor.text :: p.segments.map Segment.text
  else p.segments.map Segment.text

/-- A path is within a directory exactly if it has the same anchor and starts with its parts. -/
theorem isWithin_iff_parts :
    p.isWithin base ↔ base.anchor = p.anchor ∧ base.parts <+: p.parts := by
  rw [isWithin_iff, eq_comm]
  refine and_congr_right fun hanchor ↦ ?_
  have hrooted : base.isRooted = p.isRooted := by
    rw [isRooted, isRooted, hanchor]
  have hmap : base.segments.map Segment.text <+: p.segments.map Segment.text ↔
      base.segments <+: p.segments := List.prefix_map_iff_of_injective Segment.text_injective
  unfold parts
  rw [hrooted]
  split
  · rw [hanchor, List.prefix_cons_inj, hmap]
  · rw [hmap]

/-! ## From a directory on -/

/-- What leads on from a directory to a path is the relative path that joins up to it. -/
theorem relativeTo?_eq_some_iff :
    p.relativeTo? base = some r ↔ r.anchor = .relative ∧ base / r = p := by
  simp only [relativeTo?, List.isPrefixOf_iff_prefix]
  constructor
  · intro h
    obtain ⟨⟨hanchor, hprefix⟩, hr⟩ := Option.ite_none_right_eq_some.1 h
    obtain rfl := Option.some.inj hr
    refine ⟨rfl, ?_⟩
    rw [join_of_relative base rfl]
    exact Path.ext hanchor.symm (List.prefix_iff_eq_append.1 hprefix)
  · rintro ⟨hr, rfl⟩
    rw [join_of_relative base hr, if_pos ⟨rfl, List.prefix_append _ _⟩, List.drop_left]
    exact congrArg some (Path.ext hr.symm rfl)

theorem relativeTo?_join (p : Path) (hq : q.anchor = .relative) : (p / q).relativeTo? p = some q :=
  relativeTo?_eq_some_iff.2 ⟨hq, rfl⟩

theorem sourceName_of_isWithin (h : p.isWithin base) :
    (p.sourceName base).anchor = .relative ∧
      ∀ r : Path, r.anchor = .relative → (base / r = p ↔ r = p.sourceName base) := by
  obtain ⟨name, hname⟩ := Option.isSome_iff_exists.1 h
  have hsource : p.sourceName base = name := by
    rw [sourceName, hname]
    rfl
  rw [hsource]
  refine ⟨(relativeTo?_eq_some_iff.1 hname).1, fun r hr ↦ ?_⟩
  constructor
  · intro hjoin
    have hread := relativeTo?_eq_some_iff.2 ⟨hr, hjoin⟩
    exact Option.some.inj (hread.symm.trans hname)
  · rintro rfl
    exact (relativeTo?_eq_some_iff.1 hname).2

theorem sourceName_of_not_isWithin (h : ¬ p.isWithin base) : p.sourceName base = p := by
  rw [sourceName, Option.not_isSome_iff_eq_none.1 h]
  rfl

theorem sourceName_join (p : Path) (hq : q.anchor = .relative) : (p / q).sourceName p = q := by
  rw [sourceName, relativeTo?_join p hq]
  rfl

/-- Nothing below an entry is within another entry of the same directory. -/
theorem not_isWithin_sibling (p : Path) {m n : FileName} (hne : m ≠ n) (hq : q.anchor = .relative) :
    ¬ (p.child n / q).isWithin (p.child m) := by
  rw [isWithin_iff, join_of_relative _ hq]
  rintro ⟨-, hprefix⟩
  rw [segments_child, segments_child, List.append_assoc, List.prefix_append_right_inj,
    List.singleton_append, List.cons_prefix_cons] at hprefix
  exact hne (Segment.name.inj hprefix.1)

/-- The name of a source is the one relative path that leads to it from the root, if the parts of
the source start with those of the root; otherwise it is the path of the source, also where only a
part of a name agrees. What is joined onto the root is named by what was joined. -/
theorem sourceName_exact (source root : Text) :
    ((ofText root).anchor = (ofText source).anchor ∧ (ofText root).parts <+: (ofText source).parts →
      ((ofText source).sourceName (ofText root)).anchor = .relative ∧
      ofText root / (ofText source).sourceName (ofText root) = ofText source ∧
      ∀ name : Path, name.anchor = .relative → ofText root / name = ofText source →
        name = (ofText source).sourceName (ofText root)) ∧
    (¬ ((ofText root).anchor = (ofText source).anchor ∧
        (ofText root).parts <+: (ofText source).parts) →
      (ofText source).sourceName (ofText root) = ofText source) ∧
    (∀ (m n : FileName) (p : Text), m ≠ n → p.head? ≠ some '/' →
      ((ofText root).child n / ofText p).sourceName ((ofText root).child m) =
        (ofText root).child n / ofText p) ∧
    ∀ p : Text, p.head? ≠ some '/' →
      (ofText root / ofText p).sourceName (ofText root) = ofText p := by
  rw [← isWithin_iff_parts]
  refine ⟨fun hwithin ↦ ?_, sourceName_of_not_isWithin, fun m n p hne hp ↦ ?_, fun p hp ↦ ?_⟩
  · obtain ⟨hanchor, hjoin⟩ := sourceName_of_isWithin hwithin
    exact ⟨hanchor, (hjoin _ hanchor).2 rfl, fun name hname ↦ (hjoin name hname).1⟩
  · exact sourceName_of_not_isWithin
      (not_isWithin_sibling (ofText root) hne (Anchor.ofText_eq_relative hp))
  · exact sourceName_join (ofText root) (Anchor.ofText_eq_relative hp)

/-- A source in a project, two sources in directories whose names only start alike, and a name that
keeps its step back. -/
theorem sourceName_project :
    (ofText (.of "/project//src/./Token.sol")).sourceName (ofText (.of "/project/")) =
      ofText (.of "src/Token.sol") ∧
    (ofText (.of "/project2/Token.sol")).sourceName (ofText (.of "/project")) =
      ofText (.of "/project2/Token.sol") ∧
    (ofText (.of "//lib/erc20/A.sol")).sourceName (ofText (.of "//lib/erc")) =
      ofText (.of "//lib/erc20/A.sol") ∧
    (ofText (.of "lib/../A.sol")).sourceName (ofText (.of "lib")) = ofText (.of "../A.sol") := by
  have hlib : ofText (.of "lib") / ofText (.of "../A.sol") = ofText (.of "lib/../A.sol") := by
    decide
  refine ⟨?_, ?_, ?_, ?_⟩
  · exact (((sourceName_exact (.of "/project//src/./Token.sol") (.of "/project/")).1
      (by decide)).2.2 (ofText (.of "src/Token.sol")) rfl (by decide)).symm
  · exact (sourceName_exact (.of "/project2/Token.sol") (.of "/project")).2.1 (by decide)
  · exact (sourceName_exact [] (.of "//lib")).2.2.1 ⟨.of "erc", by decide⟩ ⟨.of "erc20", by decide⟩
      (.of "A.sol") (by decide) (by decide)
  · rw [← hlib]
    exact (sourceName_exact [] (.of "lib")).2.2.2 (.of "../A.sol") (by decide)

end SolidityImports.Path
