import SolidityImports.Proofs.Import.FirstExisting
import SolidityImports.Proofs.Path.Ancestor

/-! # What a tier finds

Two of the tiers try several places, one after the other: the library tier those below its roots, and
the tier from above those in the directories above the source. Main statements: library roots are
searched in their order, so that to search some and then others is to search both lists, and what is
found is the first place that exists; and from above, the nearest directory wins in which the import
exists. -/

namespace SolidityImports

/-! ## Below library roots -/

/-- The places of an import below a library root: as it is written, and with `src` behind its first
segment. There are none if the import does not start with a name. -/
def libraryPlaces (importPath : Text) (root : Path) : List Path :=
  match importSegments importPath with
  | [] => []
  | first :: rest =>
    if isDots first then []
    else [root / .ofText importPath,
      root / .ofText (Text.joinWith ['/'] (first :: .of "src" :: rest))]

theorem libraryCandidates_eq_flatMap (roots : List Path) (importPath : Text) :
    libraryCandidates roots importPath =
      if isRootedImport importPath then [] else roots.flatMap (libraryPlaces importPath) := by
  unfold libraryCandidates libraryPlaces isRelativeImport
  cases isRootedImport importPath with
  | true => rfl
  | false =>
    cases hsegments : importSegments importPath with
    | nil => simp
    | cons first rest =>
      cases hdots : isDots first with
      | true => simp [hdots]
      | false =>
        simp only [foldl_join_sourceDirectory hsegments]
        simp [hdots]

theorem libraryCandidates_append (xs ys : List Path) (importPath : Text) :
    libraryCandidates (xs ++ ys) importPath =
      libraryCandidates xs importPath ++ libraryCandidates ys importPath := by
  simp only [libraryCandidates_eq_flatMap]
  cases isRootedImport importPath <;> simp

namespace FileTree

variable {t : FileTree}

theorem resolveLibrary_append (xs ys : List Path) (importPath : Text) :
    t.resolveLibrary (xs ++ ys) importPath =
      (t.resolveLibrary xs importPath).or (t.resolveLibrary ys importPath) := by
  unfold resolveLibrary
  rw [libraryCandidates_append, List.find?_append]
  cases isRootedImport importPath <;> rfl

/-- An import is local for two lists of roots together if it is local for each of them. -/
theorem isLocalImport_append (xs ys : List Path) (importPath : Text) :
    t.isLocalImport (xs ++ ys) importPath =
      (t.isLocalImport xs importPath && t.isLocalImport ys importPath) := by
  unfold isLocalImport
  rw [resolveLibrary_append]
  cases t.resolveLibrary xs importPath <;> rfl

/-- Of an import that does not start at a root, the first existing place is found. -/
theorem resolveLibrary_eq_some_iff {importPath : Text} (h : isRootedImport importPath = false)
    {roots : List Path} {place : Path} :
    t.resolveLibrary roots importPath = some place ↔
      t.leadsSomewhere place.text ∧ ∃ before after,
        libraryCandidates roots importPath = before ++ place :: after ∧
          ∀ p ∈ before, t.leadsSomewhere p.text = false := by
  unfold resolveLibrary
  rw [h, if_neg Bool.false_ne_true, List.find?_eq_some_iff_append]
  simp

/-- To search some library roots and then others is to search both lists, and an import is local for
both lists exactly if it is for each. An import that starts at a root is taken as it is. Any other has
two places below each root, as it is written before the one with `src` behind its first segment, unless
it starts with no name; it is found at the first of these places that exists, and local if none does. -/
theorem libraries_searched_in_order (t : FileTree) (xs ys : List Path) (importPath : Text) :
    libraryCandidates (xs ++ ys) importPath =
        libraryCandidates xs importPath ++ libraryCandidates ys importPath ∧
      t.resolveLibrary (xs ++ ys) importPath =
        (t.resolveLibrary xs importPath).or (t.resolveLibrary ys importPath) ∧
      t.isLocalImport (xs ++ ys) importPath =
        (t.isLocalImport xs importPath && t.isLocalImport ys importPath) ∧
      (isRootedImport importPath = true ∧
          (∀ roots, t.resolveLibrary roots importPath = some (.ofText importPath)) ∨
        isRootedImport importPath = false ∧ ∀ roots,
          libraryCandidates roots importPath = roots.flatMap (libraryPlaces importPath) ∧
          (∀ place, t.resolveLibrary roots importPath = some place ↔
            t.leadsSomewhere place.text ∧ ∃ before after,
              libraryCandidates roots importPath = before ++ place :: after ∧
                ∀ p ∈ before, t.leadsSomewhere p.text = false) ∧
          (t.isLocalImport roots importPath ↔
            ∀ p ∈ libraryCandidates roots importPath, t.leadsSomewhere p.text = false)) := by
  refine ⟨libraryCandidates_append xs ys importPath, resolveLibrary_append xs ys importPath,
    isLocalImport_append xs ys importPath, ?_⟩
  cases hrooted : isRootedImport importPath with
  | true =>
    refine .inl ⟨rfl, fun roots ↦ ?_⟩
    rw [resolveLibrary, hrooted, if_pos rfl]
  | false =>
    refine .inr ⟨rfl, fun roots ↦ ⟨?_, fun place ↦ resolveLibrary_eq_some_iff hrooted, ?_⟩⟩
    · rw [libraryCandidates_eq_flatMap, hrooted, if_neg Bool.false_ne_true]
    · rw [isLocalImport, resolveLibrary, hrooted, if_neg Bool.false_ne_true, Option.isNone_iff_eq_none,
        List.find?_eq_none]
      simp

/-! ## From the directories above -/

/-- An import is found from the nearest directory above in which it exists. -/
theorem resolveAbove_eq_some_iff {root cwd : Path} {importPath : Text} {directory place : Path} :
    t.resolveAbove root cwd importPath = some (directory, place) ↔
      place = (directory / .ofText importPath).clean ∧ t.leadsSomewhere place.text ∧
        ∃ nearer further, cwd.ancestorsBelow root = nearer ++ directory :: further ∧
          ∀ d ∈ nearer, t.leadsSomewhere (d / .ofText importPath).clean.text = false := by
  rw [resolveAbove, resolveAmong_eq, Option.map_eq_some_iff]
  simp only [List.find?_eq_some_iff_append, Prod.mk.injEq]
  constructor
  · rintro ⟨_, ⟨hleads, nearer, further, hsplit, hnearer⟩, rfl, rfl⟩
    exact ⟨rfl, hleads, nearer, further, hsplit, by simpa using hnearer⟩
  · rintro ⟨rfl, hleads, nearer, further, hsplit, hnearer⟩
    exact ⟨directory, ⟨hleads, nearer, further, hsplit, by simpa using hnearer⟩, rfl, rfl⟩

theorem resolveAbove_eq_none_iff {root cwd : Path} {importPath : Text} :
    t.resolveAbove root cwd importPath = none ↔
      ∀ d ∈ cwd.ancestorsBelow root,
        t.leadsSomewhere (d / .ofText importPath).clean.text = false := by
  rw [resolveAbove, resolveAmong_eq, Option.map_eq_none_iff, List.find?_eq_none]
  simp

/-- The walk up from a directory comes to an end. It goes through the paths that the directory lies
below, each of them once and the nearest first, up to and without `root`, or through all of them if
`root` is none of them. An import is found from the first of these in which it exists, cleaned, and
not found exactly if it exists in none. -/
theorem resolveAbove_from_nearest (t : FileTree) (root cwd : Path) (importPath : Text) :
    (∀ ds, Path.ClimbsBelow root cwd ds ↔ ds = cwd.ancestorsBelow root) ∧
      (cwd.ancestorsBelow root).Nodup ∧
      (∀ d, d ∈ cwd.ancestors ↔ cwd.IsBelow d) ∧
      (cwd.ancestors.Pairwise fun d e ↦ d.IsBelow e) ∧
      (cwd.ancestorsBelow root = cwd.ancestors ∧ root ∉ cwd.ancestors ∨
        ∃ above, cwd.ancestors = cwd.ancestorsBelow root ++ root :: above) ∧
      (∀ directory place, t.resolveAbove root cwd importPath = some (directory, place) ↔
        place = (directory / .ofText importPath).clean ∧ t.leadsSomewhere place.text ∧
          ∃ nearer further, cwd.ancestorsBelow root = nearer ++ directory :: further ∧
            ∀ d ∈ nearer, t.leadsSomewhere (d / .ofText importPath).clean.text = false) ∧
      (t.resolveAbove root cwd importPath = none ↔
        ∀ d ∈ cwd.ancestorsBelow root,
          t.leadsSomewhere (d / .ofText importPath).clean.text = false) :=
  ⟨fun _ ↦ Path.climbsBelow_iff, (Path.nodup_ancestors cwd).sublist (List.takeWhile_sublist _),
    fun _ ↦ Path.mem_ancestors_iff, Path.pairwise_ancestors cwd, Path.ancestorsBelow_cases cwd root,
    fun _ _ ↦ resolveAbove_eq_some_iff, resolveAbove_eq_none_iff⟩

end FileTree

end SolidityImports
