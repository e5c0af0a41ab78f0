import SolidityImports.Import.Resolver
import SolidityImports.Proofs.FileTree.NulFree
import SolidityImports.Proofs.Path.Ancestor
import SolidityImports.Proofs.Path.Written

/-! # Candidates

All places where an import may be found, in one list, which depends on the paths alone. To resolve
an import is to search this list: the first candidate that exists is the answer, and if there is
none, the whole list has been tried. The list is written out from the paths; that the search finds
its roots and its base in its own ways makes no difference. -/

namespace SolidityImports

/-! ## Imports as they are written -/

theorem isRootedImport_iff {importPath : Text} :
    isRootedImport importPath ↔ importPath.head? = some '/' := by
  rw [isRootedImport, Path.isRooted_ofText, decide_eq_true_iff]

theorem isRelativeImport_iff {importPath : Text} :
    isRelativeImport importPath ↔ importPath.head? ≠ some '/' ∧
      (importPath.pieces '/').find? (· ≠ []) ∈ [some ['.'], some ['.', '.']] := by
  rw [isRelativeImport, Bool.and_eq_true, Bool.not_eq_true', ← Bool.not_eq_true,
    isRootedImport_iff, importSegments, List.head?_filter]
  cases (importPath.pieces '/').find? (· ≠ []) <;> simp [isDots]

/-- The second place below a root, written at once. -/
theorem foldl_join_sourceDirectory {importPath first : Text} {rest : List Text}
    (h : importSegments importPath = first :: rest) (root : Path) :
    rest.foldl (fun p s ↦ p / .ofText s) (root / .ofText first / sourceDirectory) =
      root / .ofText (Text.joinWith ['/'] (first :: .of "src" :: rest)) := by
  have himport : ∀ s ∈ first :: rest, s ≠ [] ∧ '/' ∉ s := fun s hs ↦
    importSegments_slashFree (h ▸ hs)
  obtain ⟨hfirst, hrest⟩ := List.forall_mem_cons.1 himport
  have hsegments : ∀ s ∈ first :: .of "src" :: rest, s ≠ [] ∧ '/' ∉ s :=
    List.forall_mem_cons.2 ⟨hfirst, List.forall_mem_cons.2 ⟨by decide, hrest⟩⟩
  exact Path.foldl_join_ofText root hsegments

/-! ## Candidates -/

/-- A place where an import may be found. -/
structure Candidate where
  tier : Tier
  path : Path
  /-- The directory above the importing source that the place is reached from, if it is. -/
  above : Option Path
deriving DecidableEq

namespace Candidate

/-- The attempt to find an import at a place. -/
def attempt (c : Candidate) : Attempt := ⟨c.tier.text, c.path⟩

end Candidate

namespace Resolver

/-- The places below the library roots: as it is written and with `src` behind its first segment,
for each root. An import that starts with a slash is a place by itself. -/
def libraryTier (roots : List Path) (importPath : Text) : List Candidate :=
  if importPath.head? = some '/' then [⟨.library, .ofText importPath, none⟩]
  else match (importPath.pieces '/').filter (· ≠ []) with
    | [] => []
    | first :: rest => roots.flatMap fun root ↦
        [⟨.library, root / .ofText importPath, none⟩,
          ⟨.library, root / .ofText (Text.joinWith ['/'] (first :: .of "src" :: rest)), none⟩]

/-- The places in the directories above the importing source and below a base. -/
def aboveTier (base : Option Path) (cwd : Path) (importPath : Text) : List Candidate :=
  base.toList.flatMap fun base ↦ (cwd.ancestorsBelow base).map fun directory ↦
    ⟨.absolute, (directory / .ofText importPath).clean, some directory⟩

/-- The place in the root of the project. -/
def rootTier (root : Option Path) (importPath : Text) : List Candidate :=
  root.toList.map fun root ↦ ⟨.root, (root / .ofText importPath).clean, none⟩

/-- Every place where an import of a source may be found, in order. An import whose first segment is
`.` or `..` has one, unless it starts with a slash. Any other may lie below the library paths, of
which relative ones start from the root of the project, if there is one; above the source, but below
the first library path at or above its directory, or else below the root of the project if that is
at or above it; and then in that root. -/
def candidates (r : Resolver) (source : Path) (importPath : Text) (root? : Option Path) :
    List Candidate :=
  let cwd := source.parent
  if importPath.head? ≠ some '/' ∧
      (importPath.pieces '/').find? (· ≠ []) ∈ [some ['.'], some ['.', '.']] then
    [⟨.relative, (cwd / .ofText importPath).clean, none⟩]
  else
    let root := root? <|> r.projectRoot
    let libraries := match root with
      | some root => r.libraries.map fun library ↦
          if library.anchor = .relative then root / library else library
      | none => r.libraries
    let rootAbove := root.filter fun root ↦ root.Encloses cwd
    let base := (libraries.find? fun library ↦ library.Encloses cwd).or rootAbove
    libraryTier libraries importPath ++ aboveTier base cwd importPath
      ++ rootTier rootAbove importPath

/-! ## The notions of the search -/

theorem libraryRoots_eq (libraries : List Path) (root : Option Path) :
    libraryRoots libraries root =
      match root with
      | some root => libraries.map fun library ↦
          if library.anchor = .relative then root / library else library
      | none => libraries := by
  cases root with
  | none => rfl
  | some root =>
    apply List.map_congr_left
    intro library _
    split
    · rfl
    · rename_i hrooted
      exact if_pos (decide_eq_true hrooted)

theorem ancestorBase_eq (root : Option Path) (roots : List Path) (cwd : Path) :
    ancestorBase root roots cwd = (roots.find? fun library ↦ library.Encloses cwd).or
      (root.filter fun root ↦ root.Encloses cwd) := by
  simp only [ancestorBase, ← Path.isWithin_eq]
  cases roots.find? fun library ↦ cwd.isWithin library <;> rfl

/-- The candidates in the terms of the search. -/
theorem candidates_eq (r : Resolver) (source : Path) (importPath : Text) (root? : Option Path) :
    r.candidates source importPath root? =
      let root := root? <|> r.projectRoot
      let roots := libraryRoots r.libraries root
      if isRelativeImport importPath then
        [⟨.relative, (source.parent / .ofText importPath).clean, none⟩]
      else
        libraryTier roots importPath
          ++ aboveTier (ancestorBase root roots source.parent) source.parent importPath
          ++ rootTier (root.filter source.parent.isWithin) importPath := by
  have hwithin : source.parent.isWithin = fun root ↦ decide (root.Encloses source.parent) :=
    funext (Path.isWithin_eq source.parent)
  simp only [ancestorBase_eq, libraryRoots_eq, isRelativeImport_iff, hwithin]
  rfl

theorem attemptsOf_eq {tier : Tier} {cs : List Candidate} (h : ∀ c ∈ cs, c.tier = tier) :
    attemptsOf tier (cs.map (·.path)) = cs.map (·.attempt) := by
  unfold attemptsOf
  rw [List.map_map]
  apply List.map_congr_left
  intro c hc
  rw [Function.comp_apply, Candidate.attempt, h c hc]

theorem tier_of_mem_libraryTier {roots : List Path} {importPath : Text} {c : Candidate}
    (h : c ∈ libraryTier roots importPath) : c.tier = .library ∧ c.above = none := by
  unfold libraryTier at h
  split at h
  · obtain rfl := List.mem_singleton.1 h
    exact ⟨rfl, rfl⟩
  · split at h
    · contradiction
    · obtain ⟨root, -, h⟩ := List.mem_flatMap.1 h
      rcases List.mem_cons.1 h with rfl | h
      · exact ⟨rfl, rfl⟩
      · obtain rfl := List.mem_singleton.1 h
        exact ⟨rfl, rfl⟩

theorem libraryTier_of_rooted (roots : List Path) {importPath : Text}
    (h : isRootedImport importPath) :
    libraryTier roots importPath = [⟨.library, .ofText importPath, none⟩] :=
  if_pos (isRootedImport_iff.1 h)

theorem mem_aboveTier {base : Option Path} {cwd : Path} {importPath : Text} {c : Candidate}
    (h : c ∈ aboveTier base cwd importPath) :
    ∃ top ∈ base, ∃ directory ∈ cwd.ancestorsBelow top,
      c = ⟨.absolute, (directory / .ofText importPath).clean, some directory⟩ := by
  obtain ⟨top, htop, h⟩ := List.mem_flatMap.1 h
  obtain ⟨directory, hdirectory, rfl⟩ := List.mem_map.1 h
  exact ⟨top, Option.mem_toList.1 htop, directory, hdirectory, rfl⟩

theorem tier_of_mem_aboveTier {base : Option Path} {cwd : Path} {importPath : Text}
    {c : Candidate} (h : c ∈ aboveTier base cwd importPath) : c.tier = .absolute := by
  obtain ⟨_, -, _, -, rfl⟩ := mem_aboveTier h
  rfl

theorem tier_of_mem_rootTier {root : Option Path} {importPath : Text} {c : Candidate}
    (h : c ∈ rootTier root importPath) : c.tier = .root ∧ c.above = none := by
  obtain ⟨top, -, rfl⟩ := List.mem_map.1 h
  exact ⟨rfl, rfl⟩

/-- A relative import has one candidate, and any other has those of the three other tiers. -/
theorem mem_candidates_iff {r : Resolver} {source : Path} {importPath : Text}
    {root? : Option Path} {c : Candidate} :
    c ∈ r.candidates source importPath root? ↔
      isRelativeImport importPath ∧ c = ⟨.relative, (source.parent / .ofText importPath).clean, none⟩ ∨
      isRelativeImport importPath = false ∧
        (c ∈ libraryTier (libraryRoots r.libraries (root? <|> r.projectRoot)) importPath ∨
          c ∈ aboveTier (ancestorBase (root? <|> r.projectRoot)
            (libraryRoots r.libraries (root? <|> r.projectRoot)) source.parent) source.parent
            importPath ∨
          c ∈ rootTier ((root? <|> r.projectRoot).filter source.parent.isWithin) importPath) := by
  rw [candidates_eq]
  cases isRelativeImport importPath <;> simp

/-! ## Candidates without NUL -/

/-- Whether no path of a resolver holds a NUL character. -/
structure NulFree (r : Resolver) : Prop where
  projectRoot : ∀ p ∈ r.projectRoot, p.NulFree
  libraries : ∀ p ∈ r.libraries, p.NulFree

instance (r : Resolver) : Decidable r.NulFree :=
  decidable_of_iff ((∀ p ∈ r.projectRoot, p.NulFree) ∧ ∀ p ∈ r.libraries, p.NulFree)
    ⟨fun h ↦ ⟨h.1, h.2⟩, fun h ↦ ⟨h.1, h.2⟩⟩

theorem libraryRoots_nulFree {libraries : List Path} (hlibraries : ∀ p ∈ libraries, p.NulFree)
    {root : Option Path} (hroot : ∀ p ∈ root, p.NulFree) :
    ∀ p ∈ libraryRoots libraries root, p.NulFree := by
  cases root with
  | none => exact hlibraries
  | some top =>
    intro p hp
    obtain ⟨library, hlibrary, rfl⟩ := List.mem_map.1 hp
    exact (hroot top rfl).join (hlibraries library hlibrary)

theorem libraryTier_nulFree {roots : List Path} (hroots : ∀ p ∈ roots, p.NulFree)
    {importPath : Text} (himport : '\x00' ∉ importPath) :
    ∀ c ∈ libraryTier roots importPath, c.path.NulFree := by
  have htarget : (Path.ofText importPath).NulFree := .ofText himport
  intro c hc
  unfold libraryTier at hc
  split at hc
  · obtain rfl := List.mem_singleton.1 hc
    exact htarget
  · split at hc
    · contradiction
    · rename_i first rest hsegments
      have hsource : '\x00' ∉ Text.joinWith ['/'] (first :: .of "src" :: rest) := by
        rw [Text.mem_joinWith_iff (by decide)]
        rintro ⟨s, hs, hnul⟩
        have hpiece : s ∈ first :: rest → s ∈ importPath.pieces '/' := fun hs ↦
          (List.mem_filter.1 (hsegments ▸ hs)).1
        rcases List.mem_cons.1 hs with rfl | hs
        · exact himport (Text.mem_of_mem_of_mem_pieces (hpiece List.mem_cons_self) hnul)
        rcases List.mem_cons.1 hs with rfl | hs
        · exact absurd hnul (by decide)
        · exact himport (Text.mem_of_mem_of_mem_pieces (hpiece (List.mem_cons_of_mem _ hs)) hnul)
      obtain ⟨root, hroot, hc⟩ := List.mem_flatMap.1 hc
      rcases List.mem_cons.1 hc with rfl | hc
      · exact (hroots root hroot).join htarget
      · obtain rfl := List.mem_singleton.1 hc
        exact (hroots root hroot).join (.ofText hsource)

theorem aboveTier_nulFree (base : Option Path) {cwd : Path} (hcwd : cwd.NulFree)
    {importPath : Text} (himport : '\x00' ∉ importPath) :
    ∀ c ∈ aboveTier base cwd importPath, c.path.NulFree := by
  intro c hc
  obtain ⟨top, -, directory, hdirectory, rfl⟩ := mem_aboveTier hc
  have habove : directory.NulFree := by
    obtain ⟨n, -, rfl⟩ := List.mem_map.1 ((List.takeWhile_sublist _).subset hdirectory)
    intro s hs
    exact hcwd s (List.mem_of_mem_take hs)
  exact (habove.join (.ofText himport)).clean

/-- What is built from paths without NUL holds none. -/
theorem candidates_nulFree {r : Resolver} (hr : r.NulFree) {source : Path}
    (hsource : source.NulFree)
    {importPath : Text} (himport : '\x00' ∉ importPath) {root? : Option Path}
    (hroot : ∀ p ∈ root?, p.NulFree) :
    ∀ c ∈ r.candidates source importPath root?, c.path.NulFree := by
  have htarget : (Path.ofText importPath).NulFree := .ofText himport
  have htop : ∀ p ∈ (root? <|> r.projectRoot), p.NulFree := by
    cases root? with
    | none => exact hr.projectRoot
    | some root => exact hroot
  intro c hc
  rcases mem_candidates_iff.1 hc with ⟨-, rfl⟩ | ⟨-, hc | hc | hc⟩
  · exact (hsource.parent.join htarget).clean
  · exact libraryTier_nulFree (libraryRoots_nulFree hr.libraries htop) himport c hc
  · exact aboveTier_nulFree _ hsource.parent himport c hc
  · obtain ⟨root, hmem, rfl⟩ := List.mem_map.1 hc
    have hfiltered := Option.mem_toList.1 hmem
    have hfree := htop root (Option.eq_some_of_filter_eq_some hfiltered)
    exact (hfree.join htarget).clean

end Resolver

/-- The places of a library import are those of its tier. -/
theorem libraryCandidates_eq {roots : List Path} {importPath : Text}
    (hrooted : isRootedImport importPath = false)
    (hrelative : isRelativeImport importPath = false) :
    libraryCandidates roots importPath =
      (Resolver.libraryTier roots importPath).map (·.path) := by
  have hslash : ¬ importPath.head? = some '/' := by
    rw [← isRootedImport_iff, hrooted]
    exact Bool.false_ne_true
  unfold libraryCandidates Resolver.libraryTier
  rw [hrooted, hrelative, if_neg hslash, ← importSegments]
  cases hsegments : importSegments importPath with
  | nil => rfl
  | cons first rest =>
    simp only [Bool.or_self, Bool.false_eq_true, if_false, List.map_flatMap, List.map_cons,
      List.map_nil, foldl_join_sourceDirectory hsegments]

end SolidityImports
