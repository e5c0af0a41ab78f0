import SolidityImports.Proofs.FileTree.LinkFree
import SolidityImports.Proofs.Import.Above

/-! # Imports from the root of the project

The root of a project should be looked in for the sources inside the project, and for no others. What
lies inside is told from the paths as they are written, whose `..` may lead out again, or in. Main
statement: in a tree without links, the root is looked in for the right sources exactly if, whenever a
run comes to it, the written paths tell the same as the directories that they lead to, and no NUL
character hides what was tried. They do tell the same if they are written without `..`. -/

namespace SolidityImports

/-! ## What a run shows of a tier -/

/-- Whether a run shows that a tier was searched: by what it has found, or by an attempt. -/
def ShowsTier (tier : Tier) : Except Error Resolution → Prop
  | .ok found => found.kind = tier
  | .error (.importNotFound _ _ attempts _) => ∃ a ∈ attempts, a.tier = tier.text
  | .error _ => False

/-- Whether a run looks in the root of the project for a source inside it alone: never for a source
outside, and for one inside before it fails, unless the import is relative. -/
structure RootFollows (inside : Prop) (importPath : Text) (run : Except Error Resolution) : Prop where
  outside : ¬ inside → ¬ ShowsTier .root run
  inside : inside → isRelativeImport importPath = false → (∃ e, run = .error e) →
    ShowsTier .root run

/-- Whether a run has come to the root of the project, or has passed it by as the last place: it has
found the import there or nowhere, and the import is not relative. -/
def ComesToRoot (importPath : Text) : Except Error Resolution → Prop
  | .ok found => found.kind = .root
  | .error (.importNotFound ..) => isRelativeImport importPath = false
  | .error _ => False

theorem exists_mem_attempts_iff {cs : List Candidate} {tier : Tier} :
    (∃ a ∈ cs.map Candidate.attempt, a.tier = tier.text) ↔ ∃ c ∈ cs, c.tier = tier := by
  constructor
  · rintro ⟨_, ha, htier⟩
    obtain ⟨c, hc, rfl⟩ := List.mem_map.1 ha
    exact ⟨c, hc, Tier.text_injective htier⟩
  · rintro ⟨c, hc, rfl⟩
    exact ⟨c.attempt, List.mem_map_of_mem hc, rfl⟩

variable {r : Resolver} {source : Path} {importPath : Text} {root? : Option Path} {root : Path}

/-- The root of the project is among the places of an import exactly if the written path of the source
continues that of the root. -/
theorem Resolver.exists_mem_candidates_root_iff (hroot : (root? <|> r.projectRoot) = some root) :
    (∃ c ∈ r.candidates source importPath root?, c.tier = .root) ↔
      isRelativeImport importPath = false ∧ source.parent.isWithin root := by
  constructor
  · rintro ⟨c, hc, htier⟩
    rcases mem_candidates_iff.1 hc with ⟨-, rfl⟩ | ⟨hrelative, hc | hc | hc⟩
    · cases htier
    · cases (tier_of_mem_libraryTier hc).1.symm.trans htier
    · cases (tier_of_mem_aboveTier hc).symm.trans htier
    · refine ⟨hrelative, ?_⟩
      rw [hroot] at hc
      obtain ⟨top, htop, -⟩ := List.mem_map.1 hc
      obtain ⟨hsome, hwithin⟩ := Option.filter_eq_some_iff.1 (Option.mem_toList.1 htop)
      obtain rfl := Option.some.inj hsome
      exact hwithin
  · rintro ⟨hrelative, hwithin⟩
    refine ⟨⟨.root, (root / .ofText importPath).clean, none⟩, ?_, rfl⟩
    refine mem_candidates_iff.2 (.inr ⟨hrelative, .inr (.inr ?_)⟩)
    rw [hroot, Option.filter_some, if_pos hwithin]
    exact List.mem_singleton_self _

/-! ## By how a run ends -/

theorem rootFollows_found_iff {found : Resolution} {within inside : Prop}
    (hwithin : found.kind = .root → within) :
    RootFollows inside importPath (.ok found) ↔ (found.kind = .root → (within ↔ inside)) := by
  constructor
  · intro hfollows htier
    have hin : inside := by_contra fun hout ↦ hfollows.outside hout htier
    exact ⟨fun _ ↦ hin, fun _ ↦ hwithin htier⟩
  · intro htells
    refine ⟨fun hout htier ↦ hout ((htells htier).1 (hwithin htier)), ?_⟩
    rintro - - ⟨e, he⟩
    cases he

theorem rootFollows_error_iff {e : Error} {within inside : Prop}
    (hshows : ShowsTier .root (.error e) ↔ isRelativeImport importPath = false ∧ within) :
    RootFollows inside importPath (.error e) ↔
      (isRelativeImport importPath = false → (within ↔ inside)) := by
  constructor
  · refine fun hfollows hrelative ↦ ⟨fun hwithin ↦ ?_, fun hin ↦ ?_⟩
    · exact by_contra fun hout ↦ hfollows.outside hout (hshows.2 ⟨hrelative, hwithin⟩)
    · exact (hshows.1 (hfollows.inside hin hrelative ⟨e, rfl⟩)).2
  · refine fun htells ↦ ⟨fun hout hshown ↦ ?_, fun hin hrelative _ ↦ ?_⟩
    · obtain ⟨hrelative, hwithin⟩ := hshows.1 hshown
      exact hout ((htells hrelative).1 hwithin)
    · exact hshows.2 ⟨hrelative, (htells hrelative).2 hin⟩

namespace FileTree

variable {t : FileTree}

/-- The root is looked in for the right sources exactly if, whenever a run comes to it, the written
paths tell whether the source is inside, and no run for a source inside ends for a NUL character. -/
theorem rootFollows_iff_of_inside (hroot : (root? <|> r.projectRoot) = some root) (inside : Prop) :
    RootFollows inside importPath (t.resolveImport r source importPath root?) ↔
      (ComesToRoot importPath (t.resolveImport r source importPath root?) →
        (source.parent.isWithin root ↔ inside)) ∧
      (t.resolveImport r source importPath root? = .error .nulInPath →
        isRelativeImport importPath = false → ¬ inside) := by
  have hcandidates : (∃ c ∈ r.candidates source importPath root?, c.tier = .root) ↔ _ :=
    Resolver.exists_mem_candidates_root_iff hroot
  rcases resolveImport_cases t r source importPath root? with
    ⟨c, hfirst, canonical, hrun⟩ | ⟨hint, hrun⟩ | hrun
  · rw [hrun, rootFollows_found_iff fun htier ↦
      (hcandidates.1 ⟨c, mem_of_firstExisting hfirst, htier⟩).2]
    exact (and_iff_left nofun).symm
  · have hshows : ShowsTier .root (.error (.importNotFound importPath source
        ((r.candidates source importPath root?).map (·.attempt)) hint)) ↔ _ :=
      exists_mem_attempts_iff.trans hcandidates
    rw [hrun, rootFollows_error_iff hshows]
    exact (and_iff_left nofun).symm
  · -- No tier is shown, as if the source were outside.
    have hshows : ShowsTier .root (.error .nulInPath) ↔
        isRelativeImport importPath = false ∧ False := (iff_of_eq (and_false _)).symm
    rw [hrun, rootFollows_error_iff hshows]
    simp [ComesToRoot]

/-- In a tree without links, the root of the project is looked in for the sources inside it alone
exactly if, whenever a run comes to it, the written paths tell the same as the directories that they
lead to, and no run for a source inside ends for a NUL character. Written without `..` from the same
anchor, the paths do tell the same. -/
theorem rootFollows_resolveImport_iff (ht : t.IsFileSystem) (hlinks : t.LinkFree)
    (hroot : (root? <|> r.projectRoot) = some root) (hleads : t.leadsSomewhere root.text)
    (hsource : t.leadsSomewhere source.parent.text) :
    ∃ croot cwd, t.canonicalize root = .ok croot ∧ t.canonicalize source.parent = .ok cwd ∧
      (RootFollows (cwd.isWithin croot) importPath (t.resolveImport r source importPath root?) ↔
        (ComesToRoot importPath (t.resolveImport r source importPath root?) →
          (source.parent.isWithin root ↔ cwd.isWithin croot)) ∧
        (t.resolveImport r source importPath root? = .error .nulInPath →
          isRelativeImport importPath = false → ¬ cwd.isWithin croot)) ∧
      (source.anchor = root.anchor → .up ∉ source.parent.segments → .up ∉ root.segments →
        (source.parent.isWithin root ↔ cwd.isWithin croot)) := by
  refine ⟨_, _, canonicalize_eq_pathTo ht hlinks hleads, canonicalize_eq_pathTo ht hlinks hsource,
    rootFollows_iff_of_inside hroot _, ?_⟩
  intro hanchor hcwd hnames
  rw [isWithin_pathTo_iff]
  exact isWithin_iff_located hanchor hcwd hnames

/-- A source of the project is found in its root. -/
theorem rootFollows_namesakeBeside :
    namesakeBeside.IsFileSystem ∧ namesakeBeside.LinkFree ∧
      namesakeBeside.leadsSomewhere (Path.ofText (.of "/top/p")).text ∧
      namesakeBeside.leadsSomewhere (Path.ofText (.of "/top/p/Main.sol")).parent.text ∧
      namesakeBeside.resolveImport projectResolver (.ofText (.of "/top/p/Main.sol"))
          (.of "Main.sol") none =
        .ok ⟨.of "Main.sol", .ofText (.of "/top/p/Main.sol"), .ofText (.of "/top/p/Main.sol"), .root,
          none⟩ ∧
      RootFollows ((Path.ofText (.of "/top/p")).isWithin (.ofText (.of "/top/p"))) (.of "Main.sol")
        (namesakeBeside.resolveImport projectResolver (.ofText (.of "/top/p/Main.sol"))
          (.of "Main.sol") none) := by
  have ht : namesakeBeside.IsFileSystem := by decide
  have hlinks : namesakeBeside.LinkFree := by decide
  have hleads : namesakeBeside.leadsSomewhere (Path.ofText (.of "/top/p")).text := by decide +kernel
  have hsource : namesakeBeside.leadsSomewhere
      (Path.ofText (.of "/top/p/Main.sol")).parent.text := by decide +kernel
  have hrun : namesakeBeside.resolveImport projectResolver (.ofText (.of "/top/p/Main.sol"))
      (.of "Main.sol") none =
        .ok ⟨.of "Main.sol", .ofText (.of "/top/p/Main.sol"), .ofText (.of "/top/p/Main.sol"), .root,
          none⟩ := eq_ok_of_toOption (by decide +kernel)
  have hcanonical : namesakeBeside.canonicalize (.ofText (.of "/top/p")) =
      .ok (.ofText (.of "/top/p")) := by cbv
  have hroot : (none <|> projectResolver.projectRoot) = some (Path.ofText (.of "/top/p")) := rfl
  obtain ⟨croot, cwd, hcroot, hcwd, hiff, hnames⟩ :=
    rootFollows_resolveImport_iff ht hlinks hroot hleads hsource
  obtain rfl := Except.ok.inj (hcanonical.symm.trans hcroot)
  obtain rfl := Except.ok.inj (hcanonical.symm.trans hcwd)
  have hagree := hnames rfl (by decide) (by decide)
  refine ⟨ht, hlinks, hleads, hsource, hrun, hiff.2 ⟨fun _ ↦ hagree, ?_⟩⟩
  rw [hrun]
  intro hnul
  cases hnul

/-- A source beside the project finds what it imports in the root if its path goes through the
project. -/
theorem not_rootFollows_namesakeBeside :
    namesakeBeside.IsFileSystem ∧ namesakeBeside.LinkFree ∧
      namesakeBeside.canonicalize (.ofText (.of "/top/p")) = .ok (.ofText (.of "/top/p")) ∧
      namesakeBeside.canonicalize (Path.ofText (.of "/top/p/../Main.sol")).parent =
        .ok (.ofText (.of "/top")) ∧
      ¬ (Path.ofText (.of "/top")).isWithin (.ofText (.of "/top/p")) ∧
      namesakeBeside.resolveImport projectResolver (.ofText (.of "/top/p/../Main.sol"))
          (.of "X.sol") none =
        .ok ⟨.of "X.sol", .ofText (.of "/top/p/X.sol"), .ofText (.of "/top/p/X.sol"), .root, none⟩ ∧
      ¬ RootFollows ((Path.ofText (.of "/top")).isWithin (.ofText (.of "/top/p"))) (.of "X.sol")
        (namesakeBeside.resolveImport projectResolver (.ofText (.of "/top/p/../Main.sol"))
          (.of "X.sol") none) := by
  have hrun : namesakeBeside.resolveImport projectResolver (.ofText (.of "/top/p/../Main.sol"))
      (.of "X.sol") none =
        .ok ⟨.of "X.sol", .ofText (.of "/top/p/X.sol"), .ofText (.of "/top/p/X.sol"), .root,
          none⟩ := eq_ok_of_toOption (by decide +kernel)
  have houtside : ¬ (Path.ofText (.of "/top")).isWithin (.ofText (.of "/top/p")) := by decide
  refine ⟨by decide, by decide, by cbv, by cbv, houtside, hrun, ?_⟩
  rw [hrun]
  intro hfollows
  exact hfollows.outside houtside rfl

end FileTree

end SolidityImports
