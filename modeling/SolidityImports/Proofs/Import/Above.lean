import SolidityImports.Proofs.Import.FirstExisting
import SolidityImports.Proofs.Path.Ancestor

/-! # Imports from above stay inside their base

An import that is written from a directory above its source should be looked up below the base
alone: below the library root, or else the project root, that the source lies in. Main statement:
this is so for every run exactly if the source does not lie directly in the base. From there the
walk leaves the base and looks through the directories above it. -/

namespace SolidityImports

namespace Resolver

/-- The directory that the search above a source is to stay in. -/
def searchBase (r : Resolver) (source : Path) (root? : Option Path) : Option Path :=
  let root := root? <|> r.projectRoot
  ancestorBase root (libraryRoots r.libraries root) source.parent

theorem isWithin_of_ancestorBase {root : Option Path} {roots : List Path} {cwd base : Path}
    (h : ancestorBase root roots cwd = some base) : cwd.isWithin base := by
  unfold ancestorBase at h
  cases hfind : roots.find? cwd.isWithin with
  | some library =>
    rw [hfind] at h
    obtain rfl := Option.some.inj h
    exact List.find?_some hfind
  | none =>
    rw [hfind] at h
    exact (Option.filter_eq_some_iff.1 h).2

/-- The candidates from above are those in the directories between the source and its base. -/
theorem mem_candidates_absolute {r : Resolver} {source : Path} {importPath : Text}
    {root? : Option Path} {c : Candidate} (hc : c ∈ r.candidates source importPath root?)
    (htier : c.tier = .absolute) :
    ∃ base ∈ r.searchBase source root?, ∃ directory ∈ source.parent.ancestorsBelow base,
      c = ⟨.absolute, (directory / .ofText importPath).clean, some directory⟩ := by
  rcases mem_candidates_iff.1 hc with ⟨-, rfl⟩ | ⟨-, hc | hc | hc⟩
  · contradiction
  · rw [(tier_of_mem_libraryTier hc).1] at htier
    contradiction
  · exact mem_aboveTier hc
  · rw [(tier_of_mem_rootTier hc).1] at htier
    contradiction

/-- A candidate from above continues a directory above the source, which lies below the base unless
the source lies in the base itself. -/
theorem exists_ancestor_of_mem_candidates {r : Resolver} {source base : Path} {importPath : Text}
    {root? : Option Path} {c : Candidate} (hbase : r.searchBase source root? = some base)
    (hc : c ∈ r.candidates source importPath root?) (htier : c.tier = .absolute) :
    ∃ directory ∈ source.parent.ancestors,
      c = ⟨.absolute, (directory / .ofText importPath).clean, some directory⟩ ∧
        (directory.IsBelow base ↔ source.parent ≠ base) := by
  obtain ⟨_, hmem, directory, hdirectory, hcd⟩ := mem_candidates_absolute hc htier
  obtain rfl := Option.some.inj (hbase.symm.trans hmem)
  have hancestor := Path.mem_ancestors_of_mem_ancestorsBelow hdirectory
  refine ⟨directory, hancestor, hcd, ?_, fun hne ↦ ?_⟩
  · rintro hbelow rfl
    exact (Path.isBelow_of_mem_ancestors hancestor).asymm hbelow
  · exact Path.isBelow_of_mem_ancestorsBelow ⟨isWithin_of_ancestorBase hbase, hne⟩ hdirectory

end Resolver

theorem Tier.text_injective {a b : Tier} (h : a.text = b.text) : a = b := by
  have hread := congrArg Tier.ofText? h
  rw [Tier.ofText?_text, Tier.ofText?_text] at hread
  exact Option.some.inj hread

/-! ## What a run shows of its search -/

/-- Whether a run shows that the search above a source stayed below its base: what was found there
continues a directory below the base, and each attempt was made from a directory above the source
that lies below the base. -/
def StaysBelow (base cwd : Path) (importPath : Text) : Except Error Resolution → Prop
  | .ok found => found.kind = .absolute → ∃ directory ∈ found.includePath, directory.IsBelow base
  | .error (.importNotFound _ _ attempts _) => ∀ a ∈ attempts, a.tier = Tier.absolute.text →
      ∃ directory ∈ cwd.ancestors, directory.IsBelow base ∧
        a.candidate = (directory / .ofText importPath).clean
  | .error _ => True

/-- Whether a run shows nothing of a search above its source. -/
def LooksNowhereAbove : Except Error Resolution → Prop
  | .ok found => found.kind ≠ .absolute
  | .error (.importNotFound _ _ attempts _) => ∀ a ∈ attempts, a.tier ≠ Tier.absolute.text
  | .error _ => True

namespace FileTree

variable {t : FileTree} {r : Resolver} {source : Path} {importPath : Text} {root? : Option Path}

theorem staysBelow_found_iff {base canonical : Path} {c : Candidate}
    (hbase : r.searchBase source root? = some base)
    (hc : c ∈ r.candidates source importPath root?) :
    StaysBelow base source.parent importPath
        (.ok ⟨importPath, c.path, canonical, c.tier, c.above⟩) ↔
      (source.parent = base → c.tier ≠ .absolute) := by
  constructor
  · intro hstays heq htier
    obtain ⟨directory, -, rfl, hbelow⟩ :=
      Resolver.exists_ancestor_of_mem_candidates hbase hc htier
    obtain ⟨_, hfound, hfoundBelow⟩ := hstays htier
    obtain rfl := Option.some.inj hfound
    exact hbelow.1 hfoundBelow heq
  · intro hnowhere htier
    obtain ⟨directory, -, rfl, hbelow⟩ :=
      Resolver.exists_ancestor_of_mem_candidates hbase hc htier
    exact ⟨directory, rfl, hbelow.2 fun heq ↦ hnowhere heq htier⟩

theorem staysBelow_notFound_iff {base : Path} {hint : Option Path}
    (hbase : r.searchBase source root? = some base) :
    StaysBelow base source.parent importPath (.error (.importNotFound importPath source
        ((r.candidates source importPath root?).map (·.attempt)) hint)) ↔
      (source.parent = base → ∀ a ∈ (r.candidates source importPath root?).map (·.attempt),
        a.tier ≠ Tier.absolute.text) := by
  constructor
  · intro hstays heq a ha htier
    obtain ⟨directory, hdirectory, hisBelow, -⟩ := hstays a ha htier
    exact (Path.isBelow_of_mem_ancestors hdirectory).asymm (heq ▸ hisBelow)
  · intro hnowhere a ha htier
    obtain ⟨c, hc, rfl⟩ := List.mem_map.1 ha
    obtain ⟨directory, hdirectory, rfl, hbelow⟩ :=
      Resolver.exists_ancestor_of_mem_candidates hbase hc (Tier.text_injective htier)
    exact ⟨directory, hdirectory, hbelow.2 fun heq ↦ hnowhere heq _ ha htier, rfl⟩

/-- A search above a source that starts below its base stays there, and one that starts in the base
itself never gets there. -/
theorem staysBelow_resolveImport_iff {base : Path} (hbase : r.searchBase source root? = some base) :
    StaysBelow base source.parent importPath (t.resolveImport r source importPath root?) ↔
      (source.parent = base → LooksNowhereAbove (t.resolveImport r source importPath root?)) := by
  rcases resolveImport_cases t r source importPath root? with
    ⟨c, hfirst, canonical, hrun⟩ | ⟨hint, hrun⟩ | hrun
  · rw [hrun]
    exact staysBelow_found_iff hbase (mem_of_firstExisting hfirst)
  · rw [hrun]
    exact staysBelow_notFound_iff hbase
  · rw [hrun]
    exact ⟨fun _ _ ↦ trivial, fun _ ↦ trivial⟩

/-- The search above a source stays below its base exactly if the source does not lie directly in
the base, or shows nothing of such a search. The directories that are tried then lie below the base
whatever is imported, as they also do if there are none. -/
theorem searches_below_base_iff {base : Path} (hbase : r.searchBase source root? = some base) :
    ((∀ directory ∈ source.parent.ancestorsBelow base, directory.IsBelow base) ↔
        source.parent ≠ base ∨ source.parent.segments = []) ∧
      (StaysBelow base source.parent importPath (t.resolveImport r source importPath root?) ↔
        (source.parent = base →
          LooksNowhereAbove (t.resolveImport r source importPath root?))) :=
  ⟨Path.forall_ancestorsBelow_isBelow_iff (Resolver.isWithin_of_ancestorBase hbase),
    staysBelow_resolveImport_iff hbase⟩

/-- A project with a source of the same name beside it. -/
def namesakeBeside : FileTree where
  entries :=
    [([⟨.of "top", by decide⟩], .directory),
      ([⟨.of "top", by decide⟩, ⟨.of "X.sol", by decide⟩], .file []),
      ([⟨.of "top", by decide⟩, ⟨.of "p", by decide⟩], .directory),
      ([⟨.of "top", by decide⟩, ⟨.of "p", by decide⟩, ⟨.of "Main.sol", by decide⟩], .file []),
      ([⟨.of "top", by decide⟩, ⟨.of "p", by decide⟩, ⟨.of "X.sol", by decide⟩], .file [])]
  distinct := by decide
  workDir := [⟨.of "top", by decide⟩]

/-- The resolver of that project. -/
def projectResolver : Resolver := ⟨some (.ofText (.of "/top/p")), [.ofText (.of "lib")]⟩

/-- From a directory of the project, the search above the source leaves the namesake alone. -/
theorem staysBelow_namesakeBeside :
    projectResolver.searchBase (.ofText (.of "/top/p/src/B.sol")) none =
        some (.ofText (.of "/top/p")) ∧
      StaysBelow (.ofText (.of "/top/p")) (Path.ofText (.of "/top/p/src/B.sol")).parent
        (.of "X.sol") (namesakeBeside.resolveImport projectResolver
          (.ofText (.of "/top/p/src/B.sol")) (.of "X.sol") none) := by
  have hbase : projectResolver.searchBase (.ofText (.of "/top/p/src/B.sol")) none =
      some (.ofText (.of "/top/p")) := by decide
  have hne : (Path.ofText (.of "/top/p/src/B.sol")).parent ≠ .ofText (.of "/top/p") := by decide
  refine ⟨hbase, ?_⟩
  rw [(searches_below_base_iff hbase).2]
  intro heq
  contradiction

/-- From the project itself, the search finds the namesake and not the source in the project. -/
theorem not_staysBelow_namesakeBeside :
    projectResolver.searchBase (.ofText (.of "/top/p/Main.sol")) none =
        some (.ofText (.of "/top/p")) ∧
      namesakeBeside.resolveImport projectResolver (.ofText (.of "/top/p/Main.sol"))
          (.of "X.sol") none =
        .ok ⟨.of "X.sol", .ofText (.of "/top/X.sol"), .ofText (.of "/top/X.sol"), .absolute,
          some (.ofText (.of "/top"))⟩ ∧
      ¬ StaysBelow (.ofText (.of "/top/p")) (.ofText (.of "/top/p")) (.of "X.sol")
        (namesakeBeside.resolveImport projectResolver (.ofText (.of "/top/p/Main.sol"))
          (.of "X.sol") none) := by
  have hrun : namesakeBeside.resolveImport projectResolver (.ofText (.of "/top/p/Main.sol"))
      (.of "X.sol") none =
        .ok ⟨.of "X.sol", .ofText (.of "/top/X.sol"), .ofText (.of "/top/X.sol"), .absolute,
          some (.ofText (.of "/top"))⟩ := eq_ok_of_toOption (by decide +kernel)
  refine ⟨by decide, hrun, ?_⟩
  rw [hrun]
  intro hstays
  obtain ⟨directory, hdirectory, hbelow⟩ := hstays rfl
  obtain rfl := Option.some.inj hdirectory
  exact absurd hbelow (by decide)

end FileTree

end SolidityImports
