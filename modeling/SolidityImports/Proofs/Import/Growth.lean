import SolidityImports.Proofs.FileTree.Growth
import SolidityImports.Proofs.Import.FirstExisting

/-! # Imports in a growing tree

The candidates of an import depend on the paths alone, and a path that leads somewhere keeps doing so
in a tree that grows. Main statement: an import that is found is still found after something has been
put into the tree, at the same place or at an earlier candidate that did not exist before. -/

namespace SolidityImports

/-- The candidate at which an import was found. -/
def Resolution.candidate (found : Resolution) : Candidate :=
  ⟨found.kind, found.path, found.includePath⟩

namespace FileTree

variable {t t' : FileTree} {r : Resolver} {source p : Path} {importPath : Text} {root? : Option Path}
  {e : Entry}

/-- Whether a candidate that does not exist comes before another one. -/
def WouldOvertake (t : FileTree) (cs : List Candidate) (new old : Candidate) : Prop :=
  t.leadsSomewhere new.path.text = false ∧
    ∃ before between after, cs = before ++ new :: (between ++ old :: after)

/-- In a tree that grows, the first existing candidate stays the first one, unless one before it has
come into existence. -/
theorem firstExisting_of_growsTo (hgrows : t.GrowsTo t') {cs : List Candidate} {old : Candidate}
    (h : t.firstExisting cs = some old) : ∃ new, t'.firstExisting cs = some new ∧
      (new = old ∨ t.WouldOvertake cs new old) := by
  obtain ⟨hold, before, after, rfl, hbefore⟩ := List.find?_eq_some_iff_append.1 h
  rw [firstExisting_append]
  cases hnew : t'.firstExisting before with
  | none =>
    have hstays : t'.leadsSomewhere old.path.text := hgrows.leadsSomewhere hold
    have hfound : t'.firstExisting (old :: after) = some old := List.find?_cons_of_pos hstays
    exact ⟨old, hfound, .inl rfl⟩
  | some new =>
    have hmem := mem_of_firstExisting hnew
    have hmissing : t.leadsSomewhere new.path.text = false := by simpa using hbefore new hmem
    obtain ⟨front, between, rfl⟩ := List.append_of_mem hmem
    exact ⟨new, rfl, .inr ⟨hmissing, front, between, after, by simp⟩⟩

/-- Whatever is put at a path, with the directories that are made for it, an import that was found is
found again: as the same candidate, or as one before it that did not exist. -/
theorem exists_resolveImport_of_place (ht : t.NulFree) (he : e.NulFree)
    (hplace : t.place p e = .ok t') {found : Resolution}
    (h : t.resolveImport r source importPath root? = .ok found) :
    ∃ found', t'.resolveImport r source importPath root? = .ok found' ∧
      (found'.path = found.path ∧ found'.kind = found.kind ∧
          found'.includePath = found.includePath ∨
        t.WouldOvertake (r.candidates source importPath root?) found'.candidate
          found.candidate) := by
  obtain ⟨new, hnew, hcases⟩ :=
    firstExisting_of_growsTo (growsTo_of_place hplace) (firstExisting_of_resolveImport h)
  refine ⟨_, resolveImport_of_firstExisting (ht.of_place he hplace) hnew, ?_⟩
  rcases hcases with rfl | hovertakes
  · exact .inl ⟨rfl, rfl, rfl⟩
  · exact .inr hovertakes

/-- A source that is put into a library beside its `src` directory, by way of a link, is found instead
of the one in that directory. -/
theorem overtakes_linkedLibrary :
    linkedLibrary.NulFree ∧ (Entry.file []).NulFree ∧
      linkedLibrary.resolveImport ⟨none, [.ofText (.of "lib")]⟩ (.ofText (.of "Main.sol"))
          (.of "token/A.sol") none =
        .ok ⟨.of "token/A.sol", .ofText (.of "lib/token/src/A.sol"),
          .ofText (.of "/w/lib/erc/src/A.sol"), .library, none⟩ ∧
      ∃ t' found', linkedLibrary.place (.ofText (.of "lib/token/A.sol")) (.file []) = .ok t' ∧
        t'.resolveImport ⟨none, [.ofText (.of "lib")]⟩ (.ofText (.of "Main.sol"))
          (.of "token/A.sol") none = .ok found' ∧
        found'.candidate = ⟨.library, .ofText (.of "lib/token/A.sol"), none⟩ ∧
        linkedLibrary.WouldOvertake
          ((⟨none, [.ofText (.of "lib")]⟩ : Resolver).candidates (.ofText (.of "Main.sol"))
            (.of "token/A.sol") none)
          found'.candidate ⟨.library, .ofText (.of "lib/token/src/A.sol"), none⟩ := by
  have ht : linkedLibrary.NulFree := by decide
  have he : (Entry.file []).NulFree := trivial
  have hparent : linkedLibrary.ensureDirectory (Path.ofText (.of "lib/token/A.sol")).parent =
      (linkedLibrary, none) := ensureDirectory_eq_self (by decide +kernel)
  have hplace : linkedLibrary.place (.ofText (.of "lib/token/A.sol")) (.file []) =
      .ok (linkedLibrary.insert [⟨.of "w", by decide⟩, ⟨.of "lib", by decide⟩,
        ⟨.of "erc", by decide⟩, ⟨.of "A.sol", by decide⟩] (.file [])) := by
    have hfind : linkedLibrary.find .write (Path.ofText (.of "lib/token/A.sol")).text =
        .ok (.vacant [⟨.of "w", by decide⟩, ⟨.of "lib", by decide⟩, ⟨.of "erc", by decide⟩]
          ⟨.of "A.sol", by decide⟩) := by decide +kernel
    simp only [place, hparent, write, hfind]
    rfl
  have hrun : linkedLibrary.resolveImport ⟨none, [.ofText (.of "lib")]⟩ (.ofText (.of "Main.sol"))
      (.of "token/A.sol") none =
        .ok ⟨.of "token/A.sol", .ofText (.of "lib/token/src/A.sol"),
          .ofText (.of "/w/lib/erc/src/A.sol"), .library, none⟩ :=
    eq_ok_of_toOption (by decide +kernel)
  obtain ⟨found', hafter, hcases⟩ := exists_resolveImport_of_place ht he hplace hrun
  have hfirst := firstExisting_of_resolveImport hafter
  have hfound : found'.candidate = ⟨.library, .ofText (.of "lib/token/A.sol"), none⟩ :=
    Option.some.inj (hfirst.symm.trans (by decide +kernel))
  refine ⟨ht, he, hrun, _, found', hplace, hafter, hfound, ?_⟩
  rcases hcases with ⟨hsame, -⟩ | hovertakes
  · have hpath : found'.path = .ofText (.of "lib/token/A.sol") := congrArg Candidate.path hfound
    exact absurd (hpath.symm.trans hsame) (by decide)
  · exact hovertakes

end FileTree

end SolidityImports
