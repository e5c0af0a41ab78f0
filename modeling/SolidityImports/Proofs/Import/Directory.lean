import SolidityImports.Proofs.FileTree.Stat
import SolidityImports.Proofs.Import.FirstExisting

/-! # Imports of directories

An import should resolve to a file. Every tier takes what exists, though, and a directory may bear the
name of a source. Main statement: an import that is found resolves to a directory, which cannot be read
as a source, exactly if one of its candidates is a directory and none before it is a file; otherwise it
resolves to a file. -/

namespace SolidityImports.FileTree

variable {t : FileTree} {r : Resolver} {source : Path} {importPath : Text} {root? : Option Path}

/-! ## What a path leads to -/

/-- A walk that follows all links ends at none. -/
theorem EndsAt.ne_link {k : Nat} {dir loc : Location} {steps : List Step} {e : Entry} {r : Found}
    (h : t.EndsAt .follow k dir steps r) (hr : r = .entry loc e) (target : Text) :
    e ≠ .link target := by
  induction h with
  | here => cases hr; exact Entry.noConfusion
  | skip _ _ ih => exact ih hr
  | up _ ih => exact ih hr
  | enter _ _ _ ih => exact ih hr
  | file => cases hr; exact Entry.noConfusion
  | vacant => cases hr
  | keep _ _ hkeep => cases hkeep
  | follow _ _ _ _ ih => exact ih hr

/-- What a path leads to is either a file or a directory. -/
theorem leads_cases (t : FileTree) (s : Text) :
    t.leadsSomewhere s = false ∧ t.leadsToFile s = false ∧ t.leadsToDirectory s = false ∨
      t.leadsSomewhere s ∧ t.leadsToFile s ∧ t.leadsToDirectory s = false ∨
      t.leadsSomewhere s ∧ t.leadsToFile s = false ∧ t.leadsToDirectory s := by
  unfold leadsSomewhere leadsToFile leadsToDirectory
  cases hstat : t.stat s with
  | error f => exact .inl ⟨rfl, rfl, rfl⟩
  | ok found =>
    obtain ⟨loc, e⟩ := found
    have hends := endsAt_of_walk (walk_of_find (entryAt_eq_ok_iff.1 hstat))
    cases e with
    | directory => exact .inr (.inr ⟨rfl, rfl, rfl⟩)
    | file content => exact .inr (.inl ⟨rfl, rfl, rfl⟩)
    | link target => exact absurd rfl (hends.ne_link rfl target)

/-- A file is read, unless its bytes are no text. -/
theorem readSource_of_leadsToFile {p : Path} (h : t.leadsToFile p.text) :
    (∃ s, t.readSource p = .ok s) ∨ t.readSource p = .error .notUtf8 := by
  obtain ⟨loc, content, hstat⟩ := leadsToFile_iff.1 h
  have hread : t.read p.text = .ok content := by
    rw [read, hstat]
  cases htext : Text.ofUtf8? content with
  | some s => exact .inl ⟨s.unifyNewlines, by simp only [readSource, hread, htext]⟩
  | none => exact .inr (by simp only [readSource, hread, htext])

/-- A directory is not read. -/
theorem readSource_of_leadsToDirectory {p : Path} (h : t.leadsToDirectory p.text) :
    t.readSource p = .error (.file Fault.isDirectory.reason p) := by
  obtain ⟨loc, hstat⟩ := leadsToDirectory_iff.1 h
  have hread : t.read p.text = .error .isDirectory := by
    rw [read, hstat]
  simp only [readSource, hread, Error.ofFault]

/-! ## Directories among the candidates -/

/-- Whether one of several candidates is a directory, and none before it is a file. -/
def DirectoryFirst (t : FileTree) (cs : List Candidate) : Prop :=
  ∃ before c after, cs = before ++ c :: after ∧
    (∀ d ∈ before, t.leadsToFile d.path.text = false) ∧ t.leadsToDirectory c.path.text

theorem directoryFirst_cons_iff {c : Candidate} {cs : List Candidate} :
    t.DirectoryFirst (c :: cs) ↔ t.leadsToDirectory c.path.text ∨
      t.leadsToFile c.path.text = false ∧ t.DirectoryFirst cs := exists_split_cons_iff

/-- The first candidate that exists is a directory exactly if a directory comes before all files. -/
theorem leadsToDirectory_firstExisting_iff {cs : List Candidate} {c : Candidate}
    (h : t.firstExisting cs = some c) :
    t.leadsToDirectory c.path.text ↔ t.DirectoryFirst cs := by
  induction cs with
  | nil => cases h
  | cons d cs ih =>
    rw [directoryFirst_cons_iff]
    rw [firstExisting, List.find?_cons] at h
    rcases t.leads_cases d.path.text with
      ⟨hmissing, hfile, hdir⟩ | ⟨hsome, hfile, hdir⟩ | ⟨hsome, hfile, hdir⟩
    · rw [hmissing] at h
      simp [hfile, hdir, ih h]
    · rw [hsome] at h
      obtain rfl := Option.some.inj h
      simp [hfile, hdir]
    · rw [hsome] at h
      obtain rfl := Option.some.inj h
      simp [hdir]

/-- An import that is found resolves to a directory, which is not read, if a directory comes before
all files among its candidates; and otherwise to a file, which is read unless it holds no text. -/
theorem leadsToFile_of_resolveImport_iff {found : Resolution}
    (h : t.resolveImport r source importPath root? = .ok found) :
    (t.leadsToFile found.path.text ↔
        ¬ t.DirectoryFirst (r.candidates source importPath root?)) ∧
      (t.leadsToDirectory found.path.text ↔
        t.DirectoryFirst (r.candidates source importPath root?)) ∧
      (t.DirectoryFirst (r.candidates source importPath root?) →
        t.readSource found.path = .error (.file Fault.isDirectory.reason found.path)) ∧
      (¬ t.DirectoryFirst (r.candidates source importPath root?) →
        (∃ s, t.readSource found.path = .ok s) ∨
          t.readSource found.path = .error .notUtf8) := by
  have hfirst := firstExisting_of_resolveImport h
  have hexists : t.leadsSomewhere found.path.text := leadsSomewhere_of_firstExisting hfirst
  have hdirectory : t.leadsToDirectory found.path.text ↔ _ :=
    leadsToDirectory_firstExisting_iff hfirst
  rw [← hdirectory]
  rcases t.leads_cases found.path.text with ⟨hmissing, -⟩ | ⟨-, hfile, hdir⟩ | ⟨-, hfile, hdir⟩
  · rw [hmissing] at hexists
    contradiction
  · simpa [hfile, hdir] using readSource_of_leadsToFile hfile
  · simpa [hfile, hdir] using readSource_of_leadsToDirectory hdir

/-- The resolver of that project. -/
def twoLibraries : Resolver := ⟨none, [.ofText (.of "lib"), .ofText (.of "vendor")]⟩

/-- A source whose name no directory bears is found in the second root and read. -/
theorem leadsToFile_directoryBeforeFile :
    directoryBeforeFile.resolveImport twoLibraries (.ofText (.of "Main.sol")) (.of "B.sol") none =
      .ok ⟨.of "B.sol", .ofText (.of "vendor/B.sol"), .ofText (.of "/w/vendor/B.sol"), .library,
        none⟩ ∧
      ¬ directoryBeforeFile.DirectoryFirst
        (twoLibraries.candidates (.ofText (.of "Main.sol")) (.of "B.sol") none) ∧
      ((∃ s, directoryBeforeFile.readSource (.ofText (.of "vendor/B.sol")) = .ok s) ∨
        directoryBeforeFile.readSource (.ofText (.of "vendor/B.sol")) = .error .notUtf8) := by
  have hrun : directoryBeforeFile.resolveImport twoLibraries (.ofText (.of "Main.sol"))
      (.of "B.sol") none =
        .ok ⟨.of "B.sol", .ofText (.of "vendor/B.sol"), .ofText (.of "/w/vendor/B.sol"), .library,
          none⟩ := eq_ok_of_toOption (by decide +kernel)
  obtain ⟨hfile, -, -, hread⟩ := leadsToFile_of_resolveImport_iff hrun
  have hfirst := hfile.1 (by decide +kernel)
  exact ⟨hrun, hfirst, hread hfirst⟩

/-- The directory hides the source of its name, which would be the next candidate but one. -/
theorem not_leadsToFile_directoryBeforeFile :
    directoryBeforeFile.resolveImport twoLibraries (.ofText (.of "Main.sol")) (.of "A.sol") none =
      .ok ⟨.of "A.sol", .ofText (.of "lib/A.sol"), .ofText (.of "/w/lib/A.sol"), .library, none⟩ ∧
      ¬ directoryBeforeFile.leadsToFile (.of "lib/A.sol") ∧
      directoryBeforeFile.leadsToDirectory (.of "lib/A.sol") ∧
      directoryBeforeFile.readSource (.ofText (.of "lib/A.sol")) =
        .error (.file Fault.isDirectory.reason (.ofText (.of "lib/A.sol"))) ∧
      ⟨.library, .ofText (.of "vendor/A.sol"), none⟩ ∈
        twoLibraries.candidates (.ofText (.of "Main.sol")) (.of "A.sol") none ∧
      directoryBeforeFile.leadsToFile (.of "vendor/A.sol") := by
  have hdirectory : directoryBeforeFile.leadsToDirectory (.of "lib/A.sol") := by decide +kernel
  exact ⟨eq_ok_of_toOption (by decide +kernel), by decide +kernel, hdirectory,
    readSource_of_leadsToDirectory hdirectory, by decide +kernel, by decide +kernel⟩

end SolidityImports.FileTree
