import SolidityImports.FileTree.Walk

/-! # Imports from libraries

A library import starts with the name of a library, which lies below one of several roots, with its
sources in the library's directory or in `src` inside it. -/

namespace SolidityImports

/-- The directory inside a library that holds its sources. -/
def sourceDirectory : Path := .ofText (.of "src")

/-- The segments of an import as they are written, `.` included. -/
def importSegments (importPath : Text) : List Text := (importPath.pieces '/').filter (· ≠ [])

theorem importSegments_slashFree {importPath s : Text} (h : s ∈ importSegments importPath) :
    s ≠ [] ∧ '/' ∉ s := by
  obtain ⟨hpiece, hne⟩ := List.mem_filter.1 h
  exact ⟨of_decide_eq_true hne, Text.not_mem_of_mem_pieces hpiece⟩

/-- Whether an import starts at a root. -/
def isRootedImport (importPath : Text) : Bool := (Path.ofText importPath).isRooted

/-- Whether a segment is `.` or `..`. -/
def isDots (segment : Text) : Bool := segment = ['.'] || segment = ['.', '.']

/-- Whether an import starts from the directory of its source. -/
def isRelativeImport (importPath : Text) : Bool :=
  !isRootedImport importPath && (importSegments importPath).head?.any isDots

/-- Where a library import may lie, in the order in which the places are tried: below each root as
it is written, and then in the `src` directory of its library. -/
def libraryCandidates (libraries : List Path) (importPath : Text) : List Path :=
  if isRootedImport importPath || isRelativeImport importPath then []
  else match importSegments importPath with
    | [] => []
    | library :: rest => libraries.flatMap fun root ↦
        [root / .ofText importPath,
          rest.foldl (fun p s ↦ p / .ofText s) (root / .ofText library / sourceDirectory)]

namespace FileTree

/-- The first place of a library import that exists. An import that starts at a root is taken as it
is. -/
def resolveLibrary (t : FileTree) (libraries : List Path) (importPath : Text) : Option Path :=
  if isRootedImport importPath then some (.ofText importPath)
  else (libraryCandidates libraries importPath).find? fun p ↦ t.leadsSomewhere p.text

/-- Whether an import is not found in the libraries. -/
def isLocalImport (t : FileTree) (libraries : List Path) (importPath : Text) : Bool :=
  (t.resolveLibrary libraries importPath).isNone

end FileTree

end SolidityImports
