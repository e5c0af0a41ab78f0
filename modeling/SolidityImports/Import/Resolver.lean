import SolidityImports.Import.Ancestor
import SolidityImports.Import.Library
import SolidityImports.Import.Scan
import SolidityImports.Source.File

/-! # Resolving imports

An import is looked up tier by tier. One that starts with `.` or `..` is looked up from the directory
of its source alone. Any other may lie below a library root, in a directory above its source, or in
the root of the project. -/

namespace SolidityImports

/-- How the imports of a project are resolved. -/
structure Resolver where
  projectRoot : Option Path
  libraries : List Path
deriving DecidableEq

namespace Resolver

/-- The library roots; relative ones lie in the root of the project. -/
def libraryRoots (libraries : List Path) : Option Path → List Path
  | none => libraries
  | some root => libraries.map (root / ·)

/-- The first library root that a directory lies in, else the project's root if it lies in that. -/
def ancestorBase (root : Option Path) (roots : List Path) (cwd : Path) : Option Path :=
  roots.find? cwd.isWithin <|> root.filter cwd.isWithin

/-- The attempts of a tier. -/
def attemptsOf (tier : Tier) (candidates : List Path) : List Attempt :=
  candidates.map (⟨tier.text, ·⟩)

end Resolver

namespace FileTree

variable (t : FileTree)

/-- The error of an import that was found nowhere, with a hint to a file whose name differs in case
beside one of the places that were tried. -/
def notFound (importPath : Text) (source : Path) (attempts : List Attempt) : Error :=
  let rec firstHint : List Attempt → Except Error (Option Path)
    | [] => .ok none
    | a :: rest =>
      match t.caseVariant? a.candidate with
      | .ok none => firstHint rest
      | result => result
  match firstHint attempts with
  | .ok hint => .importNotFound importPath source attempts hint
  | .error e => e

/-- The resolution of an import that was found at a path. -/
def resolution (importPath : Text) (kind : Tier) (path : Path) (includePath : Option Path) :
    Except Error Resolution := do
  return ⟨importPath, path, ← t.canonicalized path, kind, includePath⟩

/-- Looks an import up from the directory of its source. -/
def resolveRelative (importPath : Text) (source : Path) : Except Error Resolution :=
  let cwd := source.parent
  match t.normalize cwd importPath with
  | .ok path => t.resolution importPath .relative path none
  | .error _ => .error (t.notFound importPath source
      (Resolver.attemptsOf .relative [(cwd / Path.ofText importPath).clean]))

/-- Where an import is found below the library roots, or the places that were tried. An import that
starts at a root has to exist. -/
def searchLibraries (roots : List Path) (importPath : Text) : Except (List Path) Path :=
  let candidates := libraryCandidates roots importPath
  match t.resolveLibrary roots importPath with
  | none => .error candidates
  | some path => if t.leadsSomewhere path.text then .ok path else .error (candidates ++ [path])

/-- Where an import is found above its source and below `base`, with the directory that it
continues, or the places that were tried. -/
def searchAbove (base : Option Path) (cwd : Path) (importPath : Text) :
    Except (List Path) (Path × Path) :=
  match base with
  | none => .error []
  | some base =>
    match t.resolveAbove base cwd importPath with
    | some found => .ok found
    | none =>
      .error ((cwd.ancestorsBelow base).map fun a ↦ (a / Path.ofText importPath).clean)

/-- Where an import is found in the project's root, or the place that was tried. -/
def searchRoot (root : Option Path) (importPath : Text) : Except (List Path) Path :=
  match root with
  | none => .error []
  | some root =>
    match t.normalize root importPath with
    | .ok path => .ok path
    | .error _ => .error [(root / Path.ofText importPath).clean]

/-- Resolves an import of a source. The project's root may be given for this import. -/
def resolveImport (r : Resolver) (source : Path) (importPath : Text) (root? : Option Path) :
    Except Error Resolution :=
  if isRelativeImport importPath then t.resolveRelative importPath source
  else
    let root := root? <|> r.projectRoot
    let cwd := source.parent
    let roots := Resolver.libraryRoots r.libraries root
    let base := Resolver.ancestorBase root roots cwd
    match t.searchLibraries roots importPath with
    | .ok path => t.resolution importPath .library path none
    | .error tried =>
      match t.searchAbove base cwd importPath with
      | .ok (directory, path) => t.resolution importPath .absolute path (some directory)
      | .error triedAbove =>
        match t.searchRoot (root.filter cwd.isWithin) importPath with
        | .ok path => t.resolution importPath .root path none
        | .error triedRoot =>
          .error (t.notFound importPath source
            (Resolver.attemptsOf .library tried ++ Resolver.attemptsOf .absolute triedAbove
              ++ Resolver.attemptsOf .root triedRoot))

/-- The text of the path that an import resolves to; none if it is found nowhere. -/
def resolvePath (r : Resolver) (source : Path) (importPath : Text) (root? : Option Path) :
    Except Error (Option Text) :=
  match t.resolveImport r source importPath root? with
  | .ok found => .ok (some found.path.text)
  | .error (.importNotFound ..) => .ok none
  | .error e => .error e

/-- Resolves every import of a source. -/
def resolveSource (r : Resolver) (source : Path) (root? : Option Path) :
    Except Error (List (Text × Except Error Resolution)) := do
  let s ← t.readSource source
  return (importPaths s).map fun importPath ↦
    (importPath, t.resolveImport r source importPath root?)

end FileTree

end SolidityImports
