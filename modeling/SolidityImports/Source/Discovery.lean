import SolidityImports.Error

/-! # Finding sources

All sources below a directory. Links are followed; a directory that lies inside itself through links
is entered once on every way down. -/

namespace SolidityImports.FileTree

variable (t : FileTree)

/-- The endings of source files. -/
def sourceSuffixes : List Text := [.of ".sol", .of ".yul"]

/-- Whether a path has the ending of a source. -/
def isSourcePath (p : Path) : Bool := p.suffix ∈ sourceSuffixes

/-- The sources below a directory, at most `depth` directories down. The directories at the
locations `above` have been entered on the way. -/
def sourcesBelow : Nat → List Location → Path → List Path
  | 0, _, _ => []
  | depth + 1, above, dir =>
    match t.stat dir.text with
    | .ok (loc, .directory) =>
      if loc ∈ above then []
      else (t.children loc).flatMap fun (n, _) ↦
        let p := dir.child n
        if t.leadsToDirectory p.text then sourcesBelow depth (loc :: above) p
        else if isSourcePath p && t.leadsToFile p.text then [p]
        else []
    | _ => []

/-- Paths in the order of their texts. -/
def sortPaths (ps : List Path) : List Path := ps.mergeSort fun p q ↦ p.text.le q.text

/-- The sources at and below a path. A way down passes every directory once at most. -/
def sources (root : Path) : Except Error (List Path) :=
  if '\x00' ∈ root.text then .error .nulInPath
  else if t.leadsToFile root.text then .ok (if isSourcePath root then [root] else [])
  else .ok (sortPaths (t.sourcesBelow (t.entries.length + 2) [] root))

/-- The directories that directly hold a source. -/
def sourceDirectories (root : Path) : Except Error (List Path) :=
  (t.sources root).map fun ps ↦ sortPaths (ps.map Path.parent).eraseDups

end SolidityImports.FileTree
