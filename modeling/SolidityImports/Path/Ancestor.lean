import SolidityImports.Path.Basic

/-! # Ancestors

The paths above a path, and the last path that several paths have in common. -/

namespace SolidityImports.Path

/-- The proper ancestors of a path, nearest first, down to its anchor. -/
def ancestors (p : Path) : List Path :=
  (List.range p.segments.length).reverse.map fun n ↦ ⟨p.anchor, p.segments.take n⟩

/-- The proper ancestors of a path, nearest first, up to and without `top`. -/
def ancestorsBelow (p top : Path) : List Path := p.ancestors.takeWhile (· ≠ top)

/-- What two paths are compared by: the root, if there is one, and the segments. A `.` counts only
at the start of a relative path. -/
def components (s : Text) : List Text :=
  let segments := (s.pieces '/').filter (· ≠ [])
  if s.head? = some '/' then ['/'] :: segments.filter (· ≠ ['.'])
  else match segments with
    | [] => []
    | first :: rest => first :: rest.filter (· ≠ ['.'])

/-- The path with the given components. -/
def ofComponents (cs : List Text) : Path := cs.foldl (fun p c ↦ p / ofText c) here

/-- The components that two lists share at their front. -/
def sharedFront : List Text → List Text → List Text
  | a :: as, b :: bs => if a = b then a :: sharedFront as bs else []
  | _, _ => []

/-- The longest path that both paths start with; `none` if they differ from the start. -/
def commonAncestor? (a b : Text) : Option Path :=
  match sharedFront (components a) (components b) with
  | [] => none
  | cs => some (ofComponents cs)

/-- The longest path that all paths start with; `none` if there is none, or no path at all. -/
def commonAncestorOf? : List Text → Option Path
  | [] => none
  | first :: rest => rest.foldlM (fun p s ↦ commonAncestor? p.text s) (ofText first)

end SolidityImports.Path
