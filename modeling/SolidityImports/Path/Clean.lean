import SolidityImports.Path.Basic

/-! # Clean paths

Cleaning a path removes every name together with the `..` that follows it, without looking at any
file. What stays is a run of `..` and then names. -/

namespace SolidityImports.Path

/-- Puts one more segment behind cleaned ones, which are given last first. -/
def pushClean : List Segment → Segment → List Segment
  | .name _ :: done, .up => done
  | done, s => s :: done

/-- The segments that are left when every name followed by `..` is removed with it. -/
def cleanSegments (segments : List Segment) : List Segment :=
  (segments.foldl pushClean []).reverse

/-- The clean form of a path; both kinds of root become the single slash. -/
def clean (p : Path) : Path :=
  ⟨if p.isRooted then .root else .relative, cleanSegments p.segments⟩

end SolidityImports.Path
