import SolidityImports.FileTree.Walk
import SolidityImports.Path.Clean

/-! # Canonical paths

The canonical form of a path leads from the root to the same entry through directories alone. It is
found segment by segment: a link is replaced by what its target resolves to, and `..` takes back the
segment before it. -/

namespace SolidityImports

/-- Why a path has no canonical form. -/
inductive CanonicalFault where
  /-- An operation on the tree failed. -/
  | fault (f : Fault)
  /-- Resolving the link at a path leads back to that link. -/
  | loop (link : Path)
deriving DecidableEq

namespace FileTree

variable (t : FileTree)

/-- A resolved path, one level up; a relative one may leave the directory that it starts from. -/
def ascend (p : Path) : Path :=
  match p.anchor, p.segments.getLast? with
  | .relative, none | .relative, some .up => ⟨.relative, p.segments ++ [.up]⟩
  | _, _ => p.parent

/-- Goes on from a resolved path by segments; `enter` resolves the target of a link that stands at
its second argument, below its first. -/
def resolveFrom (enter : Path → Path → Text → Except CanonicalFault Path) :
    Path → List Segment → Except CanonicalFault Path
  | done, [] => .ok done
  | done, .up :: rest => resolveFrom enter (ascend done) rest
  | done, .name n :: rest =>
    match t.entryAt .keep (done.child n).text with
    | .error f => .error (.fault f)
    | .ok (_, .link target) =>
      match enter done (done.child n) target with
      | .ok resolved => resolveFrom enter resolved rest
      | .error e => .error e
    | .ok _ => resolveFrom enter (done.child n) rest

/-- Why a link that is being resolved cannot be met again: it is a loop, unless a walk from it
fails in another way before it comes back. -/
def loopFault (link : Path) : CanonicalFault :=
  match t.stat link.text with
  | .error .tooManyLinks | .ok _ => .loop link
  | .error f => .fault f

/-- Resolves segments behind a resolved path while the links `entered` are being resolved, at most
`depth` of them at once. -/
def resolve : Nat → List Path → Path → List Segment → Except CanonicalFault Path
  | 0, _ => t.resolveFrom fun _ link _ ↦ .error (t.loopFault link)
  | depth + 1, entered => t.resolveFrom fun done link target ↦
    if link ∈ entered then .error (t.loopFault link)
    else resolve depth (link :: entered) (if target.head? = some '/' then ⟨.root, []⟩ else done)
      (Segment.listOfText target)

/-- As many links as can be resolved one within the other: each one once from the root, and once for
every number of steps up that its path may start with. A path of at most 4095 bytes has room for
fewer than a third as many of these. -/
def linkDepth : Nat := t.entries.length * (4095 / 3 + 1)

/-- The location that a resolved path stands for. -/
def located (p : Path) : Location :=
  p.segments.foldl (fun loc s ↦ match s with | .up => loc.dropLast | .name n => loc ++ [n])
    (if p.isRooted then [] else t.workDir)

/-- The path from the root to a location. -/
def pathTo (loc : Location) : Path := ⟨.root, loc.map .name⟩

/-- The canonical form of a path that leads to an entry. -/
def canonical (p : Path) : Except CanonicalFault Path :=
  (t.resolve t.linkDepth [] ⟨if p.isRooted then .root else .relative, []⟩ p.segments).map
    fun resolved ↦ pathTo (t.located resolved)

end FileTree

end SolidityImports
