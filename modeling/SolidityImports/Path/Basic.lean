import SolidityImports.Text.Basic

/-! # Paths

A path is an anchor and a list of segments. Reading a path drops empty segments and `.`; a `..`
stays, since it means the parent of wherever the path before it leads. -/

namespace SolidityImports

/-- A file name: it is not empty, holds no slash, and is neither `.` nor `..`. -/
structure FileName where
  text : Text
  valid : text ≠ [] ∧ text ≠ ['.'] ∧ text ≠ ['.', '.'] ∧ '/' ∉ text
deriving DecidableEq

namespace FileName

/-- The file name with a given text, if it is one. -/
def ofText? (s : Text) : Option FileName :=
  if h : s ≠ [] ∧ s ≠ ['.'] ∧ s ≠ ['.', '.'] ∧ '/' ∉ s then some ⟨s, h⟩ else none

@[simp] theorem ofText?_text (n : FileName) : ofText? n.text = some n := by
  simp [ofText?, n.valid]

end FileName

/-- A step of a path: to the parent, or to the entry with a name. -/
inductive Segment where
  | up
  | name (n : FileName)
deriving DecidableEq

namespace Segment

/-- A segment as it is written. -/
def text : Segment → Text
  | .up => ['.', '.']
  | .name n => n.text

/-- Reads the text between two slashes; an empty one and `.` are no segments. -/
def ofText? (s : Text) : Option Segment :=
  if s = ['.', '.'] then some .up else (FileName.ofText? s).map .name

@[simp] theorem ofText?_text (s : Segment) : ofText? s.text = some s := by
  cases s with
  | up => rfl
  | name n => simp [ofText?, text, n.valid]

theorem slash_not_mem_text (s : Segment) : '/' ∉ s.text := by
  cases s with
  | up => decide
  | name n => exact n.valid.2.2.2

/-- The segments of a text with slashes between them. -/
def listOfText (s : Text) : List Segment := (s.pieces '/').filterMap ofText?

end Segment

/-- Where a path starts: where its reader stands, or at a root. A path that starts with exactly
two slashes has a root of its own. -/
inductive Anchor where
  | relative
  | root
  | doubleRoot
deriving DecidableEq

namespace Anchor

/-- An anchor as it is written. -/
def text : Anchor → Text
  | .relative => []
  | .root => ['/']
  | .doubleRoot => ['/', '/']

/-- The anchor of a path text. -/
def ofText : Text → Anchor
  | '/' :: '/' :: '/' :: _ => .root
  | '/' :: '/' :: _ => .doubleRoot
  | '/' :: _ => .root
  | _ => .relative

end Anchor

/-- A path. -/
@[ext]
structure Path where
  anchor : Anchor
  segments : List Segment
deriving DecidableEq

namespace Path

/-- The path that leads nowhere else. -/
def here : Path := ⟨.relative, []⟩

/-- Reads a path. -/
def ofText (s : Text) : Path := ⟨.ofText s, Segment.listOfText s⟩

/-- Writes a path; the empty relative path is `.`. -/
def text (p : Path) : Text :=
  if p = here then ['.'] else p.anchor.text ++ Text.joinWith ['/'] (p.segments.map Segment.text)

/-- Whether the path starts at a root. -/
def isRooted (p : Path) : Bool := p.anchor ≠ .relative

/-- The path that follows `p` and then `q`; a rooted `q` forgets `p`. -/
def join (p q : Path) : Path := if q.isRooted then q else ⟨p.anchor, p.segments ++ q.segments⟩

instance : Div Path := ⟨join⟩

/-- The path to the entry `n` below `p`. -/
def child (p : Path) (n : FileName) : Path := ⟨p.anchor, p.segments ++ [.name n]⟩

/-- The path without its last segment; an anchor alone is its own parent. -/
def parent (p : Path) : Path := ⟨p.anchor, p.segments.dropLast⟩

/-- The text of the last segment, empty if there is none. -/
def lastText (p : Path) : Text := (p.segments.getLast?.map Segment.text).getD []

/-- The end of the last segment from its last dot on; empty if that dot starts or ends the
segment, or if there is none. -/
def suffix (p : Path) : Text :=
  let reversed := p.lastText.reverse
  let ending := reversed.takeWhile (· ≠ '.')
  match reversed.dropWhile (· ≠ '.') with
  | _ :: _ :: _ => if ending = [] then [] else '.' :: ending.reverse
  | _ => []

/-- How to get from `base` to `p`, if `p` continues `base` segment by segment. -/
def relativeTo? (p base : Path) : Option Path :=
  if p.anchor = base.anchor ∧ base.segments.isPrefixOf p.segments then
    some ⟨.relative, p.segments.drop base.segments.length⟩
  else none

/-- Whether `p` continues `base`. -/
def isWithin (p base : Path) : Bool := (p.relativeTo? base).isSome

/-- The name of a source: its path from `root` on, or the whole path if it is not below `root`. -/
def sourceName (source root : Path) : Path := (source.relativeTo? root).getD source

@[simp] theorem join_def (p q : Path) : p / q = p.join q := rfl

@[simp] theorem anchor_child (p : Path) (n : FileName) : (p.child n).anchor = p.anchor := rfl

@[simp] theorem segments_child (p : Path) (n : FileName) :
    (p.child n).segments = p.segments ++ [.name n] := rfl

end Path

end SolidityImports
