import SolidityImports.FileTree.Walk

/-! # Reading and changing a tree

Operations on the entry that a path leads to. Each of them changes one entry at most, except
`ensureDirectory`, which makes the missing directories of a whole path. -/

namespace SolidityImports.FileTree

variable (t : FileTree)

/-- The entries of the directory that a path leads to, in the order of their names. -/
def list (path : Text) : Except Fault (List (FileName × Entry)) :=
  match t.stat path with
  | .ok (loc, .directory) => .ok (t.children loc)
  | .ok _ => .error .notDirectory
  | .error f => .error f

/-- The content of the file that a path leads to. -/
def read (path : Text) : Except Fault Bytes :=
  match t.stat path with
  | .ok (_, .file content) => .ok content
  | .ok _ => .error .isDirectory
  | .error f => .error f

/-- Writes a file, which is made if the path leads to a free name. -/
def write (path : Text) (content : Bytes) : Except Fault FileTree :=
  match t.find .write path with
  | .ok (.entry loc (.file _)) => .ok (t.insert loc (.file content))
  | .ok (.entry _ _) => .error .isDirectory
  | .ok (.vacant dir n) => .ok (t.insert (dir ++ [n]) (.file content))
  | .error f => .error f

/-- Puts an entry at a free name. -/
def make (path : Text) (e : Entry) : Except Fault FileTree :=
  match t.find .keep path with
  | .ok (.entry _ _) => .error .occupied
  | .ok (.vacant dir n) => .ok (t.insert (dir ++ [n]) e)
  | .error f => .error f

/-- Removes what a path leads to, with all below it; a link at the end is removed itself. -/
def remove (path : Text) : Except Fault FileTree :=
  (t.entryAt .keep path).map fun found ↦ t.erase found.1

/-- A directory that could not be made, and why. -/
structure MakeFailure where
  fault : Fault
  path : Path
deriving DecidableEq

/-- Why a directory is not made although something may stand there: nothing is wrong if it is a
directory, and a target that cannot even be named is the graver fault. -/
def refusal? (p : Path) (f : Fault) : Option MakeFailure :=
  match t.stat p.text with
  | .ok (_, .directory) => none
  | .error .nameTooLong => some ⟨.nameTooLong, p⟩
  | _ => some ⟨f, p⟩

/-- Makes a directory unless the path leads to one. -/
def ensureOne (p : Path) : FileTree × Option MakeFailure :=
  match t.make p.text .directory with
  | .ok t' => (t', none)
  | .error .missing => (t, some ⟨.missing, p⟩)
  | .error f => (t, t.refusal? p f)

/-- Makes a directory and the missing directories above it. What has been made stays, also if a
later one cannot be made. -/
def ensureDirectory (t : FileTree) (p : Path) : FileTree × Option MakeFailure :=
  match t.make p.text .directory with
  | .ok t' => (t', none)
  | .error .missing =>
    if h : p.segments = [] then (t, some ⟨.missing, p⟩)
    else
      have : p.parent.segments.length < p.segments.length := by
        simp only [Path.parent, List.length_dropLast]
        have := List.length_pos_iff.2 h
        omega
      match ensureDirectory t p.parent with
      | (t', some failure) => (t', some failure)
      | (t', none) => t'.ensureOne p
  | .error f => (t, t.refusal? p f)
termination_by p.segments.length

/-- Puts an entry at a path, after the missing directories above it. A directory may be there
already, and a file is written anew. -/
def place (p : Path) (e : Entry) : Except Fault FileTree :=
  match e with
  | .directory =>
    match t.ensureDirectory p with
    | (t', none) => .ok t'
    | (_, some failure) => .error failure.fault
  | e =>
    match t.ensureDirectory p.parent, e with
    | (_, some failure), _ => .error failure.fault
    | (t', none), .file content => t'.write p.text content
    | (t', none), e => t'.make p.text e

/-- All entries below the working directory with their paths from there, in the order of these
paths. -/
def listing : List (Text × Entry) :=
  (t.entries.filterMap fun (loc, e) ↦
    if t.workDir.isPrefixOf loc ∧ loc ≠ t.workDir then
      some ((⟨.relative, (loc.drop t.workDir.length).map .name⟩ : Path).text, e)
    else none).mergeSort fun a b ↦ a.1.le b.1

end SolidityImports.FileTree
