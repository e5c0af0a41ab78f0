import SolidityImports.FileTree.Basic
import SolidityImports.FileTree.Fault

/-! # Walking a path

A walk follows a path text from entry to entry, through the links that it meets. Names of more than
255 bytes, paths of more than 4095 bytes and walks through more than 40 links fail. -/

namespace SolidityImports

/-- One step of a walk. -/
inductive Step where
  /-- A `.`. -/
  | stay
  | up
  | down (n : FileName)
  /-- A slash at the end: what stands before it has to be a directory. -/
  | slash
deriving DecidableEq

namespace Step

/-- The step that the text between two slashes stands for. -/
def ofPiece? (s : Text) : Option Step :=
  if s = ['.'] then some .stay
  else (Segment.ofText? s).map fun
    | .up => .up
    | .name n => .down n

/-- The steps of a path text. -/
def listOfText (s : Text) : List Step :=
  (s.pieces '/').filterMap ofPiece? ++ if s.getLast? = some '/' then [.slash] else []

end Step

/-- What a walk does with a link at its end. -/
inductive LastLink where
  /-- The walk goes on to the target. -/
  | follow
  /-- The link itself is the end. -/
  | keep
  /-- The walk goes on, to a file that is going to be written: it must not end in a slash. -/
  | write
deriving DecidableEq

/-- Where a walk ends. -/
inductive Found where
  /-- At an entry. -/
  | entry (loc : Location) (e : Entry)
  /-- At a free name in a directory. -/
  | vacant (dir : Location) (n : FileName)
deriving DecidableEq

namespace FileTree

variable (t : FileTree)

/-- Where a path text starts from, read in the directory `dir`. -/
def start (dir : Location) (s : Text) : Location := if s.head? = some '/' then [] else dir

/-- The walk from a directory as far as it meets no link; `onLink` takes over with the directory
and the steps that are left after it. -/
def descend (last : LastLink) (onLink : Location → List Step → Except Fault Found) :
    Location → List Step → Except Fault Found
  | dir, [] => .ok (.entry dir .directory)
  | dir, .stay :: rest | dir, .slash :: rest => descend last onLink dir rest
  | dir, .up :: rest => descend last onLink dir.dropLast rest
  | dir, .down n :: rest =>
    if last = .write ∧ rest ≠ [] ∧ rest.all (· = .slash) then .error .isDirectory
    else if 255 < n.text.utf8Size then .error .nameTooLong
    else match t.lookup (dir ++ [n]) with
      | none => if rest = [] then .ok (.vacant dir n) else .error .missing
      | some .directory => descend last onLink (dir ++ [n]) rest
      | some (.file content) =>
        if rest = [] then .ok (.entry (dir ++ [n]) (.file content)) else .error .notDirectory
      | some (.link target) =>
        if rest = [] ∧ last = .keep then .ok (.entry (dir ++ [n]) (.link target))
        else onLink (start dir target) (Step.listOfText target ++ rest)

/-- The walk from a directory through at most `links` links. -/
def walk (last : LastLink) : Nat → Location → List Step → Except Fault Found
  | 0 => t.descend last fun _ _ ↦ .error .tooManyLinks
  | links + 1 => t.descend last (walk last links)

/-- Walks a path text from the working directory or the root. -/
def find (last : LastLink) (path : Text) : Except Fault Found :=
  if '\x00' ∈ path then .error .nul
  else if path = [] then .error .missing
  else if 4095 < path.utf8Size then .error .nameTooLong
  else t.walk last 40 (start t.workDir path) (Step.listOfText path)

/-- The location and the entry that a path leads to, links followed up to its end if `last` says
so. -/
def entryAt (last : LastLink) (path : Text) : Except Fault (Location × Entry) :=
  match t.find last path with
  | .ok (.entry loc e) => .ok (loc, e)
  | .ok (.vacant _ _) => .error .missing
  | .error f => .error f

/-- The location and the entry that a path leads to through all links. -/
def stat (path : Text) : Except Fault (Location × Entry) := t.entryAt .follow path

/-- Whether a path leads to an entry. -/
def leadsSomewhere (path : Text) : Bool := (t.stat path).isOk

/-- Whether a path leads to a file. -/
def leadsToFile (path : Text) : Bool :=
  match t.stat path with
  | .ok (_, .file _) => true
  | _ => false

/-- Whether a path leads to a directory. -/
def leadsToDirectory (path : Text) : Bool :=
  match t.stat path with
  | .ok (_, .directory) => true
  | _ => false

end FileTree

end SolidityImports
