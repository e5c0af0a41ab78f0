import SolidityImports.Error
import SolidityImports.Text.Line

/-! # Source files

Reading a source, with a hint if its name is written in the wrong case; canonical paths; and
choosing between two places of a file. -/

namespace SolidityImports.FileTree

variable (t : FileTree)

/-- Whether two names differ, but not when their ASCII letters are lowercased. -/
def differsInCase (a b : Text) : Bool := a ≠ b && a.map Char.toLower = b.map Char.toLower

/-- Whether the entry of a directory at a path is a file. Only a link has to be followed along the
path. -/
def isFileAt (p : Path) : Entry → Bool
  | .file _ => true
  | .link _ => t.leadsToFile p.text
  | .directory => false

/-- The first file beside a missing one, in the order of the names, whose name differs from it in
the case of ASCII letters only. -/
def caseVariant? (missing : Path) : Except Error (Option Path) :=
  if missing.segments = [] then .ok none
  else match t.list missing.parent.text with
    | .error .nul => .error .nulInPath
    | .error _ => .ok none
    | .ok entries =>
      .ok (entries.findSome? fun (n, e) ↦
        let p := missing.parent.child n
        if differsInCase n.text missing.lastText && t.isFileAt p e then some p else none)

/-- The text of a source. -/
def readSource (path : Path) : Except Error Text :=
  match t.read path.text with
  | .ok content =>
    match Text.ofUtf8? content with
    | some s => .ok s.unifyNewlines
    | none => .error .notUtf8
  | .error .missing =>
    match t.caseVariant? path with
    | .error e => .error e
    | .ok (some existing) => .error (.differentCase path existing)
    | .ok none => .error (.ofFault path .missing)
  | .error f => .error (.ofFault path f)

/-- The canonical form of a path. -/
def canonicalize (path : Path) : Except Error Path :=
  match t.canonical path with
  | .ok c => .ok c
  | .error (.fault .nul) => .error .nulInPath
  | .error e => .error (.file e.reason path)

/-- The canonical form of a path, or the path itself if it has none. -/
def canonicalized (path : Path) : Except Error Path :=
  match t.canonicalize path with
  | .error (.file _ _) => .ok path
  | result => result

/-- The path `root / favourite`, unless it is missing and `root / other` exists. -/
def favourite (root : Path) (favourite other : Text) : Path :=
  let first := root / .ofText favourite
  let second := root / .ofText other
  if !t.leadsSomewhere first.text && t.leadsSomewhere second.text then second else first

/-- Makes the directory of a file, with all above it. -/
def createParent (path : Path) : FileTree × Except Error Unit :=
  match t.ensureDirectory path.parent with
  | (t', none) => (t', .ok ())
  | (t', some ⟨.nul, _⟩) => (t', .error .nulInPath)
  | (t', some failure) => (t', .error (.noParent path.parent failure))

end SolidityImports.FileTree
