import SolidityImports.FileTree.Access
import SolidityImports.FileTree.Canonical
import SolidityImports.Import.Basic
import SolidityImports.Record.Problem
import SolidityImports.Text.Quoted

/-! # Errors

What can go wrong, by its cause, and the one place where causes are put into words. -/

namespace SolidityImports

/-- Why an operation on files failed: a text and, if there is one, a number. -/
structure Reason where
  code : Option Int
  text : Text
deriving DecidableEq

namespace Reason

/-- A reason in words; a reason with a number and without a text is told by its number. -/
def message (r : Reason) : Text :=
  match r.code, r.text with
  | some n, [] => .of "[Errno " ++ Text.ofInt n ++ .of "] "
  | _, text => text

end Reason

/-- The reason that a fault gives. -/
def Fault.reason (f : Fault) : Reason := ⟨some f.code, f.message⟩

/-- The reason that a path without a canonical form gives. -/
def CanonicalFault.reason : CanonicalFault → Reason
  | .fault f => f.reason
  | .loop link =>
    ⟨some Fault.tooManyLinks.code, .of "Symlink loop from " ++ Text.quoted link.text⟩

/-- Why a file is no JSON file. -/
inductive JsonCause where
  /-- The bytes are in no encoding. -/
  | encoding
  /-- The text is not JSON. -/
  | grammar
  /-- The value is not the record that it should be. -/
  | record (problems : List Problem)
deriving DecidableEq

/-- An error. -/
inductive Error where
  /-- An error that is told by its message alone. -/
  | general (message : Text)
  /-- An operation on the file at a path failed. -/
  | file (reason : Reason) (path : Path)
  /-- A file is missing, and one whose name differs in case exists. -/
  | differentCase (path existing : Path)
  /-- An import was found nowhere. -/
  | importNotFound (importPath : Text) (source : Path) (attempts : List Attempt)
      (hint : Option Path)
  /-- The directory of a file could not be made. -/
  | noParent (parent : Path) (failure : FileTree.MakeFailure)
  /-- A file does not hold the JSON that it should. -/
  | invalidJson (path : Path) (cause : JsonCause)
  /-- The bytes of a source are not UTF-8. -/
  | notUtf8
  /-- A path that holds a NUL character was used. -/
  | nulInPath
deriving DecidableEq

namespace Error

/-- The lines that tell where an import was looked for. -/
def attemptLines : List Attempt → Text
  | [] => []
  | attempts => .of "\nTried:" ++ attempts.flatMap fun a ↦
      Text.of "\n  [" ++ a.tier ++ Text.of "] " ++ a.candidate.text

/-- The line that points to a file whose name differs in case. -/
def hintLine : Option Path → Text
  | none => []
  | some hint => .of "\nA file with different case exists: \"" ++ hint.text ++ ['"']

/-- A fault at a path in words. -/
def failureText (failure : FileTree.MakeFailure) : Text :=
  .of "[Errno " ++ Text.ofNat failure.fault.code ++ .of "] " ++ failure.fault.message ++ .of ": "
    ++ Text.quoted failure.path.text

/-- An error in words. -/
def message : Error → Text
  | .general message => message
  | .file reason path => reason.message ++ .of ": \"" ++ path.text ++ ['"']
  | .differentCase path existing =>
    .of "Failed to resolve file: \"" ++ path.text
      ++ .of "\". A file with different case exists: \"" ++ existing.text
      ++ .of "\". Check the import path and the casing of the file on disk."
  | .importNotFound importPath source attempts hint =>
    .of "Failed to resolve import \"" ++ importPath ++ .of "\" from \"" ++ source.text ++ .of "\"."
      ++ attemptLines attempts ++ hintLine hint
  | .noParent parent failure =>
    .of "Failed to create artifact parent folder \"" ++ parent.text ++ .of "\": "
      ++ failureText failure
  | .invalidJson path _ => .of "Failed to parse JSON file \"" ++ path.text ++ ['"']
  | .notUtf8 => .of "invalid UTF-8"
  | .nulInPath => Fault.nul.message

/-- The error of a fault at a path. A NUL character keeps a path from being used at all. -/
def ofFault (path : Path) : Fault → Error
  | .nul => .nulInPath
  | f => .file f.reason path

end Error

end SolidityImports
