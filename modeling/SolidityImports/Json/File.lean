import SolidityImports.Error
import SolidityImports.Record.Basic

/-! # JSON files

Reading and writing values and records. -/

namespace SolidityImports.FileTree

variable (t : FileTree)

/-- Reads bytes of a file for a reader that may fail with a cause. -/
def readWith {α : Type} (read : Bytes → Except JsonCause α) (path : Path) : Except Error α :=
  match t.read path.text with
  | .error f => .error (.ofFault path f)
  | .ok content => (read content).mapError (.invalidJson path)

/-- The JSON value of a file. -/
def readJson : Path → Except Error Json :=
  t.readWith fun content ↦
    match Json.decode? content with
    | none => .error .encoding
    | some s =>
      match Json.parse? (some Json.replacement) s with
      | none => .error .grammar
      | some v => .ok v

/-- The record of a file. -/
def readRecord (kind : RecordKind) : Path → Except Error Record :=
  t.readWith fun content ↦ (Record.ofBytes kind content).mapError .record

/-- Writes a text to a file. -/
def writeText (path : Path) (s : Text) : Except Error FileTree :=
  (t.write path.text s.utf8).mapError (.ofFault path)

/-- Writes a value to a file. -/
def writeJson (path : Path) (v : Json) : Except Error FileTree :=
  t.writeText path (v.print .spaced)

/-- Writes a record to a file. -/
def writeRecord (path : Path) (r : Record) : Except Error FileTree := t.writeText path r.text

end SolidityImports.FileTree
