import SolidityImports.Import.Basic
import SolidityImports.Json.Printer
import SolidityImports.Json.Reader
import SolidityImports.Record.Field

/-! # Records

The records that are kept in files: bindings, literals, attempts and resolutions. Each is written as
an object with all its fields in order, and read from an object that may have others beside them. -/

namespace SolidityImports

/-- The JSON value of text that may be missing. -/
def Json.ofOption {α : Type} (f : α → Json) : Option α → Json
  | none => .null
  | some a => f a

/-- The JSON value of a path. -/
def Path.toJson (p : Path) : Json := .text p.text

namespace Binding

/-- A binding as an object. -/
def toJson (b : Binding) : Json :=
  .object [(.of "alias", .text b.name), (.of "target", .ofOption .text b.target)]

/-- Reads a binding. -/
def ofJson : Json → Checked Binding :=
  Checked.object fun fields ↦
    Checked.both Binding.mk (.field "alias" .text none fields)
      (.field "target" (.optional .text) (some none) fields)

end Binding

namespace ImportLiteral

/-- A literal as an object. -/
def toJson (l : ImportLiteral) : Json :=
  .object [(.of "path_text", .text l.text), (.of "aliases", .list (l.bindings.map Binding.toJson)),
    (.of "start", .int l.start), (.of "end", .int l.stop)]

/-- Reads a literal. -/
def ofJson : Json → Checked ImportLiteral :=
  Checked.object fun fields ↦
    (Checked.both ImportLiteral.mk (.field "path_text" .text none fields)
      (.field "aliases" (.list Binding.ofJson) (some []) fields)
      |>.app (.field "start" .integer none fields)).app (.field "end" .integer none fields)

end ImportLiteral

namespace Attempt

/-- An attempt as an object. -/
def toJson (a : Attempt) : Json :=
  .object [(.of "tier", .text a.tier), (.of "candidate", a.candidate.toJson)]

/-- Reads an attempt. -/
def ofJson : Json → Checked Attempt :=
  Checked.object fun fields ↦
    Checked.both Attempt.mk (.field "tier" .text none fields) (.field "candidate" .path none fields)

end Attempt

namespace Tier

/-- Reads the word for a tier. -/
def ofJson : Json → Checked Tier
  | .text s =>
    match ofText? s with
    | some tier => .ok tier
    | none => Checked.problem .notAllowed
  | _ => Checked.problem .notAllowed

end Tier

namespace Resolution

/-- A resolution as an object. -/
def toJson (r : Resolution) : Json :=
  .object [(.of "import_path", .text r.importPath), (.of "path", r.path.toJson),
    (.of "canonical", r.canonical.toJson), (.of "kind", .text r.kind.text),
    (.of "include_path", .ofOption Path.toJson r.includePath)]

/-- Reads a resolution. -/
def ofJson : Json → Checked Resolution :=
  Checked.object fun fields ↦
    ((Checked.both Resolution.mk (.field "import_path" .text none fields)
      (.field "path" .path none fields)
      |>.app (.field "canonical" .path none fields)).app (.field "kind" Tier.ofJson none fields)).app
        (.field "include_path" (.optional .path) (some none) fields)

end Resolution

/-- The kinds of records. -/
inductive RecordKind where
  | binding
  | literal
  | attempt
  | resolution
deriving DecidableEq

/-- A record of any kind. -/
inductive Record where
  | binding (b : Binding)
  | literal (l : ImportLiteral)
  | attempt (a : Attempt)
  | resolution (r : Resolution)
deriving DecidableEq

namespace Record

/-- The kind of a record. -/
def kind : Record → RecordKind
  | .binding _ => .binding
  | .literal _ => .literal
  | .attempt _ => .attempt
  | .resolution _ => .resolution

/-- A record as an object. -/
def toJson : Record → Json
  | .binding b => b.toJson
  | .literal l => l.toJson
  | .attempt a => a.toJson
  | .resolution r => r.toJson

/-- Reads a record of a given kind. -/
def ofJson (kind : RecordKind) (v : Json) : Checked Record :=
  match kind with
  | .binding => (Binding.ofJson v).map .binding
  | .literal => (ImportLiteral.ofJson v).map .literal
  | .attempt => (Attempt.ofJson v).map .attempt
  | .resolution => (Resolution.ofJson v).map .resolution

/-- Reads a record of a given kind from the bytes of a file, which have to be UTF-8. -/
def ofBytes (kind : RecordKind) (b : Bytes) : Checked Record :=
  match (Text.ofUtf8? b).bind (Json.parse? none) with
  | some v => ofJson kind v
  | none => Checked.problem .notJson

/-- The text of a file that holds a record. -/
def text (r : Record) : Text := r.toJson.print .compact

end Record

end SolidityImports
