import SolidityImports.Import.Basic
import SolidityImports.Import.Statement
import SolidityImports.Text.Bytes

/-! # Scanning a source for imports

A scan goes through a source from the start. Where a statement can be read, it is taken and the scan
goes on behind it; every other character is passed over. -/

namespace SolidityImports

/-- The binding that a text starts with, and the number of its characters: a word, `*` or a quote,
and a renaming. -/
def Binding.read? : Text → Option (Binding × Nat)
  | [] => none
  | c :: s =>
    if c = '*' ∨ c ∈ quotes then do
      let (rename, _) ← Renaming.read? s
      return (⟨rename.name, none⟩, 1 + rename.text.length)
    else do
      let (target, s) ← Text.word? (c :: s)
      let (rename, _) ← Renaming.read? s
      return (⟨rename.name, some target⟩, target.length + rename.text.length)

/-- The bindings in a text, after its first `passed` characters. -/
def bindingsFrom : Nat → Text → List Binding
  | _, [] => []
  | passed + 1, _ :: s => bindingsFrom passed s
  | 0, c :: s =>
    match Binding.read? (c :: s) with
    | some (binding, length) => binding :: bindingsFrom (length - 1) s
    | none => bindingsFrom 0 s

/-- The names that a statement binds with `as`, in the order in which they are written. -/
def bindings (statement : Text) : List Binding := bindingsFrom 0 statement

/-- The statements in a text after its first `passed` characters, each with the offset of its first
byte; the text itself starts at `offset`. -/
def statementsFrom (offset : Nat) : Nat → Text → List (Nat × Statement)
  | _, [] => []
  | passed + 1, c :: s => statementsFrom (offset + c.utf8Size) passed s
  | 0, c :: s =>
    match Statement.read? (c :: s) with
    | some (st, _) =>
      (offset, st) :: statementsFrom (offset + c.utf8Size) (st.text.length - 1) s
    | none => statementsFrom (offset + c.utf8Size) 0 s

/-- The import statements of a source with the offsets of their first bytes. -/
def statements (source : Text) : List (Nat × Statement) := statementsFrom 0 0 source

/-- The literal of a statement that starts at a byte offset. -/
def Statement.importLiteral (offset : Nat) (st : Statement) : ImportLiteral :=
  let start := offset + st.lead.utf8Size
  ⟨st.literal, bindings st.text, start, start + st.literal.utf8Size⟩

/-- The literals of all imports of a source. -/
def importLiterals (source : Text) : List ImportLiteral :=
  (statements source).map fun (offset, st) ↦ st.importLiteral offset

/-- The paths that a source imports. -/
def importPaths (source : Text) : List Text := (statements source).map fun (_, st) ↦ st.literal

end SolidityImports
