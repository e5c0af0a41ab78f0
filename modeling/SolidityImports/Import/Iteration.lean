import SolidityImports.Import.Cursor
import SolidityImports.Import.Scan

/-! # Iterations

A source can be read for its imports any number of times, also at once. Every reader goes through
the source on its own, and each time no further than behind the next statement. -/

namespace SolidityImports

/-- How far a source has been read: the offset of the next byte, and the text from there on. -/
structure Reader where
  offset : Nat
  rest : Text

namespace Reader

/-- The first statement that can be read from an offset on, with the offset of its first byte, and
how far the source has been read then. -/
def firstFrom? (offset : Nat) : Text → Option ((Nat × Statement) × Reader)
  | [] => none
  | c :: s =>
    match Statement.read? (c :: s) with
    | some (st, rest) => some ((offset, st), ⟨offset + st.text.utf8Size, rest⟩)
    | none => firstFrom? (offset + c.utf8Size) s

/-- The next statement; `none` if there is none in the rest of the source. -/
def next? (r : Reader) : Option ((Nat × Statement) × Reader) := firstFrom? r.offset r.rest

end Reader

/-- A source, and what is told of each import statement in it. -/
structure ImportScan (α : Type) where
  source : Text
  tell : Nat → Statement → α

namespace ImportScan

variable {α : Type}

/-- The scan for the literals of imports. -/
def literals (source : Text) : ImportScan ImportLiteral :=
  ⟨source, fun offset st ↦ st.importLiteral offset⟩

/-- The scan for the paths of imports. -/
def paths (source : Text) : ImportScan Text := ⟨source, fun _ st ↦ st.literal⟩

/-- What is told in all. -/
def items (scan : ImportScan α) : List α :=
  (statements scan.source).map fun (offset, st) ↦ scan.tell offset st

/-- What a move brings, and how far each reader is then. A reader starts in front of the source and
stays where it is when no statement is left. -/
def step (scan : ImportScan α) (readers : Table Text Reader) : Move → Option α × Table Text Reader
  | .start name => (none, readers.put name ⟨0, scan.source⟩)
  | .advance name =>
    match (readers.get? name).bind Reader.next? with
    | none => (none, readers)
    | some ((offset, st), r) => (some (scan.tell offset st), readers.put name r)

theorem step_advance_of_none {scan : ImportScan α} {readers : Table Text Reader} {name : Text}
    (h : (readers.get? name).bind Reader.next? = none) :
    scan.step readers (.advance name) = (none, readers) := by
  rw [step, h]

theorem step_advance_of_some {scan : ImportScan α} {readers : Table Text Reader} {name : Text}
    {offset : Nat} {st : Statement} {r : Reader}
    (h : (readers.get? name).bind Reader.next? = some ((offset, st), r)) :
    scan.step readers (.advance name) = (some (scan.tell offset st), readers.put name r) := by
  rw [step, h]

end ImportScan

end SolidityImports
