import SolidityImports.Text.Word

/-! # Import statements

An import statement names a file by a quoted literal, alone or behind a clause that says what to
take from it. Statements keep all white space as it is written, so that reading and writing them
loses nothing. Main statement: what is read is the statement's text and then the rest. -/

namespace SolidityImports

/-- Tries to read, and goes on without if there is nothing to read. -/
def optionally {α : Type} (read? : Text → Option (α × Text)) (s : Text) : Option α × Text :=
  match read? s with
  | some (x, rest) => (some x, rest)
  | none => (none, s)

/-- A new name, as in ` as A`. -/
structure Renaming where
  before : Text
  after : Text
  name : Text
deriving DecidableEq

namespace Renaming

/-- A renaming as it is written. -/
def text (r : Renaming) : Text := r.before ++ Text.of "as" ++ r.after ++ r.name

/-- Reads white space, `as`, white space and a word. -/
def read? (s : Text) : Option (Renaming × Text) := do
  let (before, s) ← s.takeBlanks?
  let s ← Text.after? (.of "as") s
  let (after, s) ← s.takeBlanks?
  let (name, s) ← s.word?
  return (⟨before, after, name⟩, s)

end Renaming

/-- A symbol of the imported file, as in `A` and `A as B`. -/
structure ImportedName where
  name : Text
  rename : Option Renaming
deriving DecidableEq

namespace ImportedName

/-- An imported symbol as it is written. -/
def text (i : ImportedName) : Text := i.name ++ (i.rename.map Renaming.text).getD []

/-- Reads a word and the renaming behind it, if there is one. -/
def read? (s : Text) : Option (ImportedName × Text) := do
  let (name, s) ← s.word?
  let (rename, s) := optionally Renaming.read? s
  return (⟨name, rename⟩, s)

end ImportedName

/-- A symbol behind a comma. -/
structure NextName where
  before : Text
  after : Text
  item : ImportedName
deriving DecidableEq

namespace NextName

/-- A symbol behind a comma as it is written. -/
def text (n : NextName) : Text := n.before ++ [','] ++ n.after ++ n.item.text

/-- Reads a comma, with white space around it, and a symbol. -/
def read? (s : Text) : Option (NextName × Text) := do
  let (before, s) := s.takeBlanks
  let s ← Text.after? [','] s
  let (after, s) := s.takeBlanks
  let (item, s) ← ImportedName.read? s
  return (⟨before, after, item⟩, s)

/-- Reads at most `n` symbols behind commas. -/
def readMany : Nat → Text → List NextName × Text
  | 0, s => ([], s)
  | n + 1, s =>
    match read? s with
    | none => ([], s)
    | some (item, s) =>
      let (items, s) := readMany n s
      (item :: items, s)

end NextName

/-- What a statement takes from the imported file. -/
inductive Clause where
  /-- `A` or `A as B`. -/
  | single (item : ImportedName)
  /-- `* as A`. -/
  | whole (rename : Renaming)
  /-- `{A, B as C,}`: the symbols, and the white space behind the opening brace, behind the last
  symbol, and behind a last comma if there is one. -/
  | listed (afterOpen : Text) (first : ImportedName) (more : List NextName) (afterLast : Text)
      (afterComma : Option Text)
deriving DecidableEq

namespace Clause

/-- A clause as it is written. -/
def text : Clause → Text
  | .single item => item.text
  | .whole rename => '*' :: rename.text
  | .listed afterOpen first more afterLast afterComma =>
    '{' :: afterOpen ++ first.text ++ more.flatMap NextName.text ++ afterLast
      ++ (afterComma.map (',' :: ·)).getD [] ++ ['}']

/-- Reads a comma and white space. -/
def readComma? (s : Text) : Option (Text × Text) := (Text.after? [','] s).map Text.takeBlanks

/-- Reads a clause. -/
def read? : Text → Option (Clause × Text)
  | '*' :: s => do
    let (rename, s) ← Renaming.read? s
    return (.whole rename, s)
  | '{' :: s => do
    let (afterOpen, s) := Text.takeBlanks s
    let (first, s) ← ImportedName.read? s
    let (more, s) := NextName.readMany s.length s
    let (afterLast, s) := s.takeBlanks
    let (afterComma, s) := optionally readComma? s
    let s ← Text.after? ['}'] s
    return (.listed afterOpen first more afterLast afterComma, s)
  | s => do
    let (item, s) ← ImportedName.read? s
    return (.single item, s)

end Clause

/-- The characters that open and close a literal. -/
def quotes : List Char := ['"', '\'']

/-- The longest literal on the line that is closed by `quote` and followed by something that `tail?`
reads; the opening quote has been read. -/
def longestLiteral? {α : Type} (tail? : Text → Option (α × Text)) (quote : Char) :
    Text → Option (Text × α × Text)
  | [] => none
  | c :: s =>
    if c = '\n' then none
    else match longestLiteral? tail? quote s with
      | some (literal, end_, rest) => some (c :: literal, end_, rest)
      | none => if c = quote then (tail? s).map fun (end_, rest) ↦ ([], end_, rest) else none

/-- An import statement. -/
inductive Statement where
  /-- `import "X";` and `import "X" as A;`. -/
  | file (gap : Text) (quote : Char) (literal : Text) (rename : Option Renaming)
      (beforeEnd : Text)
  /-- `import A from "X";` with any clause for `A`. -/
  | taking (gap : Text) (clause : Clause) (beforeFrom afterFrom : Text) (quote : Char)
      (literal : Text) (beforeEnd : Text)
deriving DecidableEq

namespace Statement

/-- The text between the quotes. -/
def literal : Statement → Text
  | .file _ _ literal _ _ | .taking _ _ _ _ _ literal _ => literal

/-- What is written up to the opening quote. -/
def lead : Statement → Text
  | .file gap quote _ _ _ => Text.of "import" ++ gap ++ [quote]
  | .taking gap clause beforeFrom afterFrom quote _ _ =>
    Text.of "import" ++ gap ++ clause.text ++ beforeFrom ++ Text.of "from" ++ afterFrom ++ [quote]

/-- What is written from the closing quote on. -/
def trail : Statement → Text
  | .file _ quote _ rename beforeEnd =>
    quote :: (rename.map Renaming.text).getD [] ++ beforeEnd ++ [';']
  | .taking _ _ _ _ quote _ beforeEnd => quote :: beforeEnd ++ [';']

/-- A statement as it is written. -/
def text (st : Statement) : Text := st.lead ++ st.literal ++ st.trail

/-- Reads white space and the semicolon. -/
def readEnd? (s : Text) : Option (Text × Text) := do
  let (beforeEnd, s) := s.takeBlanks
  let s ← Text.after? [';'] s
  return (beforeEnd, s)

/-- Reads what follows the literal of a statement without a clause. -/
def readFileEnd? (s : Text) : Option ((Option Renaming × Text) × Text) := do
  let (rename, s) := optionally Renaming.read? s
  let (beforeEnd, s) ← readEnd? s
  return ((rename, beforeEnd), s)

/-- Reads the statement that starts a text. -/
def read? (s : Text) : Option (Statement × Text) := do
  let s ← Text.after? (.of "import") s
  let (gap, s) ← s.takeBlanks?
  match s with
  | [] => none
  | c :: s' =>
    if c ∈ quotes then do
      let (literal, (rename, beforeEnd), s) ← longestLiteral? readFileEnd? c s'
      return (.file gap c literal rename beforeEnd, s)
    else do
      let (clause, s) ← Clause.read? s
      let (beforeFrom, s) ← s.takeBlanks?
      let s ← Text.after? (.of "from") s
      let (afterFrom, s) ← s.takeBlanks?
      match s with
      | [] => none
      | quote :: s =>
        if quote ∈ quotes then do
          let (literal, beforeEnd, s) ← longestLiteral? readEnd? quote s
          return (.taking gap clause beforeFrom afterFrom quote literal beforeEnd, s)
        else none

end Statement

end SolidityImports
