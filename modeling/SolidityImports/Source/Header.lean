import SolidityImports.Text.Blank
import SolidityImports.Text.Line

/-! # Headers of a source

The version expression of the first `pragma solidity` and the identifier of the first license line.
Neither looks at the grammar of the source around it. -/

namespace SolidityImports

/-- What `read?` finds at the first place of a text at which it finds anything. -/
def firstOf? {α : Type} (read? : Text → Option α) : Text → Option α
  | [] => read? []
  | c :: s => read? (c :: s) <|> firstOf? read? s

namespace Header

/-- One character or more up to the next semicolon behind them, all on one line. -/
def expression? : Text → Option Text
  | [] => none
  | c :: s => if c = '\n' then none else (Text.upTo? ';' s).map (c :: ·)

/-- The version expression of a pragma that starts a text. The blanks before it end where another
character is; if a semicolon is there and none follows it, the last of them stands for an empty
expression, unless it is the only one. -/
def pragmaAt? (s : Text) : Option Text := do
  let s ← Text.after? (.of "pragma") s
  let (_, s) ← s.takeBlanks?
  let s ← Text.after? (.of "solidity") s
  let (gap, s) ← s.takeBlanks?
  let found ← expression? s <|> if gap.length < 2 then none else expression? (gap.getLast?.toList ++ s)
  return found.strip

/-- The version expression of the first pragma of a source. -/
def versionPragma? (source : Text) : Option Text := firstOf? pragmaAt? source

/-- What stands behind the license marker that starts a text: behind slashes, white space and the name
of the identifier. -/
def behindMarker? (s : Text) : Option Text := do
  let s ← Text.after? (.of "//") s
  let s := (Text.after? (.of "/") s).getD s
  Text.after? (.of "SPDX-License-Identifier:") s.takeBlanks.2

/-- The identifier behind a license marker: what follows the white space there, up to the end of its
line. At the end of the source blanks alone count as an empty identifier, unless all of them are
newlines. -/
def identifier? (s : Text) : Option Text :=
  match s.takeBlanks with
  | (gap, []) => if gap.all (· = '\n') then none else some []
  | (_, rest) => some (Text.strip (Text.restOfLine rest))

/-- The identifier of a license line that starts a text. -/
def licenseAt? (s : Text) : Option Text := (behindMarker? s).bind identifier?

/-- The license identifier of a source. -/
def license? (source : Text) : Option Text := firstOf? licenseAt? source

end Header

end SolidityImports
