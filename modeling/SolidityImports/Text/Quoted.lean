import SolidityImports.Text.Bytes
import SolidityImports.Text.Printable

/-! # Quoted text

Text between quotes on one line, as it stands in messages about files. -/

namespace SolidityImports.Text

/-- The escape of a character that does not print: two, four or eight hexadecimal digits. -/
def codeEscape (c : Char) : Text :=
  let n := c.toNat
  if n < 0x100 then '\\' :: 'x' :: hexDigits 2 n
  else if n < 0x10000 then '\\' :: 'u' :: hexDigits 4 n
  else '\\' :: 'U' :: hexDigits 8 n

/-- A character between quotes `q`. -/
def quotedChar (q c : Char) : Text :=
  if c = q ∨ c = '\\' then ['\\', c]
  else if c = '\n' then ['\\', 'n']
  else if c = '\r' then ['\\', 'r']
  else if c = '\t' then ['\\', 't']
  else if isPrintable c then [c]
  else codeEscape c

/-- Text between single quotes; between double quotes if it holds a single quote and no double
one. -/
def quoted (s : Text) : Text :=
  let q := if '\'' ∈ s ∧ '"' ∉ s then '"' else '\''
  [q] ++ s.flatMap (quotedChar q) ++ [q]

end SolidityImports.Text
