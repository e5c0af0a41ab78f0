import SolidityImports.Decimal.Shortest
import SolidityImports.Json.Basic
import SolidityImports.Text.Bytes

/-! # Writing JSON -/

namespace SolidityImports.Json

/-- How JSON is written. -/
structure Style where
  /-- What stands between two items or fields. -/
  betweenItems : Text
  /-- What stands between a key and its value. -/
  afterKey : Text
  /-- Whether every character beyond printing ASCII is escaped; otherwise only control characters
  are. -/
  onlyAscii : Bool

namespace Style

/-- The style of files of plain values. -/
def spaced : Style := ⟨[',', ' '], [':', ' '], true⟩

/-- The style of files of records. -/
def compact : Style := ⟨[','], [':'], false⟩

end Style

/-- The escape of a 16-bit unit. -/
def unitEscape (n : Nat) : Text := '\\' :: 'u' :: Text.hexDigits 4 n

/-- A character between quotes. -/
def charText (style : Style) (c : Char) : Text :=
  if c = '"' then ['\\', '"']
  else if c = '\\' then ['\\', '\\']
  else if c = '\x08' then ['\\', 'b']
  else if c = '\x0c' then ['\\', 'f']
  else if c = '\n' then ['\\', 'n']
  else if c = '\r' then ['\\', 'r']
  else if c = '\t' then ['\\', 't']
  else
    let n := c.toNat
    if n < 0x20 ∨ (style.onlyAscii ∧ 0x7E < n) then
      if n < 0x10000 then unitEscape n
      else unitEscape (0xD800 + (n - 0x10000) / 0x400) ++ unitEscape (0xDC00 + (n - 0x10000) % 0x400)
    else [c]

/-- Text between quotes. -/
def stringText (style : Style) (s : Text) : Text := '"' :: s.flatMap (charText style) ++ ['"']

/-- A decimal other than zero. From 0.0001 up to 10 ^ 16 it is written by place, with a digit behind
the point at least; otherwise with one digit before the point, and a power of ten with its sign and
two digits or more. -/
def decimalText (d : Binary64.Decimal) : Text :=
  let digits := Text.ofNat d.digits
  let point := digits.length + d.scale
  if -4 < point ∧ point ≤ 16 then
    if point ≤ 0 then '0' :: '.' :: List.replicate (-point).toNat '0' ++ digits
    else
      let whole := digits.take point.toNat
      let decimals := digits.drop point.toNat
      whole ++ List.replicate (point.toNat - digits.length) '0'
        ++ '.' :: if decimals = [] then ['0'] else decimals
  else
    let power := point - 1
    let decimals := digits.drop 1
    let powerDigits := Text.ofNat power.natAbs
    digits.take 1 ++ (if decimals = [] then [] else '.' :: decimals)
      ++ 'e' :: (if power < 0 then '-' else '+')
      :: List.replicate (2 - powerDigits.length) '0' ++ powerDigits

/-- A binary number: the fewest digits that read back. -/
def floatText (x : Binary64) : Text :=
  if x.isNaN then .of "NaN"
  else
    (if x.isNegative then ['-'] else [])
      ++ if !x.isFinite then .of "Infinity"
        else if x.magnitude = 0 then .of "0.0"
        else decimalText x.shortest

mutual

/-- A value as it is written. -/
def print (style : Style) : Json → Text
  | .null => .of "null"
  | .bool true => .of "true"
  | .bool false => .of "false"
  | .int n => Text.ofInt n
  | .float x => floatText x
  | .text s => stringText style s
  | .list items => '[' :: printItems style items ++ [']']
  | .object fields => '{' :: printFields style fields ++ ['}']

/-- The values of a list without the brackets. -/
def printItems (style : Style) : List Json → Text
  | [] => []
  | [v] => print style v
  | v :: w :: vs => print style v ++ style.betweenItems ++ printItems style (w :: vs)

/-- The fields of an object without the braces. -/
def printFields (style : Style) : List (Text × Json) → Text
  | [] => []
  | [(k, v)] => stringText style k ++ style.afterKey ++ print style v
  | (k, v) :: f :: fs =>
    stringText style k ++ style.afterKey ++ print style v ++ style.betweenItems
      ++ printFields style (f :: fs)

end

end SolidityImports.Json
