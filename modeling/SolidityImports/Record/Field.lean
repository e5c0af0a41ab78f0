import SolidityImports.Path.Basic
import SolidityImports.Record.Problem
import SolidityImports.Text.Blank

/-! # Fields of records

Text and paths are taken from text only. An integer is also taken from a number without a fraction,
from a truth value, and from text that holds one. -/

namespace SolidityImports

/-- White space around an integer in text: all but the information separators. -/
def isMargin (c : Char) : Bool := Text.isBlank c && !(0x1C ≤ c.toNat && c.toNat ≤ 0x1F)

/-- Whether two underscores stand together. -/
def hasDoubleUnderscore : Text → Bool
  | '_' :: '_' :: _ => true
  | _ :: s => hasDoubleUnderscore s
  | [] => false

/-- The number of a text of digits. Underscores may stand between them, two together only among the
zeros at the front. -/
def groupedDigits? (s : Text) : Option Nat :=
  let isPart (c : Char) : Bool := c.isDigit || c = '_'
  if s.all isPart && s.head?.any Char.isDigit && s.getLast?.any Char.isDigit
      && !hasDoubleUnderscore (s.dropWhile fun c ↦ c = '0' || c = '_') then
    some (Text.natValue (s.filter (· ≠ '_')))
  else none

/-- The integer that text holds: with a sign or without, maybe with a point and zeros behind it, and
with white space around it. -/
def integerOfText? (s : Text) : Option Int := do
  let s := ((s.dropWhile isMargin).reverse.dropWhile isMargin).reverse
  let (negative, s) :=
    match s with
    | '-' :: s => (true, s)
    | '+' :: s => (false, s)
    | s => (false, s)
  let n ← groupedDigits? (s.takeWhile (· ≠ '.'))
  if ((s.dropWhile (· ≠ '.')).drop 1).all (· = '0') then
    return if negative then -(n : Int) else n
  else none

namespace Checked

/-- A value that is text. -/
def text : Json → Checked Text
  | .text s => .ok s
  | _ => problem .notText

/-- A value that is the text of a path. -/
def path : Json → Checked Path
  | .text s => .ok (.ofText s)
  | _ => problem .notPath

/-- A value that stands for an integer. -/
def integer : Json → Checked Int
  | .int n => .ok n
  | .bool b => .ok (if b then 1 else 0)
  | .float x =>
    match x.toInt? with
    | some n => .ok n
    | none => if x.isFinite then problem .numberWithFraction else problem .numberNotFinite
  | .text s =>
    match integerOfText? s with
    | some n => .ok n
    | none => problem .textWithoutInteger
  | _ => problem .notInteger

end Checked

end SolidityImports
