import SolidityImports.Text.Ranges

/-! # White space

Which characters are blank, and text without blanks at its ends. -/

namespace SolidityImports.Text

/-- The ranges of white space: the ASCII blanks with the four information separators, the next-line
character, and the space, line and paragraph separators beyond ASCII. -/
def blankRanges : List (Nat × Nat) :=
  [(0x09, 0x0D), (0x1C, 0x20), (0x85, 0x85), (0xA0, 0xA0), (0x1680, 0x1680), (0x2000, 0x200A),
    (0x2028, 0x2029), (0x202F, 0x202F), (0x205F, 0x205F), (0x3000, 0x3000)]

/-- White space. -/
def isBlank (c : Char) : Bool := inRanges blankRanges c

/-- Splits off the blanks at the front, if any. -/
def takeBlanks (s : Text) : Text × Text := (s.takeWhile isBlank, s.dropWhile isBlank)

@[simp] theorem takeBlanks_append (s : Text) : (takeBlanks s).1 ++ (takeBlanks s).2 = s :=
  List.takeWhile_append_dropWhile

/-- Splits off the blanks at the front, of which there must be one. -/
def takeBlanks? (s : Text) : Option (Text × Text) :=
  if s.takeWhile isBlank = [] then none else some (takeBlanks s)

/-- Drops the blanks at the end. -/
def stripEnd (s : Text) : Text := (s.reverse.dropWhile isBlank).reverse

/-- Drops the blanks at both ends. -/
def strip (s : Text) : Text := stripEnd (s.dropWhile isBlank)

end SolidityImports.Text
