import SolidityImports.Text.Bytes

/-! # The encoding of a JSON file

A file may be in UTF-8, UTF-16 or UTF-32, with or without a byte order mark: since JSON starts with
ASCII, the places of the zero bytes at the front tell which. Half of a surrogate pair, which no text
can hold, reads as the replacement character. -/

namespace SolidityImports.Json

/-- What stands for half of a surrogate pair. -/
def replacement : Char := '\uFFFD'

/-- The character of a code point; `none` beyond the last one. -/
def charOf? (n : Nat) : Option Char :=
  if n.isValidChar then some (.ofNat n)
  else if 0xD800 ≤ n ∧ n < 0xE000 then some replacement
  else none

/-- The order of the bytes of a number. -/
inductive ByteOrder where
  | highFirst
  | lowFirst

/-- The number that bytes stand for. -/
def ByteOrder.number : ByteOrder → Bytes → Nat
  | .highFirst, b => b.foldl (fun n x ↦ 256 * n + x.toNat) 0
  | .lowFirst, b => b.foldr (fun x n ↦ 256 * n + x.toNat) 0

/-- The 16-bit units of a file. -/
def units16? (order : ByteOrder) : Bytes → Option (List Nat)
  | [] => some []
  | [_] => none
  | a :: b :: rest => (units16? order rest).map (order.number [a, b] :: ·)

/-- The 32-bit units of a file. -/
def units32? (order : ByteOrder) : Bytes → Option (List Nat)
  | [] => some []
  | a :: b :: c :: d :: rest => (units32? order rest).map (order.number [a, b, c, d] :: ·)
  | _ => none

/-- Whether a unit is the first half of a surrogate pair. -/
def isHighHalf (n : Nat) : Bool := 0xD800 ≤ n && n < 0xDC00

/-- Whether a unit is the second half of a surrogate pair. -/
def isLowHalf (n : Nat) : Bool := 0xDC00 ≤ n && n < 0xE000

/-- The code point of a surrogate pair. -/
def joinHalves (high low : Nat) : Nat := 0x10000 + (high - 0xD800) * 0x400 + (low - 0xDC00)

/-- Joins the pairs of halves in 16-bit units. -/
def joinPairs : List Nat → List Nat
  | [] => []
  | [n] => [n]
  | high :: low :: rest =>
    if isHighHalf high && isLowHalf low then joinHalves high low :: joinPairs rest
    else high :: joinPairs (low :: rest)

/-- Replaces the three bytes that half of a pair would have in UTF-8. -/
def replaceHalves : Bytes → Bytes
  | 0xED :: b :: c :: rest =>
    if 0xA0 ≤ b ∧ b < 0xC0 ∧ 0x80 ≤ c ∧ c < 0xC0 then 0xEF :: 0xBF :: 0xBD :: replaceHalves rest
    else 0xED :: replaceHalves (b :: c :: rest)
  | b :: rest => b :: replaceHalves rest
  | [] => []

/-- The text of a file in UTF-8. -/
def ofBytes8? (b : Bytes) : Option Text := Text.ofUtf8? (replaceHalves b)

/-- The text of a file in UTF-16. -/
def ofBytes16? (order : ByteOrder) (b : Bytes) : Option Text := do
  (joinPairs (← units16? order b)).mapM charOf?

/-- The text of a file in UTF-32. -/
def ofBytes32? (order : ByteOrder) (b : Bytes) : Option Text := do
  (← units32? order b).mapM charOf?

/-- The text of a file in the encoding that its first bytes show. -/
def decode? (b : Bytes) : Option Text :=
  if [0x00, 0x00, 0xFE, 0xFF].isPrefixOf b then ofBytes32? .highFirst (b.drop 4)
  else if [0xFF, 0xFE, 0x00, 0x00].isPrefixOf b then ofBytes32? .lowFirst (b.drop 4)
  else if [0xFE, 0xFF].isPrefixOf b then ofBytes16? .highFirst (b.drop 2)
  else if [0xFF, 0xFE].isPrefixOf b then ofBytes16? .lowFirst (b.drop 2)
  else if [0xEF, 0xBB, 0xBF].isPrefixOf b then ofBytes8? (b.drop 3)
  else
    match b with
    | first :: second :: third :: fourth :: _ =>
      if first = 0 then
        if second = 0 then ofBytes32? .highFirst b else ofBytes16? .highFirst b
      else if second = 0 then
        if third = 0 ∧ fourth = 0 then ofBytes32? .lowFirst b else ofBytes16? .lowFirst b
      else ofBytes8? b
    | [first, second] =>
      if first = 0 then ofBytes16? .highFirst b
      else if second = 0 then ofBytes16? .lowFirst b
      else ofBytes8? b
    | _ => ofBytes8? b

end SolidityImports.Json
