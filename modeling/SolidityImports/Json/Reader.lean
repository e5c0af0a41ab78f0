import SolidityImports.Json.Basic
import SolidityImports.Json.Encoding

/-! # Reading JSON

The reader takes the whole grammar, and beside it the words `NaN`, `Infinity` and `-Infinity`. Text
must not hold control characters. -/

namespace SolidityImports.Json

/-- Drops the white space between the parts of a value. -/
def skip (s : Text) : Text := s.dropWhile fun c ↦ c = ' ' || c = '\t' || c = '\n' || c = '\r'

/-- The number of four hexadecimal digits. -/
def fourDigits? : Text → Option (Nat × Text)
  | a :: b :: c :: d :: s => do
    let a ← Text.hexValue? a
    let b ← Text.hexValue? b
    let c ← Text.hexValue? c
    let d ← Text.hexValue? d
    return (4096 * a + 256 * b + 16 * c + d, s)
  | _ => none

/-- The character that an escape of one letter stands for. -/
def letterEscape? : Char → Option Char
  | '"' => some '"'
  | '\\' => some '\\'
  | '/' => some '/'
  | 'b' => some '\x08'
  | 'f' => some '\x0c'
  | 'n' => some '\n'
  | 'r' => some '\r'
  | 't' => some '\t'
  | _ => none

/-- Reads the escape of a code point behind `\u`. Two escapes for the halves of a surrogate pair
stand for one character; `half` is what half of a pair alone stands for, if it is allowed. -/
def codeEscape? (half : Option Char) (s : Text) : Option (Char × Text) := do
  let (n, s) ← fourDigits? s
  if isHighHalf n then
    match s with
    | '\\' :: 'u' :: s' =>
      let (low, s') ← fourDigits? s'
      if isLowHalf low then return (.ofNat (joinHalves n low), s') else half.map (·, s)
    | _ => half.map (·, s)
  else if isLowHalf n then half.map (·, s)
  else return (.ofNat n, s)

/-- Reads the first of the characters between the quotes, which may be escaped. -/
def character? (half : Option Char) : Text → Option (Char × Text)
  | [] => none
  | '\\' :: 'u' :: s => codeEscape? half s
  | '\\' :: c :: s => (letterEscape? c).map (·, s)
  | ['\\'] => none
  | c :: s => if c.toNat < 0x20 then none else some (c, s)

/-- Reads text up to the closing quote, at most `n` characters. -/
def characters? (half : Option Char) : Nat → Text → Option (Text × Text)
  | 0, _ => none
  | n + 1, s =>
    match s with
    | '"' :: s => some ([], s)
    | s => do
      let (c, s) ← character? half s
      let (cs, s) ← characters? half n s
      return (c :: cs, s)

/-- Reads text behind the opening quote. -/
def string? (half : Option Char) (s : Text) : Option (Text × Text) :=
  characters? half (s.length + 1) s

/-- Splits off the digits at the front. -/
def digits (s : Text) : Text × Text := (s.takeWhile Char.isDigit, s.dropWhile Char.isDigit)

/-- The digits of a whole number: a zero alone, or digits that start with another. -/
def wholePart? (s : Text) : Option (Text × Text) :=
  match s with
  | '0' :: s => some (['0'], s)
  | s =>
    match digits s with
    | ([], _) => none
    | found => some found

/-- The digits behind a point; none if no digit follows it. -/
def fraction (s : Text) : Text × Text :=
  match s with
  | '.' :: s' => if (digits s').1 = [] then ([], s) else digits s'
  | _ => ([], s)

/-- The power of ten behind the letter `e`, if digits follow it. -/
def power (s : Text) : Option Int × Text :=
  match s with
  | e :: s' =>
    if e = 'e' ∨ e = 'E' then
      let (negative, s') :=
        match s' with
        | '-' :: s' => (true, s')
        | '+' :: s' => (false, s')
        | s' => (false, s')
      match digits s' with
      | ([], _) => (none, s)
      | (ds, rest) => (some (if negative then -(Text.natValue ds : Int) else Text.natValue ds), rest)
    else (none, s)
  | [] => (none, s)

/-- Reads a number without its sign. -/
def unsigned? (negative : Bool) (s : Text) : Option (Json × Text) := do
  let (whole, s) ← wholePart? s
  let (decimals, s) := fraction s
  let (scale, s) := power s
  if decimals = [] ∧ scale = none then
    let n : Int := Text.natValue whole
    return (.int (if negative then -n else n), s)
  else
    return (.float (.ofDecimal negative (Text.natValue (whole ++ decimals))
      (scale.getD 0 - decimals.length)), s)

/-- The values that are written as a word. -/
def words : List (Text × Json) :=
  [ (.of "null", .null), (.of "true", .bool true), (.of "false", .bool false),
    (.of "NaN", .float .nan), (.of "Infinity", .float (.infinity false)),
    (.of "-Infinity", .float (.infinity true)) ]

/-- Reads a word or a number. -/
def atom? (s : Text) : Option (Json × Text) :=
  match words.findSome? fun (w, v) ↦ (Text.after? w s).map (v, ·) with
  | some found => some found
  | none =>
    match s with
    | '-' :: s => unsigned? true s
    | s => unsigned? false s

mutual

/-- Reads a value with at most `n` steps down or along a list. -/
def value? (half : Option Char) : Nat → Text → Option (Json × Text)
  | 0, _ => none
  | n + 1, s =>
    match s with
    | '"' :: s => (string? half s).map fun (t, s) ↦ (.text t, s)
    | '[' :: s =>
      match skip s with
      | ']' :: s => some (.list [], s)
      | s => (items? half n s).map fun (vs, s) ↦ (.list vs, s)
    | '{' :: s =>
      match skip s with
      | '}' :: s => some (.object [], s)
      | s => (fields? half n s).map fun (fs, s) ↦ (ofFields fs, s)
    | s => atom? s

/-- Reads the values of a list up to its closing bracket. -/
def items? (half : Option Char) : Nat → Text → Option (List Json × Text)
  | 0, _ => none
  | n + 1, s => do
    let (v, s) ← value? half n s
    match skip s with
    | ']' :: s => return ([v], s)
    | ',' :: s =>
      let (vs, s) ← items? half n (skip s)
      return (v :: vs, s)
    | _ => none

/-- Reads the fields of an object up to its closing brace. -/
def fields? (half : Option Char) : Nat → Text → Option (List (Text × Json) × Text)
  | 0, _ => none
  | n + 1, s => do
    let s ← Text.after? ['"'] s
    let (key, s) ← string? half s
    let s ← Text.after? [':'] (skip s)
    let (v, s) ← value? half n (skip s)
    match skip s with
    | '}' :: s => return ([(key, v)], s)
    | ',' :: s =>
      let (fs, s) ← fields? half n (skip s)
      return ((key, v) :: fs, s)
    | _ => none

end

/-- Reads a text that holds one value and nothing else. -/
def parse? (half : Option Char) (s : Text) : Option Json := do
  let (v, s) ← value? half (2 * s.length + 2) (skip s)
  if skip s = [] then return v else none

end SolidityImports.Json
