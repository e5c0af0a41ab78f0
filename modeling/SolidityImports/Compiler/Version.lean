import SolidityImports.Text.Digit
import SolidityImports.Text.Numeral

/-! # Compiler versions

A compiler is installed in a directory that is named as its version. Only names of three numbers
with points between them are read; how they are read, written and compared is left to a scheme of
versions. In the scheme that is used a version is a release and nothing else. -/

namespace SolidityImports

/-- A scheme of versions. -/
structure VersionScheme (V : Type) where
  /-- Reads a version, if the text is one. -/
  read? : Text → Option V
  /-- A version as it is written. -/
  text : V → Text
  /-- The numbers of the release, the most significant first. -/
  release : V → List Nat
  /-- The order of versions. -/
  le : V → V → Bool

/-- A number as it stands in the name of a directory: a zero alone, or decimal digits of any scripts
behind one of ASCII that is not zero. -/
def isNameNumber : Text → Bool
  | [] => false
  | c :: digits => c = '0' && digits = [] || c ≠ '0' && c.isDigit && digits.all Text.isDecimal

/-- Whether a directory is named like a version: by three numbers with points between them. -/
def isVersionName (name : Text) : Bool :=
  (name.pieces '.').length = 3 && (name.pieces '.').all isNameNumber

/-- Reads the name of a directory as a version. -/
def VersionScheme.ofName? {V : Type} (S : VersionScheme V) (name : Text) : Option V :=
  if isVersionName name then S.read? name else none

/-- A version that is a release and nothing else. -/
structure Version where
  numbers : List Nat
deriving DecidableEq

namespace Version

/-- A version as it is written. -/
def text (v : Version) : Text := Text.joinWith ['.'] (v.numbers.map Text.ofNat)

/-- Reads numbers in ASCII digits with points between them. -/
def read? (s : Text) : Option Version :=
  if (s.pieces '.').all Text.isDigits then some ⟨(s.pieces '.').map Text.natValue⟩ else none

/-- Numbers up to the last one that is not zero. -/
def dropLastZeros (numbers : List Nat) : List Nat := (numbers.reverse.dropWhile (· = 0)).reverse

/-- The order of versions by their numbers, the first difference first. Zeros at the end do not
count. -/
def le (a b : Version) : Bool := !(dropLastZeros b.numbers).lex (dropLastZeros a.numbers)

/-- The scheme of releases. -/
def scheme : VersionScheme Version := ⟨read?, text, numbers, le⟩

/-- Reads the name of a directory as a version. -/
def ofText? : Text → Option Version := scheme.ofName?

end Version

end SolidityImports
