import SolidityImports.Text.Numeral

/-! # Faults

Why an operation on a tree of files fails. -/

namespace SolidityImports

/-- The cause of a failed operation on files. -/
inductive Fault where
  /-- Nothing stands at the path. -/
  | missing
  /-- Something stands at the path already. -/
  | occupied
  /-- A segment that should lead further down is no directory. -/
  | notDirectory
  /-- A directory stands where a file should. -/
  | isDirectory
  /-- A name has more than 255 bytes, or the whole path more than 4095. -/
  | nameTooLong
  /-- The path leads through more than 40 links. -/
  | tooManyLinks
  /-- The path holds a NUL character, which no path can. -/
  | nul
deriving DecidableEq

namespace Fault

/-- The number of a fault. -/
def code : Fault → Nat
  | .missing => 2
  | .occupied => 17
  | .notDirectory => 20
  | .isDirectory => 21
  | .nul => 22
  | .nameTooLong => 36
  | .tooManyLinks => 40

/-- A fault in words. -/
def message : Fault → Text
  | .missing => .of "No such file or directory"
  | .occupied => .of "File exists"
  | .notDirectory => .of "Not a directory"
  | .isDirectory => .of "Is a directory"
  | .nameTooLong => .of "File name too long"
  | .tooManyLinks => .of "Too many levels of symbolic links"
  | .nul => .of "embedded null byte"

end Fault

end SolidityImports
