import SolidityImports.Path.Basic

/-! # Imports

What a source imports, and what an import resolves to. -/

namespace SolidityImports

/-- A name that an import statement binds with `as`: to one symbol of the imported file, or to the
whole file. -/
structure Binding where
  name : Text
  target : Option Text
deriving DecidableEq

/-- The literal of an import statement, with the range of its UTF-8 bytes in the source and the
names that the statement binds. -/
structure ImportLiteral where
  text : Text
  bindings : List Binding
  start : Int
  stop : Int
deriving DecidableEq

/-- The rules by which an import is looked up, in the order in which they are tried. -/
inductive Tier where
  /-- From the directory of the importing source. -/
  | relative
  /-- Below a library root. -/
  | library
  /-- From a directory above the importing source. -/
  | absolute
  /-- From the root of the project. -/
  | root
deriving DecidableEq

namespace Tier

/-- All tiers, in order. -/
def all : List Tier := [.relative, .library, .absolute, .root]

/-- The word for a tier. -/
def text : Tier → Text
  | .relative => .of "relative"
  | .library => .of "library"
  | .absolute => .of "absolute"
  | .root => .of "root"

/-- The tier that a word names. -/
def ofText? (s : Text) : Option Tier := all.find? (·.text = s)

@[simp] theorem ofText?_text (tier : Tier) : ofText? tier.text = some tier := by
  cases tier <;> decide

end Tier

/-- A place where an import was looked for. -/
structure Attempt where
  tier : Text
  candidate : Path
deriving DecidableEq

/-- Where an import was found. -/
structure Resolution where
  importPath : Text
  /-- The path at which the import was found. -/
  path : Path
  /-- The canonical form of that path. -/
  canonical : Path
  kind : Tier
  /-- The directory that the import continues, if it was found above the importing source. -/
  includePath : Option Path
deriving DecidableEq

end SolidityImports
