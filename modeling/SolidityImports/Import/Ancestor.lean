import SolidityImports.Error
import SolidityImports.Path.Ancestor
import SolidityImports.Path.Clean

/-! # Imports from a directory above

An import such as `src/Token.sol` may be written from any directory above its source. -/

namespace SolidityImports.FileTree

variable (t : FileTree)

/-- The clean form of an import written in a directory, which has to lead to an entry. -/
def normalize (directory : Path) (importPath : Text) : Except Error Path :=
  let joined := directory / Path.ofText importPath
  match t.stat joined.clean.text with
  | .ok _ => .ok joined.clean
  | .error f => .error (.file f.reason joined)

/-- The clean form of an import that exists when it is written in one of several directories, and
the first such directory. -/
def resolveAmong (directories : List Path) (importPath : Text) : Option (Path × Path) :=
  directories.findSome? fun directory ↦
    match t.normalize directory importPath with
    | .ok found => some (directory, found)
    | .error _ => none

/-- Looks an import up from the directories above `cwd` and below `root`, the nearest first. -/
def resolveAbove (root cwd : Path) (importPath : Text) : Option (Path × Path) :=
  t.resolveAmong (cwd.ancestorsBelow root) importPath

end SolidityImports.FileTree
