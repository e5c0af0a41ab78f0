import SolidityImports.Compiler.Version
import SolidityImports.Error

/-! # Installed compilers

Every installed compiler has a directory named as its version. -/

namespace SolidityImports

/-- Whether the entry of a directory at a path is a directory. Only a link has to be followed along
the path. -/
def FileTree.isDirectoryAt (t : FileTree) (p : Path) : Entry → Bool
  | .directory => true
  | .link _ => t.leadsToDirectory p.text
  | .file _ => false

namespace VersionScheme

variable {V : Type} (S : VersionScheme V) (t : FileTree) (root : Path)

/-- The version that an entry below a path is the directory of. -/
def versionAt? (x : FileName × Entry) : Option V :=
  if t.isDirectoryAt (root.child x.1) x.2 then S.ofName? x.1.text else none

/-- The versions that have a directory among the entries below a path, in ascending order. -/
def versionsAmong (entries : List (FileName × Entry)) : List V :=
  (entries.filterMap (S.versionAt? t root)).mergeSort S.le

/-- The versions that have a directory below a path; none if the path cannot be listed. -/
def installed : Except Error (List V) :=
  match t.list root.text with
  | .error .nul => .error .nulInPath
  | .error _ => .ok []
  | .ok entries => .ok (S.versionsAmong t root entries)

end VersionScheme

/-- The versions of the compilers that are installed below a path. -/
def FileTree.installedVersions (t : FileTree) (root : Path) : Except Error (List Version) :=
  Version.scheme.installed t root

end SolidityImports
