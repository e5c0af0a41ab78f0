import SolidityImports.Path.Basic
import SolidityImports.Table
import SolidityImports.Text.Bytes

/-! # File trees

A tree of files is a finite table from locations to entries. Links are entries with a target text;
nothing follows them here. Main statements: looking up a location right after an insertion or a
removal. -/

namespace SolidityImports

/-- Where an entry is: the names from the root down. -/
abbrev Location := List FileName

/-- What stands at a location. -/
inductive Entry where
  | directory
  | file (content : Bytes)
  | link (target : Text)
deriving DecidableEq

/-- Files, links and directories below the root, and the directory that relative paths start
from. -/
structure FileTree where
  entries : List (Location × Entry)
  distinct : (entries.map Prod.fst).Nodup
  workDir : Location

namespace FileTree

/-- The entry at a location; the root is a directory. -/
def lookup (t : FileTree) (loc : Location) : Option Entry :=
  if loc = [] then some .directory else (t.entries.find? (·.1 = loc)).map Prod.snd

/-- Puts an entry at a location, in place of what stood there. -/
def insert (t : FileTree) (loc : Location) (e : Entry) : FileTree where
  entries := (loc, e) :: t.entries.filter (·.1 ≠ loc)
  distinct := by
    simp only [List.map_cons, List.nodup_cons]
    refine ⟨by simp, ?_⟩
    exact (List.filter_sublist.map Prod.fst).nodup t.distinct
  workDir := t.workDir

/-- Removes the entry at a location with all below it. -/
def erase (t : FileTree) (loc : Location) : FileTree where
  entries := t.entries.filter (!loc.isPrefixOf ·.1)
  distinct := (List.filter_sublist.map Prod.fst).nodup t.distinct
  workDir := t.workDir

/-- The entries right below a location, in the order of their names. -/
def children (t : FileTree) (loc : Location) : List (FileName × Entry) :=
  (t.entries.filterMap fun x ↦
    match x.1.getLast? with
    | some n => if x.1.dropLast = loc then some (n, x.2) else none
    | none => none).mergeSort fun a b ↦ a.1.text.le b.1.text

/-- The tree that holds a directory, to work in, and the directories above it. -/
def ofWorkDir (loc : Location) : FileTree :=
  (List.range loc.length).foldl (fun t n ↦ t.insert (loc.take (n + 1)) .directory)
    ⟨[], List.nodup_nil, loc⟩

@[simp] theorem lookup_nil (t : FileTree) : t.lookup [] = some .directory := rfl

@[simp] theorem lookup_insert_self (t : FileTree) {loc : Location} (h : loc ≠ []) (e : Entry) :
    (t.insert loc e).lookup loc = some e := by
  simp [lookup, insert, h]

theorem lookup_insert_of_ne (t : FileTree) {loc other : Location} (h : other ≠ loc) (e : Entry) :
    (t.insert loc e).lookup other = t.lookup other := by
  unfold lookup insert
  split
  · rfl
  · exact Table.get?_put_of_ne t.entries h e

@[simp] theorem workDir_insert (t : FileTree) (loc : Location) (e : Entry) :
    (t.insert loc e).workDir = t.workDir := rfl

end FileTree

end SolidityImports
