import Mathlib.Data.List.Induction
import SolidityImports.Proofs.FileTree.NulFree
import SolidityImports.Proofs.Text.Order

/-! # File systems

Not every table of entries is a file system: there, an entry stands in a directory, names are short,
neither names nor links hold a NUL character, and the working directory exists. Main statements: the
children of a directory are the entries that stand right below it, and all above an entry are
directories. -/

namespace SolidityImports.FileTree

variable {t : FileTree}

/-- What every file system keeps to. -/
structure IsFileSystem (t : FileTree) : Prop where
  parent : ∀ x ∈ t.entries, t.lookup x.1.dropLast = some .directory
  name : ∀ x ∈ t.entries, ∀ n ∈ x.1, '\x00' ∉ n.text ∧ n.text.utf8Size ≤ 255
  link : t.NulFree
  workDir : t.lookup t.workDir = some .directory

instance (t : FileTree) : Decidable t.IsFileSystem :=
  decidable_of_iff
    ((∀ x ∈ t.entries, t.lookup x.1.dropLast = some .directory) ∧
      (∀ x ∈ t.entries, ∀ n ∈ x.1, '\x00' ∉ n.text ∧ n.text.utf8Size ≤ 255) ∧
      t.NulFree ∧ t.lookup t.workDir = some .directory)
    ⟨fun h ↦ ⟨h.1, h.2.1, h.2.2.1, h.2.2.2⟩, fun h ↦ ⟨h.parent, h.name, h.link, h.workDir⟩⟩

/-- Below the root, the entry at a location is the one that the table has for it. -/
theorem lookup_eq_some_iff {loc : Location} (hloc : loc ≠ []) {e : Entry} :
    t.lookup loc = some e ↔ (loc, e) ∈ t.entries := by
  unfold lookup
  rw [if_neg hloc, Option.map_eq_some_iff]
  constructor
  · rintro ⟨x, hx, rfl⟩
    obtain rfl : x.1 = loc := by simpa using List.find?_some hx
    exact List.mem_of_find?_eq_some hx
  · exact fun hmem ↦ ⟨(loc, e), find?_key_of_mem t.distinct hmem, rfl⟩

/-! ## What stands right below a location -/

/-- The name and the entry, if it stands right below a location. -/
def childOf? (loc : Location) (x : Location × Entry) : Option (FileName × Entry) :=
  match x.1.getLast? with
  | some n => if x.1.dropLast = loc then some (n, x.2) else none
  | none => none

theorem childOf?_eq_some_iff {loc : Location} {x : Location × Entry} {n : FileName} {e : Entry} :
    childOf? loc x = some (n, e) ↔ x = (loc ++ [n], e) := by
  obtain ⟨above, e'⟩ := x
  induction above using List.reverseRecOn with
  | nil => simp [childOf?]
  | append_singleton above m _ =>
    have hkey : above ++ [m] = loc ++ [n] ↔ above = loc ∧ m = n := by simp
    rw [Prod.mk.injEq, hkey]
    simp only [childOf?, List.getLast?_concat, List.dropLast_concat]
    by_cases habove : above = loc <;> simp [habove]

theorem children_eq (t : FileTree) (loc : Location) : t.children loc =
    (t.entries.filterMap (childOf? loc)).mergeSort fun a b ↦ a.1.text.le b.1.text := rfl

theorem mem_children_iff {loc : Location} {n : FileName} {e : Entry} :
    (n, e) ∈ t.children loc ↔ t.lookup (loc ++ [n]) = some e := by
  rw [children_eq, List.mem_mergeSort, List.mem_filterMap,
    lookup_eq_some_iff (List.concat_ne_nil n loc)]
  simp only [childOf?_eq_some_iff, exists_eq_right]

/-- The entries of a directory are in the order of their names. -/
theorem pairwise_children (t : FileTree) (loc : Location) :
    (t.children loc).Pairwise fun x y ↦ x.1.text ≤ y.1.text :=
  Text.pairwise_mergeSort (fun x : FileName × Entry ↦ x.1.text) _

/-- No two entries of a directory share their name. -/
theorem nodup_children (t : FileTree) (loc : Location) : ((t.children loc).map Prod.fst).Nodup := by
  have hdistinct : t.entries.Pairwise fun x y ↦ x.1 ≠ y.1 := List.pairwise_map.1 t.distinct
  rw [children_eq, ((List.mergeSort_perm _ _).map _).nodup_iff]
  refine List.pairwise_map.2 (List.pairwise_filterMap.2 (hdistinct.imp ?_))
  rintro x y hne ⟨n, e⟩ hn ⟨m, e'⟩ hm rfl
  rw [childOf?_eq_some_iff.1 hn, childOf?_eq_some_iff.1 hm] at hne
  exact hne rfl

/-! ## File systems -/

namespace IsFileSystem

/-- An entry stands in a directory. -/
theorem lookup_dropLast (ht : t.IsFileSystem) {loc : Location} {e : Entry}
    (h : t.lookup loc = some e) : t.lookup loc.dropLast = some .directory := by
  by_cases hloc : loc = []
  · subst hloc
    rfl
  · exact ht.parent _ ((lookup_eq_some_iff hloc).1 h)

theorem lookup_of_concat (ht : t.IsFileSystem) {loc : Location} {n : FileName} {e : Entry}
    (h : t.lookup (loc ++ [n]) = some e) : t.lookup loc = some .directory := by
  have hparent := ht.lookup_dropLast h
  rwa [List.dropLast_concat] at hparent

/-- All above an entry are directories. -/
theorem lookup_of_prefix (ht : t.IsFileSystem) {above loc : Location} {e : Entry}
    (h : t.lookup loc = some e) (hpart : above <+: loc) (hne : above ≠ loc) :
    t.lookup above = some .directory := by
  induction loc using List.reverseRecOn generalizing e with
  | nil => exact absurd (List.prefix_nil.1 hpart) hne
  | append_singleton loc n ih =>
    have hloc := ht.lookup_of_concat h
    rcases List.prefix_concat_iff.1 hpart with rfl | hpart
    · exact absurd rfl hne
    · by_cases heq : above = loc
      · rwa [heq]
      · exact ih hloc hpart heq

theorem nul_not_mem (ht : t.IsFileSystem) {loc : Location} {e : Entry} (h : t.lookup loc = some e)
    {n : FileName} (hn : n ∈ loc) : '\x00' ∉ n.text :=
  (ht.name _ ((lookup_eq_some_iff (List.ne_nil_of_mem hn)).1 h) n hn).1

theorem utf8Size_le (ht : t.IsFileSystem) {loc : Location} {e : Entry} (h : t.lookup loc = some e)
    {n : FileName} (hn : n ∈ loc) : n.text.utf8Size ≤ 255 :=
  (ht.name _ ((lookup_eq_some_iff (List.ne_nil_of_mem hn)).1 h) n hn).2

end IsFileSystem

/-! ## Small file systems

Trees on which the results about paths and imports are tried. -/

/-- A file, a link to it and a link to itself. -/
def linkBesideFile : FileTree where
  entries :=
    [([⟨.of "w", by decide⟩], .directory),
      ([⟨.of "w", by decide⟩, ⟨.of "a", by decide⟩], .file []),
      ([⟨.of "w", by decide⟩, ⟨.of "b", by decide⟩], .link (.of "../w/./a")),
      ([⟨.of "w", by decide⟩, ⟨.of "c", by decide⟩], .link (.of "c"))]
  distinct := by decide
  workDir := [⟨.of "w", by decide⟩]

/-- A file in the working directory and one in a library below it. -/
def fileBesideLibrary : FileTree where
  entries :=
    [([⟨.of "w", by decide⟩], .directory),
      ([⟨.of "w", by decide⟩, ⟨.of "a", by decide⟩], .file []),
      ([⟨.of "w", by decide⟩, ⟨.of "lib", by decide⟩], .directory),
      ([⟨.of "w", by decide⟩, ⟨.of "lib", by decide⟩, ⟨.of "b", by decide⟩], .file [])]
  distinct := by decide
  workDir := [⟨.of "w", by decide⟩]

/-- A directory with a source, a link that leads nowhere and a link back to the directory itself. -/
def loopedDirectory : FileTree where
  entries :=
    [([⟨.of "w", by decide⟩], .directory),
      ([⟨.of "w", by decide⟩, ⟨.of "A.sol", by decide⟩], .file []),
      ([⟨.of "w", by decide⟩, ⟨.of "B.sol", by decide⟩], .link (.of "missing")),
      ([⟨.of "w", by decide⟩, ⟨.of "up", by decide⟩], .link (.of "../w"))]
  distinct := by decide
  workDir := [⟨.of "w", by decide⟩]

/-- A tree with a library, a second name for it, and a source beside it. -/
def linkedLibrary : FileTree where
  entries :=
    [([⟨.of "w", by decide⟩], .directory),
      ([⟨.of "w", by decide⟩, ⟨.of "lib", by decide⟩], .directory),
      ([⟨.of "w", by decide⟩, ⟨.of "lib", by decide⟩, ⟨.of "erc", by decide⟩], .directory),
      ([⟨.of "w", by decide⟩, ⟨.of "lib", by decide⟩, ⟨.of "erc", by decide⟩,
        ⟨.of "src", by decide⟩], .directory),
      ([⟨.of "w", by decide⟩, ⟨.of "lib", by decide⟩, ⟨.of "erc", by decide⟩,
        ⟨.of "src", by decide⟩, ⟨.of "A.sol", by decide⟩], .file []),
      ([⟨.of "w", by decide⟩, ⟨.of "lib", by decide⟩, ⟨.of "token", by decide⟩],
        .link (.of "./erc"))]
  distinct := by decide
  workDir := [⟨.of "w", by decide⟩]

/-- A project with two library roots, of which the first has a directory that is named like a source
in the second. -/
def directoryBeforeFile : FileTree where
  entries :=
    [([⟨.of "w", by decide⟩], .directory),
      ([⟨.of "w", by decide⟩, ⟨.of "lib", by decide⟩], .directory),
      ([⟨.of "w", by decide⟩, ⟨.of "lib", by decide⟩, ⟨.of "A.sol", by decide⟩], .directory),
      ([⟨.of "w", by decide⟩, ⟨.of "vendor", by decide⟩], .directory),
      ([⟨.of "w", by decide⟩, ⟨.of "vendor", by decide⟩, ⟨.of "A.sol", by decide⟩], .file []),
      ([⟨.of "w", by decide⟩, ⟨.of "vendor", by decide⟩, ⟨.of "B.sol", by decide⟩], .file [])]
  distinct := by decide
  workDir := [⟨.of "w", by decide⟩]

end SolidityImports.FileTree
