import Mathlib.Data.List.Sort
import SolidityImports.Compiler.Installed
import SolidityImports.Proofs.Compiler.Version
import SolidityImports.Proofs.FileTree.Stat

/-! # Installed versions

The entries of a directory come in no particular order, and the scheme compares versions in its own
way. Main statement: of all directories that are named as a version each one is found, once and in the
order of the numbers, however the entries are listed. -/

namespace SolidityImports

open Text

variable {t : FileTree} {root : Path}

namespace FileTree

variable {dir : Location} {n : FileName} {name : Text} {e : Entry}

/-! ## Directories by their names -/

/-- Whether a directory that can be listed has an entry of this name which is a directory, or a link
that leads to one. -/
def ListsDirectory (t : FileTree) (root : Path) (name : Text) : Prop :=
  ∃ dir n, t.stat root.text = .ok (dir, .directory) ∧ n.text = name ∧
    (t.lookup (dir ++ [n]) = some .directory ∨
      (∃ target, t.lookup (dir ++ [n]) = some (.link target)) ∧
        t.leadsToDirectory (root.child n).text)

theorem isDirectoryAt_iff {p : Path} : t.isDirectoryAt p e ↔
    e = .directory ∨ (∃ target, e = .link target) ∧ t.leadsToDirectory p.text := by
  cases e <;> simp [isDirectoryAt]

/-- Of a directory that can be listed, the entries that are taken for directories are those that lead
to one. -/
theorem listsDirectory_iff (hdir : t.stat root.text = .ok (dir, .directory)) :
    t.ListsDirectory root name ↔ ∃ n e, (n, e) ∈ t.children dir ∧
      t.isDirectoryAt (root.child n) e ∧ n.text = name := by
  simp only [mem_children_iff, isDirectoryAt_iff]
  constructor
  · rintro ⟨dir', n, hdir', hname, hentry⟩
    obtain rfl := eq_of_stat_directory hdir hdir'
    rcases hentry with hentry | ⟨⟨target, hlink⟩, hleads⟩
    · exact ⟨n, _, hentry, .inl rfl, hname⟩
    · exact ⟨n, _, hlink, .inr ⟨⟨target, rfl⟩, hleads⟩, hname⟩
  · rintro ⟨n, e, hfound, rfl | ⟨⟨target, rfl⟩, hleads⟩, hname⟩
    · exact ⟨dir, n, hdir, hname, .inl hfound⟩
    · exact ⟨dir, n, hdir, hname, .inr ⟨⟨target, hfound⟩, hleads⟩⟩

/-- If the path is not too long, these are the names from which a path leads on to a directory. -/
theorem listsDirectory_text_iff (ht : t.IsFileSystem)
    (hsize : (root.child n).text.utf8Size ≤ 4095) :
    t.ListsDirectory root n.text ↔ t.leadsToDirectory (root.child n).text := by
  constructor
  · rintro ⟨dir, m, hdir, hname, hentry⟩
    obtain rfl := FileName.text_injective hname
    rcases hentry with hentry | ⟨-, hleads⟩
    · exact leadsToDirectory_iff.2 ⟨_, stat_child ht hdir hsize hentry fun _ ↦ Entry.noConfusion⟩
    · exact hleads
  · intro hleads
    obtain ⟨loc, hloc⟩ := leadsToDirectory_iff.1 hleads
    obtain ⟨dir, hdir, e, he⟩ := exists_stat_of_stat_child hloc
    refine ⟨dir, n, hdir, rfl, ?_⟩
    cases e with
    | directory => exact .inl he
    | link target => exact .inr ⟨⟨target, he⟩, hleads⟩
    | file content =>
      have hfile := stat_child ht hdir hsize he fun _ ↦ Entry.noConfusion
      rw [hloc] at hfile
      cases hfile

end FileTree

namespace VersionScheme

variable {V : Type} {S : VersionScheme V} {final : List Nat → V}
  {entries listed : List (FileName × Entry)} {v : V}

/-! ## Sorting -/

/-- Different versions are sorted by their numbers. -/
theorem pairwise_mergeSort (hS : S.IsLawful final) {vs : List V}
    (hread : ∀ v ∈ vs, ∃ s, S.ofName? s = some v) (hdistinct : (vs.map S.release).Nodup) :
    (vs.mergeSort S.le).Pairwise fun v w ↦ S.release v < S.release w := by
  have hkeys : (vs.mergeSort S.le).map S.release =
      (vs.map S.release).mergeSort fun a b ↦ decide (a ≤ b) := by
    refine List.map_mergeSort fun v hv w hw ↦ ?_
    obtain ⟨s, hs⟩ := hread v hv
    obtain ⟨s', hs'⟩ := hread w hw
    rw [Bool.eq_iff_iff, decide_eq_true_eq]
    exact le_iff_of_ofName? hS hs hs'
  have hsorted := (vs.map S.release).pairwise_mergeSort' (· ≤ ·)
  have hnodup := (List.mergeSort_perm (vs.map S.release) fun a b ↦ decide (a ≤ b)).nodup_iff.2
    hdistinct
  rw [← hkeys] at hsorted hnodup
  exact List.pairwise_map.1 ((hsorted.and hnodup).imp fun h ↦ lt_of_le_of_ne h.1 h.2)

/-! ## Versions among entries -/

theorem mem_versionsAmong_iff : v ∈ S.versionsAmong t root entries ↔ ∃ n e, (n, e) ∈ entries ∧
    t.isDirectoryAt (root.child n) e ∧ S.ofName? n.text = some v := by
  simp [versionsAmong, versionAt?]

/-- Among entries with different names, the versions ascend in their numbers. -/
theorem pairwise_versionsAmong (hS : S.IsLawful final) (h : (entries.map Prod.fst).Nodup) :
    (S.versionsAmong t root entries).Pairwise fun v w ↦ S.release v < S.release w := by
  refine pairwise_mergeSort hS (fun v hv ↦ ?_) ?_
  · obtain ⟨⟨n, e⟩, -, hread⟩ := List.mem_filterMap.1 hv
    exact ⟨n.text, (Option.ite_none_right_eq_some.1 hread).2⟩
  · rw [List.Nodup, List.pairwise_map, List.pairwise_filterMap]
    refine (List.pairwise_map.1 h).imp ?_
    rintro ⟨n, e⟩ ⟨m, e'⟩ hne v hv w hw heq
    exact hne (FileName.text_injective (eq_of_release_eq hS (Option.ite_none_right_eq_some.1 hv).2
      (Option.ite_none_right_eq_some.1 hw).2 heq))

/-- The order in which the entries are listed makes no difference. -/
theorem versionsAmong_perm (hS : S.IsLawful final) (h : (entries.map Prod.fst).Nodup)
    (hperm : listed.Perm entries) :
    S.versionsAmong t root listed = S.versionsAmong t root entries := by
  have hfound : (S.versionsAmong t root listed).Perm (S.versionsAmong t root entries) :=
    (List.mergeSort_perm _ _).trans ((hperm.filterMap _).trans (List.mergeSort_perm _ _).symm)
  refine hfound.eq_of_pairwise (fun v w _ _ hlt hgt ↦ absurd (hlt.trans hgt) (lt_irrefl _)) ?_
    (pairwise_versionsAmong hS h)
  exact pairwise_versionsAmong hS ((hperm.map _).nodup_iff.2 h)

/-- The versions of a directory that can be listed are those that a directory in it is named as. -/
theorem mem_versionsAmong_children_iff (hS : S.IsLawful final) {dir : Location}
    (hdir : t.stat root.text = .ok (dir, .directory)) :
    v ∈ S.versionsAmong t root (t.children dir) ↔ ∃ major minor patch : Nat,
      v = final [major, minor, patch] ∧ S.release v = [major, minor, patch] ∧
      S.text v = joinWith ['.'] [ofNat major, ofNat minor, ofNat patch] ∧
      t.ListsDirectory root (S.text v) := by
  simp only [mem_versionsAmong_iff, FileTree.listsDirectory_iff hdir]
  constructor
  · rintro ⟨n, e, hmem, hdirectory, hread⟩
    obtain ⟨major, minor, patch, hv, hrelease, htext, hform⟩ := exists_of_ofName? hS hread
    exact ⟨major, minor, patch, hv, hrelease, htext.trans hform, n, e, hmem, hdirectory, htext.symm⟩
  · rintro ⟨major, minor, patch, rfl, -, htext, n, e, hmem, hdirectory, hname⟩
    refine ⟨n, e, hmem, hdirectory, ?_⟩
    rw [hname, htext]
    exact ofName?_text hS major minor patch

/-! ## Installed versions -/

theorem installed_of_list_eq_error {f : Fault} (h : t.list root.text = .error f) (hf : f ≠ .nul) :
    S.installed t root = .ok [] := by
  unfold installed
  rw [h]
  cases f <;> first | rfl | contradiction

/-- The listing holds the versions of exactly the directories that are named as a version, strictly
ascending in their numbers, in whatever order the entries come; it is empty if there is nothing to
list. -/
theorem installed_exact (hS : S.IsLawful final) (hroot : '\x00' ∉ root.text) :
    ∃ vs, S.installed t root = .ok vs ∧
      vs.Pairwise (fun v w ↦ S.release v < S.release w) ∧
      (∀ v, v ∈ vs ↔ ∃ major minor patch : Nat,
        v = final [major, minor, patch] ∧ S.release v = [major, minor, patch] ∧
        S.text v = joinWith ['.'] [ofNat major, ofNat minor, ofNat patch] ∧
        t.ListsDirectory root (S.text v)) ∧
      (∀ entries, t.list root.text = .ok entries → ∀ listed, listed.Perm entries →
        S.versionsAmong t root listed = vs) ∧
      ((∀ entries, t.list root.text ≠ .ok entries) → vs = []) := by
  cases hlist : t.list root.text with
  | error f =>
    have hf : f ≠ .nul := by
      rintro rfl
      exact hroot (FileTree.list_eq_nul_iff.1 hlist)
    refine ⟨[], installed_of_list_eq_error hlist hf, .nil, fun v ↦ ?_, ?_, fun _ ↦ rfl⟩
    · refine iff_of_false List.not_mem_nil ?_
      rintro ⟨-, -, -, -, -, -, dir, n, hdir, -⟩
      rw [FileTree.list_eq_ok_iff.2 ⟨dir, hdir, rfl⟩] at hlist
      cases hlist
    · rintro entries ⟨⟩
  | ok entries =>
    obtain ⟨dir, hdir, rfl⟩ := FileTree.list_eq_ok_iff.1 hlist
    have hnodup := t.nodup_children dir
    refine ⟨S.versionsAmong t root (t.children dir), ?_, pairwise_versionsAmong hS hnodup,
      fun v ↦ mem_versionsAmong_children_iff hS hdir, ?_, fun h ↦ absurd rfl (h _)⟩
    · unfold installed
      rw [hlist]
    · rintro entries ⟨⟩ listed hperm
      exact versionsAmong_perm hS hnodup hperm

/-- Of these names one is that of a file, and one has a zero in front of another digit. -/
def versionNames : FileTree where
  entries := [([⟨.of "0.4.24", by decide⟩], .link (.of "0.8.9")),
    ([⟨.of "0.8.9", by decide⟩], .directory), ([⟨.of "0.8.10", by decide⟩], .directory),
    ([⟨.of "0.8.11", by decide⟩], .file []), ([⟨.of "0.08.1", by decide⟩], .directory)]
  distinct := by decide
  workDir := []

/-- The other three are found, one of them by a link. -/
theorem installed_versionNames :
    Version.scheme.IsLawful Version.mk ∧ '\x00' ∉ Path.here.text ∧
      versionNames.installedVersions .here = .ok [⟨[0, 4, 24]⟩, ⟨[0, 8, 9]⟩, ⟨[0, 8, 10]⟩] ∧
      versionNames.ListsDirectory .here (.of "0.4.24") := by
  have hroot : '\x00' ∉ Path.here.text := by decide
  obtain ⟨vs, hvs, -, hmem, horder, -⟩ := installed_exact Version.isLawful_scheme hroot
  have hlist : versionNames.list Path.here.text = .ok (versionNames.children []) :=
    FileTree.list_eq_ok_iff.2 ⟨[], by decide, rfl⟩
  -- The entries are taken in the order of the table, in which the versions ascend.
  have hfound : (versionNames.entries.filterMap (FileTree.childOf? [])).filterMap
      (Version.scheme.versionAt? versionNames .here) =
        [⟨[0, 4, 24]⟩, ⟨[0, 8, 9]⟩, ⟨[0, 8, 10]⟩] := by decide +kernel
  have hperm : (versionNames.entries.filterMap (FileTree.childOf? [])).Perm
      (versionNames.children []) := (List.mergeSort_perm _ _).symm
  have htable := horder _ hlist _ hperm
  rw [versionsAmong, hfound, List.mergeSort_of_pairwise (by decide)] at htable
  subst htable
  obtain ⟨_, _, _, -, -, -, hlists⟩ := (hmem ⟨[0, 4, 24]⟩).1 List.mem_cons_self
  have hname : Version.scheme.text ⟨[0, 4, 24]⟩ = .of "0.4.24" := by decide +kernel
  rw [hname] at hlists
  exact ⟨Version.isLawful_scheme, hroot, hvs, hlists⟩

end VersionScheme

end SolidityImports
