import SolidityImports.Proofs.FileTree.Lawful
import SolidityImports.Proofs.FileTree.Walk

/-! # Resolved paths

A path is resolved if it leads up and then down through entries that are no links. Main statements:
such a path leads to the location that it stands for, and its last entry is found there and nowhere
else. -/

namespace SolidityImports

namespace Path

theorem child_inj {p q : Path} {n m : FileName} : p.child n = q.child m ↔ p = q ∧ n = m := by
  constructor
  · intro h
    obtain ⟨hanchor, hsegments⟩ := Path.ext_iff.1 h
    obtain ⟨hinit, hlast⟩ := List.append_inj' hsegments rfl
    exact ⟨Path.ext hanchor hinit, Segment.name.inj (List.cons.inj hlast).1⟩
  · rintro ⟨rfl, rfl⟩
    rfl

end Path

namespace FileTree

variable {t : FileTree} {last : LastLink} {p q : Path} {n : FileName} {k : Nat}
  {rest : List Step} {loc : Location} {e : Entry}

/-! ## Where a path starts and what it stands for -/

/-- The directory that a path is read from. -/
def base (t : FileTree) (p : Path) : Location := if p.isRooted then [] else t.workDir

theorem start_eq_base (t : FileTree) (s : Text) : start t.workDir s = t.base (.ofText s) := by
  unfold start base
  simp [Path.isRooted_ofText]

@[simp] theorem base_child (t : FileTree) (p : Path) (n : FileName) :
    t.base (p.child n) = t.base p := rfl

@[simp] theorem located_child (t : FileTree) (p : Path) (n : FileName) :
    t.located (p.child n) = t.located p ++ [n] := by
  unfold located
  rw [Path.segments_child, List.foldl_append]
  rfl

theorem located_up (t : FileTree) (p : Path) :
    t.located ⟨p.anchor, p.segments ++ [.up]⟩ = (t.located p).dropLast := by
  unfold located
  rw [List.foldl_append]
  rfl

@[simp] theorem located_below (t : FileTree) (p : Path) (names : List FileName) :
    t.located (p.below names) = t.located p ++ names := by
  induction names generalizing p with
  | nil => simp
  | cons n names ih => simp [Path.below_cons, ih]

@[simp] theorem located_pathTo (t : FileTree) (loc : Location) : t.located (pathTo loc) = loc :=
  t.located_below ⟨.root, []⟩ loc

theorem child_pathTo (loc : Location) (n : FileName) :
    (pathTo loc).child n = pathTo (loc ++ [n]) := by
  simp [pathTo, Path.child]

theorem pathTo_injective : Function.Injective pathTo := by
  intro loc loc' h
  have hlocated := congrArg (located ⟨[], List.nodup_nil, []⟩) h
  rwa [located_pathTo, located_pathTo] at hlocated

/-- Finding a path is walking along its segments. -/
theorem find_text (t : FileTree) (last : LastLink) (p : Path) :
    t.find last p.text = if '\x00' ∈ p.text then .error .nul
      else if 4095 < p.text.utf8Size then .error .nameTooLong
      else t.walk last 40 (t.base p) p.steps := by
  have hwalk : t.walk last 40 (t.base p) (Step.listOfText p.text) =
      t.walk last 40 (t.base p) p.steps := by
    by_cases hsegments : p.segments = []
    · -- A bare anchor is written with `.` or with slashes, which lead nowhere.
      obtain ⟨anchor, segments⟩ := p
      obtain rfl : segments = [] := hsegments
      cases anchor with
      | relative => exact walk_stay
      | root => exact walk_slash
      | doubleRoot => exact walk_slash
    · rw [Path.listOfText_text hsegments]
  rw [find, if_neg p.text_ne_nil, start_eq_base, Path.ofText_text, hwalk]

/-! ## Resolved paths -/

/-- Whether a path leads up and then down through entries that are no links. -/
inductive IsResolved (t : FileTree) : Path → Prop
  | root : IsResolved t ⟨.root, []⟩
  | climb (k : Nat) : IsResolved t ⟨.relative, List.replicate k .up⟩
  | child {p : Path} {n : FileName} {e : Entry} (hp : IsResolved t p)
    (he : t.lookup (t.located p ++ [n]) = some e) (hlink : ∀ target, e ≠ .link target) :
    IsResolved t (p.child n)

theorem take_dropLast (loc : Location) (k : Nat) :
    loc.dropLast.take (loc.dropLast.length - k) = loc.take (loc.length - (k + 1)) := by
  rw [List.dropLast_eq_take, List.take_take, List.length_take]
  congr 1
  omega

/-- Steps up from the working directory end at the root. -/
theorem located_climb (t : FileTree) (k : Nat) :
    t.located ⟨.relative, List.replicate k .up⟩ = t.workDir.take (t.workDir.length - k) := by
  induction k with
  | zero => exact t.workDir.take_length.symm
  | succ k ih =>
    have hup := located_up t ⟨.relative, List.replicate k .up⟩
    rw [List.replicate_succ', hup, ih, List.dropLast_eq_take, List.take_take, List.length_take]
    congr 1
    omega

theorem walk_climb (climb : Nat) :
    t.walk last k loc (List.replicate climb .up ++ rest) =
      t.walk last k (loc.take (loc.length - climb)) rest := by
  induction climb generalizing loc with
  | zero => rw [Nat.sub_zero, List.take_length, List.replicate_zero, List.nil_append]
  | succ climb ih => rw [List.replicate_succ, List.cons_append, walk_up, ih, take_dropLast]

theorem ascend_climb (k : Nat) :
    ascend ⟨.relative, List.replicate k .up⟩ = ⟨.relative, List.replicate (k + 1) .up⟩ := by
  cases k with
  | zero => rfl
  | succ k => simp [ascend, List.replicate_succ', List.getLast?_append]

@[simp] theorem ascend_child (p : Path) (n : FileName) : ascend (p.child n) = p := by
  simp [ascend, Path.parent]

namespace IsResolved

theorem ascend (hp : t.IsResolved p) : t.IsResolved (ascend p) := by
  cases hp with
  | root => exact .root
  | climb k =>
    rw [ascend_climb]
    exact .climb (k + 1)
  | child hp he hlink =>
    rw [ascend_child]
    exact hp

theorem located_ascend (hp : t.IsResolved p) :
    t.located (FileTree.ascend p) = (t.located p).dropLast := by
  cases hp with
  | root => rfl
  | climb k =>
    rw [ascend_climb, List.replicate_succ']
    exact located_up t ⟨.relative, List.replicate k .up⟩
  | child hp he hlink => rw [ascend_child, located_child, List.dropLast_concat]

theorem lookup_climb (ht : t.IsFileSystem) (k : Nat) :
    t.lookup (t.located ⟨.relative, List.replicate k .up⟩) = some .directory := by
  rw [located_climb]
  by_cases heq : t.workDir.take (t.workDir.length - k) = t.workDir
  · rw [heq, ht.workDir]
  · exact ht.lookup_of_prefix ht.workDir (List.take_prefix _ _) heq

/-- What a resolved path stands for is there, and is no link. -/
theorem exists_lookup (ht : t.IsFileSystem) (hp : t.IsResolved p) :
    ∃ e, t.lookup (t.located p) = some e ∧ ∀ target, e ≠ .link target := by
  cases hp with
  | root => exact ⟨.directory, rfl, fun _ ↦ Entry.noConfusion⟩
  | climb k => exact ⟨.directory, lookup_climb ht k, fun _ ↦ Entry.noConfusion⟩
  | @child p n e hp he hlink =>
    rw [located_child]
    exact ⟨e, he, hlink⟩

theorem nulFree (ht : t.IsFileSystem) (hp : t.IsResolved p) : p.NulFree := by
  induction hp with
  | root => exact fun s hs ↦ absurd hs List.not_mem_nil
  | climb k =>
    intro s hs
    rw [List.eq_of_mem_replicate hs]
    decide
  | child hp he hlink ih =>
    exact ih.child (ht.nul_not_mem he (List.mem_append_right _ List.mem_cons_self))

/-- A resolved path that stands for a directory leads there through no link. -/
theorem walk (ht : t.IsFileSystem) (hp : t.IsResolved p) (hlast : last ≠ .write)
    (hdir : t.lookup (t.located p) = some .directory) :
    t.walk last k (t.base p) (p.steps ++ rest) = t.walk last k (t.located p) rest := by
  induction hp generalizing rest with
  | root => rfl
  | climb up =>
    have hsteps : Path.steps ⟨.relative, List.replicate up .up⟩ = List.replicate up .up :=
      List.map_replicate
    rw [hsteps, walk_climb, located_climb]
    rfl
  | @child p n e hp he hlink ih =>
    rw [located_child] at hdir
    have hn := ht.utf8Size_le hdir (List.mem_append_right _ List.mem_cons_self)
    rw [Path.steps_child, List.append_assoc, List.singleton_append, base_child,
      ih (ht.lookup_of_concat hdir),
      walk_down hlast hn, hdir, located_child]

/-- A resolved path that stands for a file leads no further. -/
theorem walk_file (ht : t.IsFileSystem) (hp : t.IsResolved p) (hlast : last ≠ .write)
    {content : Bytes} (hfile : t.lookup (t.located p) = some (.file content)) (hrest : rest ≠ []) :
    t.walk last k (t.base p) (p.steps ++ rest) = .error .notDirectory := by
  cases hp with
  | root => cases hfile
  | climb up =>
    rw [lookup_climb ht up] at hfile
    cases hfile
  | @child p n e hp he hlink =>
    rw [located_child] at hfile
    have hn := ht.utf8Size_le hfile (List.mem_append_right _ List.mem_cons_self)
    rw [Path.steps_child, List.append_assoc, List.singleton_append, base_child,
      hp.walk ht hlast (ht.lookup_of_concat hfile), walk_down hlast hn, hfile]
    exact if_neg hrest

/-- The entry below a resolved path is found where it stands, unless the path is too long. -/
theorem entryAt_child_iff (ht : t.IsFileSystem) (hp : t.IsResolved p) :
    t.entryAt .keep (p.child n).text = .ok (loc, e) ↔
      loc = t.located p ++ [n] ∧ t.lookup loc = some e ∧ (p.child n).text.utf8Size ≤ 4095 := by
  have hkeep : LastLink.keep ≠ .write := by decide
  have hne : [Step.down n] ≠ [] := List.cons_ne_nil _ _
  rw [entryAt_eq_ok_iff, find_text, base_child, Path.steps_child]
  constructor
  · intro h
    split at h
    · cases h
    split at h
    · cases h
    rename_i hsize
    obtain ⟨e', he', hlink⟩ := hp.exists_lookup ht
    cases e' with
    | link target => exact absurd rfl (hlink target)
    | file content =>
      rw [hp.walk_file ht hkeep he' hne] at h
      cases h
    | directory =>
      rw [hp.walk ht hkeep he'] at h
      obtain ⟨hloc, hfound⟩ := lookup_of_walk_keep_down h
      exact ⟨hloc, hfound, Nat.not_lt.1 hsize⟩
  · rintro ⟨rfl, he, hsize⟩
    have hdir := ht.lookup_of_concat he
    have hn : n ∈ t.located p ++ [n] := List.mem_append_right _ List.mem_cons_self
    have hfree : '\x00' ∉ (p.child n).text :=
      Path.nulFree_iff.1 ((hp.nulFree ht).child (ht.nul_not_mem he hn))
    rw [if_neg hfree, if_neg (Nat.not_lt.2 hsize), hp.walk ht hkeep hdir,
      walk_down hkeep (ht.utf8Size_le he hn), he]
    cases e <;> simp

/-- A path through the entry below a resolved path is walked from there. -/
theorem walk_of_stat_child (ht : t.IsFileSystem) (hp : t.IsResolved p)
    (hdir : t.lookup (t.located p) = some .directory) {found : Location × Entry}
    (h : t.stat (p.child n).text = .ok found) :
    ∃ r, t.walk .follow 40 (t.located p) [.down n] = .ok r := by
  have hfollow : LastLink.follow ≠ .write := by decide
  have hfind := entryAt_eq_ok_iff.1 h
  rw [find_text, base_child, Path.steps_child, hp.walk ht hfollow hdir] at hfind
  split at hfind
  · cases hfind
  split at hfind
  · cases hfind
  exact ⟨_, hfind⟩

/-- A resolved path leads down from the root, or from some steps above the working directory. -/
theorem eq_pathTo_or_eq_below_climb (hp : t.IsResolved p) :
    p = pathTo (t.located p) ∨
      ∃ k names, p = Path.below ⟨.relative, List.replicate k .up⟩ names := by
  induction hp with
  | root => exact .inl rfl
  | climb k => exact .inr ⟨k, [], (Path.below_nil _).symm⟩
  | @child p n e hp he hlink ih =>
    rcases ih with heq | ⟨k, names, rfl⟩
    · rw [located_child, ← child_pathTo, ← heq]
      exact .inl rfl
    · exact .inr ⟨k, names ++ [n], (Path.below_concat _ _ _).symm⟩

end IsResolved

end FileTree

end SolidityImports
