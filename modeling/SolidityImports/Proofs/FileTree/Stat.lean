import SolidityImports.Proofs.FileTree.Resolved

/-! # Where paths lead

What the paths below a path lead to depends on where the path itself leads. Main statements: a path
leads somewhere only if the one above it leads to a directory that has the entry, and names put into
a path that lead back to where it was can be left out. -/

namespace SolidityImports.FileTree

variable {t : FileTree} {last : LastLink} {p q : Path} {n : FileName} {k : Nat}
  {names rest : List FileName} {steps : List Step} {dir loc : Location} {e : Entry}
  {found : Location × Entry}

/-! ## The table and the ends of walks -/

theorem lookup_start (hdir : t.lookup dir = some .directory) (target : Text) :
    t.lookup (start dir target) = some .directory := by
  unfold start
  split
  · rfl
  · exact hdir

/-- A walk ends at an entry that the table has. -/
theorem EndsAt.lookup_entry (ht : t.IsFileSystem) {r : Found} (h : t.EndsAt last k dir steps r)
    (hdir : t.lookup dir = some .directory) (hr : r = .entry loc e) : t.lookup loc = some e := by
  induction h with
  | here =>
    cases hr
    exact hdir
  | skip _ _ ih => exact ih hdir hr
  | up _ ih => exact ih (ht.lookup_dropLast hdir) hr
  | enter _ hfound _ ih => exact ih hfound hr
  | file _ hfound =>
    cases hr
    exact hfound
  | vacant => cases hr
  | keep _ hfound _ =>
    cases hr
    exact hfound
  | follow _ _ _ _ ih => exact ih (lookup_start hdir _) hr

/-- What a path leads to is what the table has there. -/
theorem lookup_of_stat (ht : t.IsFileSystem) {s : Text} (h : t.stat s = .ok (loc, e)) :
    t.lookup loc = some e :=
  (endsAt_of_walk (walk_of_find (entryAt_eq_ok_iff.1 h))).lookup_entry ht
    (lookup_start ht.workDir s) rfl

theorem leadsToDirectory_iff {s : Text} :
    t.leadsToDirectory s ↔ ∃ loc, t.stat s = .ok (loc, .directory) := by
  unfold leadsToDirectory
  split <;> simp_all

theorem leadsToFile_iff {s : Text} :
    t.leadsToFile s ↔ ∃ loc content, t.stat s = .ok (loc, .file content) := by
  unfold leadsToFile
  split <;> simp_all

/-! ## Paths below a path -/

@[simp] theorem base_below (t : FileTree) (p : Path) (names : List FileName) :
    t.base (p.below names) = t.base p := rfl

theorem steps_below (p : Path) (names : List FileName) :
    (p.below names).steps = p.steps ++ names.map .down := by
  simp [Path.below, Path.steps, Step.ofSegment]

theorem stat_text_eq_ok_iff : t.stat p.text = .ok (loc, e) ↔
    p.NulFree ∧ p.text.utf8Size ≤ 4095 ∧
      t.walk .follow 40 (t.base p) p.steps = .ok (.entry loc e) := by
  unfold stat
  rw [entryAt_eq_ok_iff, find_text, Path.nulFree_iff]
  split
  · rename_i hnul
    simp [hnul]
  split
  · rename_i hsize
    simp [Nat.not_le.2 hsize]
  · rename_i hnul hsize
    simp [hnul, Nat.not_lt.1 hsize]

/-- A path that leads to a directory leads there through some number of links. -/
theorem exists_leadsTo_of_stat (h : t.stat p.text = .ok (loc, .directory)) :
    ∃ links left, 40 = links + left ∧ t.LeadsTo links (t.base p) p.steps loc := by
  obtain ⟨-, -, hwalk⟩ := stat_text_eq_ok_iff.1 h
  rw [← List.append_nil p.steps] at hwalk
  obtain ⟨links, left, loc', hlinks, hleads, hend⟩ :=
    exists_leadsTo_of_walk_append hwalk (.inr ⟨loc, rfl⟩)
  rw [walk_nil] at hend
  cases hend
  exact ⟨links, left, hlinks, hleads⟩

theorem eq_of_stat_directory {path : Text} {dir dir' : Location}
    (h : t.stat path = .ok (dir, .directory)) (h' : t.stat path = .ok (dir', .directory)) :
    dir = dir' := (Prod.mk.inj (Except.ok.inj (h.symm.trans h'))).1

/-- Only below a directory a path leads somewhere, and only to an entry of that directory. -/
theorem exists_stat_of_stat_child (h : t.stat (p.child n).text = .ok found) :
    ∃ loc, t.stat p.text = .ok (loc, .directory) ∧ ∃ e, t.lookup (loc ++ [n]) = some e := by
  obtain ⟨hfree, hsize, hwalk⟩ := stat_text_eq_ok_iff.1 h
  rw [Path.steps_child, base_child] at hwalk
  obtain ⟨links, left, loc, hlinks, hleads, hend⟩ :=
    exists_leadsTo_of_walk_append hwalk (.inl (List.cons_ne_nil _ _))
  refine ⟨loc, stat_text_eq_ok_iff.2 ⟨?_, ?_, ?_⟩, ?_⟩
  · exact fun s hs ↦ hfree s (List.mem_append_left _ hs)
  · exact Nat.le_trans (Path.utf8Size_text_le_child p n) hsize
  · rw [hlinks]
    exact hleads.walk left
  · have hlast : LastLink.follow ≠ .write := by decide
    rw [walk_down hlast (utf8Size_le_of_walk_down hlast hend)] at hend
    cases hfound : t.lookup (loc ++ [n]) with
    | none =>
      rw [hfound] at hend
      cases hend
    | some e => exact ⟨e, rfl⟩

/-- Below a directory, a path that is not too long leads to each entry that is no link. -/
theorem stat_child (ht : t.IsFileSystem) (hp : t.stat p.text = .ok (loc, .directory))
    (hsize : (p.child n).text.utf8Size ≤ 4095) (he : t.lookup (loc ++ [n]) = some e)
    (hlink : ∀ target, e ≠ .link target) : t.stat (p.child n).text = .ok (loc ++ [n], e) := by
  obtain ⟨hfree, -, -⟩ := stat_text_eq_ok_iff.1 hp
  obtain ⟨links, left, hlinks, hleads⟩ := exists_leadsTo_of_stat hp
  have hn : n ∈ loc ++ [n] := List.mem_append_right _ List.mem_cons_self
  have hlast : LastLink.follow ≠ .write := by decide
  refine stat_text_eq_ok_iff.2 ⟨hfree.child (ht.nul_not_mem he hn), hsize, ?_⟩
  rw [Path.steps_child, base_child, hlinks, hleads, walk_down hlast (ht.utf8Size_le he hn), he]
  cases e with
  | directory => exact walk_nil
  | file content => rfl
  | link target => exact absurd rfl (hlink target)

/-- What a path leads to below a directory is one of its children. -/
theorem exists_mem_children_of_stat_child (hp : t.stat p.text = .ok (loc, .directory))
    (h : t.stat (p.child n).text = .ok found) : ∃ e, (n, e) ∈ t.children loc := by
  obtain ⟨loc', hp', e, he⟩ := exists_stat_of_stat_child h
  obtain rfl := eq_of_stat_directory hp hp'
  exact ⟨e, mem_children_iff.2 he⟩

/-- Names that lead from a directory back to it can be left out of a path. -/
theorem stat_below_of_loop (hp : t.stat p.text = .ok (loc, .directory))
    (hloop : t.stat (p.below names).text = .ok (loc, .directory))
    (h : t.stat ((p.below names).below rest).text = .ok found) (hrest : rest ≠ []) :
    t.stat (p.below rest).text = .ok found := by
  obtain ⟨hfree, hsize, hwalk⟩ := stat_text_eq_ok_iff.1 h
  obtain ⟨-, -, hback⟩ := stat_text_eq_ok_iff.1 hloop
  obtain ⟨links, left, hlinks, hleads⟩ := exists_leadsTo_of_stat hp
  rw [steps_below, steps_below, base_below, base_below, List.append_assoc, hlinks, hleads] at hwalk
  rw [steps_below, base_below, hlinks, hleads] at hback
  obtain ⟨links', left', loc', rfl, hleads', hend⟩ :=
    exists_leadsTo_of_walk_append hwalk (.inl (by simpa using hrest))
  -- The names lead to one place only, and so the walk goes on from where it was.
  obtain rfl : loc' = loc := by
    rw [hleads'.walk] at hback
    cases hback
    rfl
  refine stat_text_eq_ok_iff.2 ⟨?_, ?_, ?_⟩
  · intro s hs
    rcases List.mem_append.1 hs with hs | hs
    · exact hfree s (List.mem_append_left _ (List.mem_append_left _ hs))
    · exact hfree s (List.mem_append_right _ hs)
  · exact Nat.le_trans (Path.utf8Size_text_below_le p names rest) hsize
  · rw [steps_below, base_below, hlinks, hleads]
    exact walk_of_le (by decide) hend (Nat.le_add_left left' links')

end SolidityImports.FileTree
