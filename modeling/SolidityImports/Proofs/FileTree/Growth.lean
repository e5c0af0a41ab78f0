import Mathlib.Logic.Relation
import SolidityImports.Proofs.FileTree.NulFree
import SolidityImports.Proofs.FileTree.Write
import SolidityImports.Proofs.Path.Ancestor

/-! # Growing trees

A tree grows if all its entries stay, but for the contents of its files, while others may appear.
Main statements: a path that leads somewhere still does so in a tree that has grown; and whatever is
put at a path lets a tree grow, with the directories that are made on the way, and brings in no NUL
character but its own. -/

namespace SolidityImports.FileTree

variable {t t' t'' : FileTree} {last : LastLink} {k : Nat} {dir loc : Location} {steps : List Step}
  {r : Found} {path : Text} {p : Path} {e : Entry} {content : Bytes}

/-! ## Growth -/

/-- Whether a tree has all entries of another one, with other contents of files perhaps. -/
structure GrowsTo (t t' : FileTree) : Prop where
  workDir : t'.workDir = t.workDir
  directory : ∀ {loc}, t.lookup loc = some .directory → t'.lookup loc = some .directory
  file : ∀ {loc content}, t.lookup loc = some (.file content) →
    ∃ content', t'.lookup loc = some (.file content')
  link : ∀ {loc target}, t.lookup loc = some (.link target) →
    t'.lookup loc = some (.link target)

namespace GrowsTo

theorem refl (t : FileTree) : t.GrowsTo t where
  workDir := rfl
  directory := id
  file := fun h ↦ ⟨_, h⟩
  link := id

theorem trans (h : t.GrowsTo t') (h' : t'.GrowsTo t'') : t.GrowsTo t'' where
  workDir := h'.workDir.trans h.workDir
  directory := fun hdir ↦ h'.directory (h.directory hdir)
  file := by
    intro loc content hfile
    obtain ⟨content', hfile'⟩ := h.file hfile
    exact h'.file hfile'
  link := fun hlink ↦ h'.link (h.link hlink)

/-- A tree grows by an entry at a free place, or by a file in place of another one. -/
theorem insert (h : ∀ old ∈ t.lookup loc, ∃ content content', old = .file content ∧
    e = .file content') : t.GrowsTo (t.insert loc e) := by
  have hfree : ∀ old ∈ t.lookup loc, ∃ content, old = .file content := by
    intro old hold
    obtain ⟨content, -, hfile, -⟩ := h old hold
    exact ⟨content, hfile⟩
  refine ⟨rfl, fun hdir ↦ lookup_insert_of_ne_file hfree hdir nofun e, ?_,
    fun hlink ↦ lookup_insert_of_ne_file hfree hlink nofun e⟩
  intro other old hold
  by_cases hother : other = loc
  · subst hother
    obtain ⟨-, content', -, rfl⟩ := h _ hold
    have hne : other ≠ [] := by
      rintro rfl
      cases hold
    exact ⟨content', lookup_insert_self t hne _⟩
  · exact ⟨old, (lookup_insert_of_ne t hother e).trans hold⟩

/-- A walk that ends at an entry ends at one in a tree that has grown, along the same way. -/
theorem endsAt (hgrows : t.GrowsTo t') (h : t.EndsAt last k dir steps r) (hr : r.entry? ≠ none) :
    ∃ r', t'.EndsAt last k dir steps r' ∧ r'.entry? ≠ none := by
  induction h with
  | here => exact ⟨_, .here, Option.some_ne_none _⟩
  | skip hs _ ih =>
    obtain ⟨r', hends, hr'⟩ := ih hr
    exact ⟨r', .skip hs hends, hr'⟩
  | up _ ih =>
    obtain ⟨r', hends, hr'⟩ := ih hr
    exact ⟨r', .up hends, hr'⟩
  | enter hn hfound _ ih =>
    obtain ⟨r', hends, hr'⟩ := ih hr
    exact ⟨r', .enter hn (hgrows.directory hfound) hends, hr'⟩
  | file hn hfound =>
    obtain ⟨content', hfound'⟩ := hgrows.file hfound
    exact ⟨_, .file hn hfound', Option.some_ne_none _⟩
  | vacant => exact absurd rfl hr
  | keep hn hfound hkeep => exact ⟨_, .keep hn (hgrows.link hfound) hkeep, Option.some_ne_none _⟩
  | follow hn hfound hfollow _ ih =>
    obtain ⟨r', hends, hr'⟩ := ih hr
    exact ⟨r', .follow hn (hgrows.link hfound) hfollow hends, hr'⟩

end GrowsTo

theorem leadsSomewhere_iff : t.leadsSomewhere path ↔
    ∃ r, t.find .follow path = .ok r ∧ r.entry? ≠ none := by
  unfold leadsSomewhere stat entryAt
  split
  · rename_i hfind
    simp [hfind, Found.entry?, Except.isOk, Except.toBool]
  · rename_i hfind
    simp [hfind, Found.entry?, Except.isOk, Except.toBool]
  · rename_i hfind
    simp [hfind, Except.isOk, Except.toBool]

/-- A path that leads somewhere does so in every tree that has grown. -/
theorem GrowsTo.leadsSomewhere (hgrows : t.GrowsTo t') (h : t.leadsSomewhere path) :
    t'.leadsSomewhere path := by
  obtain ⟨r, hfind, hr⟩ := leadsSomewhere_iff.1 h
  obtain ⟨hpath, hwalk⟩ := find_eq_ok_iff.1 hfind
  obtain ⟨r', hends, hr'⟩ := hgrows.endsAt (endsAt_of_walk hwalk) hr
  refine leadsSomewhere_iff.2 ⟨r', find_eq_ok_iff.2 ⟨hpath, ?_⟩, hr'⟩
  rw [hgrows.workDir]
  exact hends.walk_eq (by decide)

/-! ## What is put at a path -/

/-- An entry is made where the path leads to a free name, links kept. -/
theorem find_of_make (h : t.make path e = .ok t') : ∃ dir n,
    t.find .keep path = .ok (.vacant dir n) ∧ t.lookup (dir ++ [n]) = none ∧
      t' = t.insert (dir ++ [n]) e := by
  unfold make at h
  split at h
  · cases h
  · rename_i dir n hfind
    have hends := endsAt_of_walk (walk_of_find hfind)
    cases h
    exact ⟨dir, n, hfind, hends.lookup_location nofun, rfl⟩
  · cases h

/-- A tree grows by an entry that is made. -/
theorem growsTo_of_make (h : t.make path e = .ok t') : t.GrowsTo t' := by
  obtain ⟨dir, n, -, hfree, rfl⟩ := find_of_make h
  refine .insert ?_
  rw [hfree]
  nofun

/-- A tree grows by a file that is written, over another one or not. -/
theorem growsTo_of_write (h : t.write path content = .ok t') : t.GrowsTo t' := by
  obtain ⟨r, -, rfl, hr, hlookup⟩ := find_of_write h
  refine .insert ?_
  rw [hlookup]
  intro old hold
  obtain ⟨content', rfl⟩ := hr old hold
  exact ⟨content', content, rfl, rfl⟩

/-- An entry that leads to no NUL character brings none into a tree. -/
theorem NulFree.insert (ht : t.NulFree) (loc : Location) (he : e.NulFree) :
    (t.insert loc e).NulFree := by
  intro x hx
  rcases List.mem_cons.1 hx with rfl | hx
  · exact he
  · exact ht x (List.mem_of_mem_filter hx)

theorem NulFree.of_make (ht : t.NulFree) (he : e.NulFree) (h : t.make path e = .ok t') :
    t'.NulFree := by
  obtain ⟨dir, n, -, -, rfl⟩ := find_of_make h
  exact ht.insert (dir ++ [n]) he

/-- Whether a tree becomes another one by a directory that is made. -/
def MakesDirectory (t t' : FileTree) : Prop := ∃ path, t.make path .directory = .ok t'

/-- Directories that are made, one after the other. -/
abbrev MakesDirectories : FileTree → FileTree → Prop := Relation.ReflTransGen MakesDirectory

/-- Whether a tree becomes another one by a directory that is made at one of the paths. -/
def MakesOneOf (ps : List Path) (t t' : FileTree) : Prop :=
  ∃ p ∈ ps, t.make p.text .directory = .ok t'

/-- Directories that are made at some of the paths, one after the other. -/
abbrev MakesSomeOf (ps : List Path) : FileTree → FileTree → Prop :=
  Relation.ReflTransGen (MakesOneOf ps)

theorem MakesSomeOf.of_subset {ps qs : List Path} (h : t.MakesSomeOf ps t') (hsubset : ps ⊆ qs) :
    t.MakesSomeOf qs t' :=
  Relation.ReflTransGen.mono (fun _ _ ⟨p, hp, hmake⟩ ↦ ⟨p, hsubset hp, hmake⟩) _ _ h

theorem makesSomeOf_ensureOne (t : FileTree) {ps : List Path} (hp : p ∈ ps) :
    t.MakesSomeOf ps (t.ensureOne p).1 := by
  unfold ensureOne
  split
  · rename_i hmake
    exact .single ⟨p, hp, hmake⟩
  · exact .refl
  · exact .refl

/-- The directories of a path are made at the path and its ancestors, one after the other, also if the
last ones cannot be made. -/
theorem makesSomeOf_ensureDirectory (t : FileTree) (p : Path) :
    t.MakesSomeOf (p :: p.ancestors) (t.ensureDirectory p).1 := by
  fun_induction ensureDirectory t p with
  | case1 p t' hmake => exact .single ⟨p, List.mem_cons_self, hmake⟩
  | case2 => exact .refl
  | case3 p _ hsegments _ t' failure hparent ih =>
    rw [hparent] at ih
    rw [Path.ancestors_of_ne_nil hsegments]
    exact ih.of_subset (List.subset_cons_self _ _)
  | case4 p _ hsegments _ t' hparent ih =>
    rw [hparent] at ih
    rw [Path.ancestors_of_ne_nil hsegments]
    exact (ih.of_subset (List.subset_cons_self _ _)).trans
      (makesSomeOf_ensureOne t' List.mem_cons_self)
  | case5 => exact .refl

theorem makesDirectories_ensureDirectory (t : FileTree) (p : Path) :
    t.MakesDirectories (t.ensureDirectory p).1 :=
  Relation.ReflTransGen.mono (fun _ _ ⟨q, _, hmake⟩ ↦ ⟨q.text, hmake⟩) _ _
    (makesSomeOf_ensureDirectory t p)

/-- A directory that a path leads to already is not made again. -/
theorem ensureDirectory_eq_self (h : t.leadsToDirectory p.text) :
    t.ensureDirectory p = (t, none) := by
  unfold leadsToDirectory at h
  split at h
  · rename_i loc hstat
    obtain ⟨hpath, hwalk⟩ := find_eq_ok_iff.1 (entryAt_eq_ok_iff.1 hstat)
    obtain ⟨r, hkeep, hr⟩ := (endsAt_of_walk hwalk).exists_keep
    have hfind := find_eq_ok_iff.2 ⟨hpath, hkeep.walk_eq (by decide)⟩
    have hmake : t.make p.text .directory = .error .occupied := by
      rcases hr with rfl | ⟨loc, target, rfl⟩
      · rw [make, hfind]
      · rw [make, hfind]
    rw [ensureDirectory, hmake]
    simp only [refusal?, hstat]
  · contradiction

theorem MakesDirectories.growsTo (h : t.MakesDirectories t') : t.GrowsTo t' := by
  induction h with
  | refl => exact .refl t
  | tail _ hmakes ih =>
    obtain ⟨path, hmake⟩ := hmakes
    exact ih.trans (growsTo_of_make hmake)

theorem MakesDirectories.nulFree (h : t.MakesDirectories t') (ht : t.NulFree) : t'.NulFree := by
  induction h with
  | refl => exact ht
  | tail _ hmakes ih =>
    obtain ⟨path, hmake⟩ := hmakes
    have hdirectory : Entry.directory.NulFree := trivial
    exact ih.of_make hdirectory hmake

/-- What is put at a path is put there behind the directories of the path: a directory with them, a
file by writing it, and a link at a free name. -/
theorem exists_makesDirectories_of_place (h : t.place p e = .ok t') :
    ∃ middle, t.MakesDirectories middle ∧
      (e = .directory ∧ t' = middle ∨
        (∃ content, e = .file content ∧ middle.write p.text content = .ok t') ∨
        middle.make p.text e = .ok t') := by
  cases e with
  | directory =>
    have hmakes := makesDirectories_ensureDirectory t p
    rw [place] at h
    generalize t.ensureDirectory p = made at h hmakes
    obtain ⟨middle, _ | failure⟩ := made
    · exact ⟨middle, hmakes, .inl ⟨rfl, (Except.ok.inj h).symm⟩⟩
    · cases h
  | file content =>
    have hmakes := makesDirectories_ensureDirectory t p.parent
    simp only [place] at h
    generalize t.ensureDirectory p.parent = made at h hmakes
    obtain ⟨middle, _ | failure⟩ := made
    · exact ⟨middle, hmakes, .inr (.inl ⟨content, rfl, h⟩)⟩
    · cases h
  | link target =>
    have hmakes := makesDirectories_ensureDirectory t p.parent
    simp only [place] at h
    generalize t.ensureDirectory p.parent = made at h hmakes
    obtain ⟨middle, _ | failure⟩ := made
    · exact ⟨middle, hmakes, .inr (.inr h)⟩
    · cases h

/-- A tree grows by whatever is put at a path, and by the directories that are made for it. -/
theorem growsTo_of_place (h : t.place p e = .ok t') : t.GrowsTo t' := by
  obtain ⟨middle, hmakes, ⟨-, rfl⟩ | ⟨content, -, hwrite⟩ | hmake⟩ :=
    exists_makesDirectories_of_place h
  · exact hmakes.growsTo
  · exact hmakes.growsTo.trans (growsTo_of_write hwrite)
  · exact hmakes.growsTo.trans (growsTo_of_make hmake)

theorem NulFree.of_place (ht : t.NulFree) (he : e.NulFree) (h : t.place p e = .ok t') :
    t'.NulFree := by
  obtain ⟨middle, hmakes, ⟨-, rfl⟩ | ⟨content, -, hwrite⟩ | hmake⟩ :=
    exists_makesDirectories_of_place h
  · exact hmakes.nulFree ht
  · obtain ⟨r, -, rfl, -, -⟩ := find_of_write hwrite
    exact (hmakes.nulFree ht).insert _ trivial
  · exact (hmakes.nulFree ht).of_make he hmake

end SolidityImports.FileTree
