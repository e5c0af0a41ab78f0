import SolidityImports.Proofs.FileTree.Growth
import SolidityImports.Proofs.FileTree.Stat

/-! # Trees with more directories

A tree is extended if all its entries stay as they are, while others may appear: what a path leads to
in it stays. Main statements: making directories extends a tree, and what is new then is a directory
that was made at one of the paths; that path leads to it from then on. A directory that is made with
those above it is there, or it is said why not. -/

namespace SolidityImports

/-- Where a walk ends once there is a directory at the free name that it came to. -/
def Found.filled : Found → Found
  | .vacant dir n => .entry (dir ++ [n]) .directory
  | r => r

namespace FileTree

variable {t t' t'' : FileTree} {last : LastLink} {k : Nat} {dir loc : Location} {steps : List Step}
  {r : Found} {path : Text} {p : Path} {ps : List Path} {e : Entry} {found : Location × Entry}

/-! ## Extended trees -/

/-- Whether a tree has all entries of another one as they are. -/
structure ExtendsTo (t t' : FileTree) : Prop where
  workDir : t'.workDir = t.workDir
  lookup : ∀ {loc e}, t.lookup loc = some e → t'.lookup loc = some e

namespace ExtendsTo

theorem refl (t : FileTree) : t.ExtendsTo t where
  workDir := rfl
  lookup := id

theorem trans (h : t.ExtendsTo t') (h' : t'.ExtendsTo t'') : t.ExtendsTo t'' where
  workDir := h'.workDir.trans h.workDir
  lookup := fun hfound ↦ h'.lookup (h.lookup hfound)

theorem insert (hfree : t.lookup loc = none) (e : Entry) : t.ExtendsTo (t.insert loc e) where
  workDir := rfl
  lookup := by
    intro other old hold
    rw [lookup_insert_of_ne, hold]
    rintro rfl
    rw [hfree] at hold
    cases hold

/-- A walk that ends at an entry ends there in an extended tree, and one that ends at a free name where
there is a directory then ends at that directory. -/
theorem endsAt_filled (hextends : t.ExtendsTo t') (h : t.EndsAt last k dir steps r)
    (hr : r.entry? = none → t'.lookup r.location = some .directory) :
    t'.EndsAt last k dir steps r.filled := by
  induction h with
  | here => exact .here
  | skip hs _ ih => exact .skip hs (ih hr)
  | up _ ih => exact .up (ih hr)
  | enter hn hfound _ ih => exact .enter hn (hextends.lookup hfound) (ih hr)
  | file hn hfound => exact .file hn (hextends.lookup hfound)
  | vacant hn _ => exact .enter hn (hr rfl) .here
  | keep hn hfound hkeep => exact .keep hn (hextends.lookup hfound) hkeep
  | follow hn hfound hfollow _ ih => exact .follow hn (hextends.lookup hfound) hfollow (ih hr)

/-- What a path leads to stays in an extended tree. -/
theorem stat (hextends : t.ExtendsTo t') (h : t.stat path = .ok found) :
    t'.stat path = .ok found := by
  obtain ⟨loc, e⟩ := found
  obtain ⟨hpath, hwalk⟩ := find_eq_ok_iff.1 (entryAt_eq_ok_iff.1 h)
  have hends := hextends.endsAt_filled (endsAt_of_walk hwalk) nofun
  refine entryAt_eq_ok_iff.2 (find_eq_ok_iff.2 ⟨hpath, ?_⟩)
  rw [hextends.workDir]
  exact hends.walk_eq (by decide)

end ExtendsTo

/-! ## Directories that are made -/

/-- A directory is made at a free place, and the path leads to it then. -/
theorem exists_stat_of_make (h : t.make path .directory = .ok t') :
    ∃ loc, t.lookup loc = none ∧ t' = t.insert loc .directory ∧
      t'.stat path = .ok (loc, .directory) := by
  obtain ⟨dir, n, hfind, hfree, rfl⟩ := find_of_make h
  obtain ⟨hpath, hwalk⟩ := find_eq_ok_iff.1 hfind
  have hends := (endsAt_of_walk hwalk).follow_of_ne_link nofun
  have hmade : (t.insert (dir ++ [n]) .directory).lookup (dir ++ [n]) = some .directory :=
    lookup_insert_self t (by simp) _
  have hfilled := (ExtendsTo.insert hfree .directory).endsAt_filled hends fun _ ↦ hmade
  exact ⟨dir ++ [n], hfree, rfl,
    entryAt_eq_ok_iff.2 (find_eq_ok_iff.2 ⟨hpath, hfilled.walk_eq (by decide)⟩)⟩

theorem MakesSomeOf.extendsTo (h : t.MakesSomeOf ps t') : t.ExtendsTo t' := by
  induction h with
  | refl => exact .refl t
  | tail _ hmakes ih =>
    obtain ⟨p, -, hmake⟩ := hmakes
    obtain ⟨loc, hfree, rfl, -⟩ := exists_stat_of_make hmake
    exact ih.trans (.insert hfree .directory)

/-- What it is for a directory to have been made at a location through one of the paths, on the way
from one tree to another. -/
structure IsMadeAt (ps : List Path) (t t' : FileTree) (loc : Location) (p : Path) : Prop where
  mem : p ∈ ps
  /-- It was made at a free place, after some of the directories and before the others. -/
  made : ∃ middle, t.MakesSomeOf ps middle ∧ middle.lookup loc = none ∧
    middle.make p.text .directory = .ok (middle.insert loc .directory) ∧
    (middle.insert loc .directory).MakesSomeOf ps t'
  /-- The path still leads to it. -/
  stat : t'.stat p.text = .ok (loc, .directory)

/-- What stands where nothing stood before is a directory that was made. -/
theorem MakesSomeOf.exists_isMadeAt (h : t.MakesSomeOf ps t') (hold : t.lookup loc = none)
    (hnew : t'.lookup loc = some e) : e = .directory ∧ ∃ p, IsMadeAt ps t t' loc p := by
  induction h with
  | refl =>
    rw [hold] at hnew
    cases hnew
  | tail hmakes hlast ih =>
    have hstep := hlast
    obtain ⟨p, hp, hmake⟩ := hlast
    obtain ⟨place, hfree, rfl, hstat⟩ := exists_stat_of_make hmake
    by_cases hloc : loc = place
    · subst hloc
      have hne : loc ≠ [] := by
        rintro rfl
        cases hold
      rw [lookup_insert_self _ hne] at hnew
      exact ⟨(Option.some.inj hnew).symm, p, hp, ⟨_, hmakes, hfree, hmake, .refl⟩, hstat⟩
    · rw [lookup_insert_of_ne _ hloc] at hnew
      obtain ⟨hdirectory, q, hq, ⟨middle, hbefore, hnone, hmade, hafter⟩, hleads⟩ := ih hnew
      exact ⟨hdirectory, q, hq, ⟨middle, hbefore, hnone, hmade, hafter.tail hstep⟩,
        (ExtendsTo.insert hfree .directory).stat hleads⟩

/-! ## Directories with those above them -/

theorem leadsToDirectory_of_make (h : t.make path .directory = .ok t') :
    t'.leadsToDirectory path := by
  obtain ⟨loc, -, -, hstat⟩ := exists_stat_of_make h
  exact leadsToDirectory_iff.2 ⟨loc, hstat⟩

/-- Where nothing is wrong although no directory could be made, there is one. -/
theorem leadsToDirectory_of_refusal? {f : Fault} (h : t.refusal? p f = none) :
    t.leadsToDirectory p.text := by
  unfold refusal? at h
  split at h
  · rename_i loc hstat
    exact leadsToDirectory_iff.2 ⟨loc, hstat⟩
  · cases h
  · cases h

theorem leadsToDirectory_of_ensureOne (h : t.ensureOne p = (t', none)) :
    t'.leadsToDirectory p.text := by
  unfold ensureOne at h
  split at h
  · rename_i made hmake
    cases h
    exact leadsToDirectory_of_make hmake
  · cases h
  · obtain ⟨rfl, hrefusal⟩ := Prod.mk.inj h
    exact leadsToDirectory_of_refusal? hrefusal

/-- If nothing has gone wrong, the path leads to a directory. -/
theorem leadsToDirectory_of_ensureDirectory (h : t.ensureDirectory p = (t', none)) :
    t'.leadsToDirectory p.text := by
  rw [ensureDirectory] at h
  split at h
  · rename_i made hmake
    cases h
    exact leadsToDirectory_of_make hmake
  · split at h
    · cases h
    · split at h
      · cases h
      · exact leadsToDirectory_of_ensureOne h
  · obtain ⟨rfl, hrefusal⟩ := Prod.mk.inj h
    exact leadsToDirectory_of_refusal? hrefusal

end FileTree

end SolidityImports
