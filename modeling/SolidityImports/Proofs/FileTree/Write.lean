import SolidityImports.FileTree.Access
import SolidityImports.Proofs.FileTree.Walk

/-! # Writing files

What changes when a file is written. No walk that ends well goes through the place of the file, so
that all of them end where they did, but those that ended at the file or at its free name now find
the new content. Main statement: writing a file changes the entry at one location, to which the path
leads then. -/

namespace SolidityImports

/-- The location at which a walk ends. -/
def Found.location : Found → Location
  | .entry loc _ => loc
  | .vacant dir n => dir ++ [n]

/-- The entry at which a walk ends. -/
def Found.entry? : Found → Option Entry
  | .entry _ e => some e
  | .vacant .. => none

/-- Where a walk ends after a file has been written. -/
def Found.written (loc : Location) (content : Bytes) : Found → Found
  | .entry place (.file old) =>
    if place = loc then .entry loc (.file content) else .entry place (.file old)
  | .vacant dir n => if dir ++ [n] = loc then .entry loc (.file content) else .vacant dir n
  | r => r

namespace FileTree

variable {t t' : FileTree} {last : LastLink} {k : Nat} {dir loc : Location} {steps : List Step}
  {r : Found} {content : Bytes} {path : Text}

/-! ## Walks before and after -/

/-- Directories and links stay if an entry is put at a free place or in place of a file. -/
theorem lookup_insert_of_ne_file {other : Location} {e : Entry}
    (hfree : ∀ e ∈ t.lookup loc, ∃ old, e = .file old) (h : t.lookup other = some e)
    (he : ∀ old, e ≠ .file old) (new : Entry) : (t.insert loc new).lookup other = some e := by
  rw [lookup_insert_of_ne, h]
  rintro rfl
  obtain ⟨old, hold⟩ := hfree e h
  exact he old hold

namespace EndsAt

/-- A walk ends at what the table has, unless it ends at a directory that it stays in. -/
theorem lookup_location (h : t.EndsAt last k dir steps r) (hr : r.entry? ≠ some .directory) :
    t.lookup r.location = r.entry? := by
  induction h with
  | here => exact absurd rfl hr
  | skip _ _ ih => exact ih hr
  | up _ ih => exact ih hr
  | enter _ _ _ ih => exact ih hr
  | file _ hfound => exact hfound
  | vacant _ hfound => exact hfound
  | keep _ hfound _ => exact hfound
  | follow _ _ _ _ ih => exact ih hr

/-- A walk that keeps no link at its end also ends there if links are followed. -/
theorem follow_of_ne_link (h : t.EndsAt last k dir steps r)
    (hr : last = .keep → ∀ loc target, r ≠ .entry loc (.link target)) :
    t.EndsAt .follow k dir steps r := by
  induction h with
  | here => exact .here
  | skip hs _ ih => exact .skip hs (ih hr)
  | up _ ih => exact .up (ih hr)
  | enter hn hfound _ ih => exact .enter hn hfound (ih hr)
  | file hn hfound => exact .file hn hfound
  | vacant hn hfound => exact .vacant hn hfound
  | keep _ _ hkeep => exact absurd rfl (hr hkeep _ _)
  | follow hn hfound _ _ ih => exact .follow hn hfound nofun (ih hr)

/-- A walk that keeps a link at its end ends where the walk through it does, or at the link. -/
theorem exists_keep (h : t.EndsAt .follow k dir steps r) : ∃ r', t.EndsAt .keep k dir steps r' ∧
    (r' = r ∨ ∃ loc target, r' = .entry loc (.link target)) := by
  induction h with
  | here => exact ⟨_, .here, .inl rfl⟩
  | skip hs _ ih =>
    obtain ⟨r', hkeep, hr'⟩ := ih
    exact ⟨r', .skip hs hkeep, hr'⟩
  | up _ ih =>
    obtain ⟨r', hkeep, hr'⟩ := ih
    exact ⟨r', .up hkeep, hr'⟩
  | enter hn hfound _ ih =>
    obtain ⟨r', hkeep, hr'⟩ := ih
    exact ⟨r', .enter hn hfound hkeep, hr'⟩
  | file hn hfound => exact ⟨_, .file hn hfound, .inl rfl⟩
  | vacant hn hfound => exact ⟨_, .vacant hn hfound, .inl rfl⟩
  | keep _ _ hkeep => cases hkeep
  | @follow k dir n target rest r hn hfound _ _ ih =>
    by_cases hrest : rest = []
    · subst hrest
      exact ⟨_, .keep hn hfound rfl, .inr ⟨_, target, rfl⟩⟩
    · obtain ⟨r', hkeep, hr'⟩ := ih
      exact ⟨r', .follow hn hfound (fun h ↦ hrest h.1) hkeep, hr'⟩

/-- After a file has been written over another one or to a free name, every walk ends where it did,
and finds the new content there if that is the place. -/
theorem insert_file (hfree : ∀ e ∈ t.lookup loc, ∃ old, e = .file old)
    (h : t.EndsAt last k dir steps r) :
    (t.insert loc (.file content)).EndsAt last k dir steps (r.written loc content) := by
  have hloc : loc ≠ [] := by
    rintro rfl
    obtain ⟨old, hold⟩ := hfree .directory rfl
    cases hold
  have hstays : ∀ {other e}, t.lookup other = some e → (∀ old, e ≠ .file old) →
      (t.insert loc (.file content)).lookup other = some e :=
    fun hother he ↦ lookup_insert_of_ne_file hfree hother he _
  induction h with
  | here => exact .here
  | skip hs _ ih => exact .skip hs ih
  | up _ ih => exact .up ih
  | enter hn hfound _ ih => exact .enter hn (hstays hfound nofun) ih
  | @file _ dir n old hn hfound =>
    rw [Found.written]
    split
    · rename_i hplace
      rw [← hplace]
      exact .file hn (lookup_insert_self t (hplace ▸ hloc) _)
    · rename_i hplace
      exact .file hn ((lookup_insert_of_ne t hplace _).trans hfound)
  | @vacant _ dir n hn hfound =>
    rw [Found.written]
    split
    · rename_i hplace
      rw [← hplace]
      exact .file hn (lookup_insert_self t (hplace ▸ hloc) _)
    · rename_i hplace
      exact .vacant hn ((lookup_insert_of_ne t hplace _).trans hfound)
  | keep hn hfound hkeep => exact .keep hn (hstays hfound nofun) hkeep
  | follow hn hfound hfollow _ ih => exact .follow hn (hstays hfound nofun) hfollow ih

end EndsAt

/-! ## Writing -/

/-- What it is for a file to be written at a location through a path. -/
structure IsWritten (t t' : FileTree) (path : Text) (content : Bytes) (loc : Location) : Prop where
  /-- The path leads to the content. -/
  stat : t'.stat path = .ok (loc, .file content)
  /-- Everything else is as before. -/
  lookup : ∀ other, other ≠ loc → t'.lookup other = t.lookup other
  workDir : t'.workDir = t.workDir
  /-- The path led to a file there, or to a free name. -/
  before : (∃ old, t.stat path = .ok (loc, .file old)) ∨
    t.stat path = .error .missing ∧ t.lookup loc = none
  /-- The file is at the path itself, unless there was a link that is still there. -/
  own : t'.entryAt .keep path = .ok (loc, .file content) ∨ ∃ link target,
    t.entryAt .keep path = .ok (link, .link target) ∧
      t'.entryAt .keep path = .ok (link, .link target)

/-- A file is written where the path leads through all links, at a free name or over another file. -/
theorem find_of_write (h : t.write path content = .ok t') :
    ∃ r, t.find .write path = .ok r ∧ t' = t.insert r.location (.file content) ∧
      (∀ e ∈ r.entry?, ∃ old, e = .file old) ∧ t.lookup r.location = r.entry? := by
  have hlookup : ∀ {r}, t.find .write path = .ok r → (∀ e ∈ r.entry?, ∃ old, e = .file old) →
      t.lookup r.location = r.entry? := by
    intro r hfind hr
    refine (endsAt_of_walk (walk_of_find hfind)).lookup_location fun hdir ↦ ?_
    obtain ⟨old, hold⟩ := hr _ hdir
    cases hold
  unfold write at h
  split at h
  · rename_i loc old hfind
    cases h
    have hr : ∀ e ∈ Found.entry? (.entry loc (.file old)), ∃ old, e = .file old := by
      rintro _ ⟨⟩
      exact ⟨old, rfl⟩
    exact ⟨_, hfind, rfl, hr, hlookup hfind hr⟩
  · cases h
  · rename_i dir n hfind
    cases h
    have hr : ∀ e ∈ Found.entry? (.vacant dir n), ∃ old, e = .file old := nofun
    exact ⟨_, hfind, rfl, hr, hlookup hfind hr⟩
  · cases h

theorem written_location (hr : ∀ e ∈ r.entry?, ∃ old, e = .file old) :
    r.written r.location content = .entry r.location (.file content) := by
  cases r with
  | vacant dir n => exact if_pos rfl
  | entry loc e =>
    obtain ⟨old, rfl⟩ := hr e rfl
    exact if_pos rfl

/-- Writing a file that succeeds has written it somewhere. -/
theorem exists_isWritten_of_write (h : t.write path content = .ok t') :
    ∃ loc, t.IsWritten t' path content loc := by
  obtain ⟨r, hfind, rfl, hr, hlookup⟩ := find_of_write h
  obtain ⟨hpath, hwalk⟩ := find_eq_ok_iff.1 hfind
  have hfollow : t.EndsAt .follow 40 (start t.workDir path) (Step.listOfText path) r :=
    (endsAt_of_walk hwalk).follow_of_ne_link nofun
  have hfree : ∀ e ∈ t.lookup r.location, ∃ old, e = .file old := hlookup ▸ hr
  have hbefore : t.find .follow path = .ok r :=
    find_eq_ok_iff.2 ⟨hpath, hfollow.walk_eq (by decide)⟩
  have hafter : ∀ {last r'}, t.EndsAt last 40 (start t.workDir path) (Step.listOfText path) r' →
      last ≠ .write → (t.insert r.location (.file content)).find last path =
        .ok (r'.written r.location content) :=
    fun hends hlast ↦ find_eq_ok_iff.2 ⟨hpath, (hends.insert_file hfree).walk_eq hlast⟩
  refine ⟨r.location, ?_, fun other hne ↦ lookup_insert_of_ne t hne _, rfl, ?_, ?_⟩
  · rw [stat, entryAt_eq_ok_iff, hafter hfollow (by decide), written_location hr]
  · cases r with
    | entry loc e =>
      obtain ⟨old, rfl⟩ := hr e rfl
      exact .inl ⟨old, entryAt_eq_ok_iff.2 hbefore⟩
    | vacant dir n => exact .inr ⟨by rw [stat, entryAt, hbefore], hlookup⟩
  · obtain ⟨r', hkeep, hr'⟩ := hfollow.exists_keep
    have hkept := hafter hkeep (by decide)
    rcases hr' with rfl | ⟨link, target, rfl⟩
    · rw [written_location hr] at hkept
      exact .inl (entryAt_eq_ok_iff.2 hkept)
    · exact .inr ⟨link, target,
        entryAt_eq_ok_iff.2 (find_eq_ok_iff.2 ⟨hpath, hkeep.walk_eq (by decide)⟩),
        entryAt_eq_ok_iff.2 hkept⟩

/-- What was written is read. -/
theorem IsWritten.read (h : t.IsWritten t' path content loc) : t'.read path = .ok content := by
  rw [FileTree.read, h.stat]

end FileTree

end SolidityImports
