import Mathlib.Data.List.Permutation
import Mathlib.Data.List.Perm.Subperm
import SolidityImports.Proofs.FileTree.Stat
import SolidityImports.Source.Discovery

/-! # The sources that are found

A way down leads from a directory to an entry that leads to a directory, and so on, and at last to an
entry that leads to a file. Main statement: the sources that are found below a directory are those at
the end of the ways down that enter no directory twice, each of them once, and every source at the end
of some way down is one of these under some path. -/

namespace SolidityImports.FileTree

variable {t : FileTree} {p q root : Path} {n f : FileName} {names : List FileName}
  {loc : Location} {dirs above : List Location} {depth : Nat} {e : Entry} {found : Location × Entry}

/-! ## Ways down -/

/-- Whether a path and its ways on along names lead to directories, one after the other. -/
inductive LeadsDown (t : FileTree) : Path → List FileName → List Location → Prop
  | nil {p : Path} {loc : Location} (hp : t.stat p.text = .ok (loc, .directory)) :
    LeadsDown t p [] [loc]
  | cons {p : Path} {loc : Location} {n : FileName} {names : List FileName} {dirs : List Location}
    (hp : t.stat p.text = .ok (loc, .directory)) (hrest : LeadsDown t (p.child n) names dirs) :
    LeadsDown t p (n :: names) (loc :: dirs)

namespace LeadsDown

theorem exists_stat (h : t.LeadsDown p names dirs) :
    ∃ loc, t.stat p.text = .ok (loc, .directory) := by
  cases h with
  | nil hp => exact ⟨_, hp⟩
  | cons hp _ => exact ⟨_, hp⟩

/-- A way that leads somewhere leads through directories to it. -/
theorem of_stat (h : t.stat ((p.below names).child f).text = .ok found) :
    ∃ dirs, t.LeadsDown p names dirs := by
  induction names generalizing p with
  | nil =>
    rw [Path.below_nil] at h
    obtain ⟨loc, hp, -⟩ := exists_stat_of_stat_child h
    exact ⟨[loc], .nil hp⟩
  | cons n names ih =>
    rw [Path.below_cons] at h
    obtain ⟨dirs, hdirs⟩ := ih h
    obtain ⟨_, hchild⟩ := hdirs.exists_stat
    obtain ⟨loc, hp, -⟩ := exists_stat_of_stat_child hchild
    exact ⟨loc :: dirs, .cons hp hdirs⟩

theorem exists_below_of_mem (h : t.LeadsDown p names dirs) (hloc : loc ∈ dirs) :
    ∃ front rest, names = front ++ rest ∧ t.stat (p.below front).text = .ok (loc, .directory) := by
  induction h with
  | @nil p loc' hp =>
    obtain rfl := List.mem_singleton.1 hloc
    exact ⟨[], [], rfl, by rwa [Path.below_nil]⟩
  | @cons p loc' n names dirs hp hrest ih =>
    rcases List.mem_cons.1 hloc with rfl | hloc
    · exact ⟨[], n :: names, rfl, by rwa [Path.below_nil]⟩
    · obtain ⟨front, rest, rfl, hfront⟩ := ih hloc
      exact ⟨n :: front, rest, rfl, by rwa [Path.below_cons]⟩

/-- A way that enters a directory twice has a part that leads back there. -/
theorem exists_loop (h : t.LeadsDown p names dirs) (hdirs : ¬ dirs.Nodup) :
    ∃ front loop rest loc, names = front ++ (loop ++ rest) ∧ loop ≠ [] ∧
      t.stat (p.below front).text = .ok (loc, .directory) ∧
      t.stat ((p.below front).below loop).text = .ok (loc, .directory) := by
  induction h with
  | nil hp => exact absurd (List.nodup_singleton _) hdirs
  | @cons p loc n names dirs hp hrest ih =>
    by_cases hloc : loc ∈ dirs
    · obtain ⟨loop, rest, rfl, hloop⟩ := hrest.exists_below_of_mem hloc
      refine ⟨[], n :: loop, rest, loc, rfl, List.cons_ne_nil _ _, ?_, ?_⟩
      · rwa [Path.below_nil]
      · rwa [Path.below_nil, Path.below_cons]
    · have hrest' : ¬ dirs.Nodup := fun h ↦ hdirs (List.nodup_cons.2 ⟨hloc, h⟩)
      obtain ⟨front, loop, rest, loc', rfl, hloop, hfront, hback⟩ := ih hrest'
      refine ⟨n :: front, loop, rest, loc', rfl, hloop, ?_, ?_⟩
      · rwa [Path.below_cons]
      · rwa [Path.below_cons]

end LeadsDown

/-- Whether a path leads from `root` down to a source, and enters no directory twice on the way. -/
def IsSourceBelow (t : FileTree) (root p : Path) : Prop :=
  ∃ names f dirs, p = (root.below names).child f ∧ t.LeadsDown root names dirs ∧ dirs.Nodup ∧
    (p.suffix = .of ".sol" ∨ p.suffix = .of ".yul") ∧ t.leadsToFile p.text

theorem isSourcePath_iff : isSourcePath p ↔ p.suffix = .of ".sol" ∨ p.suffix = .of ".yul" := by
  simp [isSourcePath, sourceSuffixes]

/-! ## The search -/

/-- What the search finds at an entry of a directory. -/
def sourcesAt (t : FileTree) (depth : Nat) (above : List Location) (p : Path) : List Path :=
  if t.leadsToDirectory p.text then t.sourcesBelow depth above p
  else if isSourcePath p && t.leadsToFile p.text then [p] else []

theorem sourcesBelow_of_directory (hp : t.stat p.text = .ok (loc, .directory)) (hloc : loc ∉ above) :
    t.sourcesBelow (depth + 1) above p =
      (t.children loc).flatMap fun x ↦ t.sourcesAt depth (loc :: above) (p.child x.1) := by
  rw [sourcesBelow, hp]
  exact if_neg hloc

theorem sourcesBelow_of_not_directory
    (h : ¬ ∃ loc, t.stat p.text = .ok (loc, .directory) ∧ loc ∉ above) :
    t.sourcesBelow depth above p = [] := by
  cases depth with
  | zero => rfl
  | succ depth =>
    rw [sourcesBelow]
    split
    · rename_i loc hp
      exact if_pos (by_contra fun hloc ↦ h ⟨loc, hp, hloc⟩)
    · rfl

theorem sourcesAt_of_directory (hp : t.stat p.text = .ok (loc, .directory)) :
    t.sourcesAt depth above p = t.sourcesBelow depth above p :=
  if_pos (leadsToDirectory_iff.2 ⟨loc, hp⟩)

theorem mem_sourcesAt_of_file (hsource : isSourcePath p) (hfile : t.leadsToFile p.text) :
    p ∈ t.sourcesAt depth above p := by
  obtain ⟨loc, content, hp⟩ := leadsToFile_iff.1 hfile
  have hdirectory : ¬ t.leadsToDirectory p.text := by
    rw [leadsToDirectory_iff, hp]
    simp
  simp [sourcesAt, hdirectory, hsource, hfile]

/-- What is found at an entry is found below it, or is the entry itself. -/
theorem mem_sourcesAt_cases (h : q ∈ t.sourcesAt depth above p) :
    q ∈ t.sourcesBelow depth above p ∨ q = p ∧ isSourcePath q ∧ t.leadsToFile q.text := by
  unfold sourcesAt at h
  split at h
  · exact .inl h
  split at h
  · rename_i hsource
    obtain rfl := List.mem_singleton.1 h
    rw [Bool.and_eq_true] at hsource
    exact .inr ⟨rfl, hsource⟩
  · cases h

/-- A source at the end of a way down is found if the way is not too deep and enters no directory
twice. -/
theorem mem_sourcesBelow (hway : t.LeadsDown p names dirs) (hdirs : dirs.Nodup)
    (habove : ∀ loc ∈ dirs, loc ∉ above) (hdepth : names.length < depth)
    (hsource : isSourcePath ((p.below names).child f))
    (hfile : t.leadsToFile ((p.below names).child f).text) :
    (p.below names).child f ∈ t.sourcesBelow depth above p := by
  induction hway generalizing above depth with
  | @nil p loc hp =>
    obtain ⟨depth, rfl⟩ := Nat.exists_eq_succ_of_ne_zero (Nat.ne_zero_of_lt hdepth)
    rw [Path.below_nil] at hsource hfile ⊢
    obtain ⟨_, _, hstat⟩ := leadsToFile_iff.1 hfile
    obtain ⟨e, he⟩ := exists_mem_children_of_stat_child hp hstat
    rw [sourcesBelow_of_directory hp (habove loc List.mem_cons_self)]
    exact List.mem_flatMap.2 ⟨(f, e), he, mem_sourcesAt_of_file hsource hfile⟩
  | @cons p loc n names dirs hp hrest ih =>
    obtain ⟨depth, rfl⟩ := Nat.exists_eq_succ_of_ne_zero (Nat.ne_zero_of_lt hdepth)
    rw [Path.below_cons] at hsource hfile ⊢
    obtain ⟨hloc, hdirs⟩ := List.nodup_cons.1 hdirs
    obtain ⟨hlocAbove, habove⟩ := List.forall_mem_cons.1 habove
    obtain ⟨loc', hchild⟩ := hrest.exists_stat
    obtain ⟨e, he⟩ := exists_mem_children_of_stat_child hp hchild
    have habove' : ∀ x ∈ dirs, x ∉ loc :: above := by
      intro x hx
      rw [List.mem_cons, not_or]
      exact ⟨fun heq ↦ hloc (heq ▸ hx), habove x hx⟩
    rw [sourcesBelow_of_directory hp hlocAbove]
    refine List.mem_flatMap.2 ⟨(n, e), he, ?_⟩
    rw [sourcesAt_of_directory hchild]
    exact ih hdirs habove' (Nat.lt_of_succ_lt_succ hdepth) hsource hfile

/-- What the search finds is a source at the end of a way down that enters no directory twice. -/
theorem exists_leadsDown_of_mem (h : q ∈ t.sourcesBelow depth above p) :
    ∃ names f dirs, q = (p.below names).child f ∧ t.LeadsDown p names dirs ∧ dirs.Nodup ∧
      (∀ loc ∈ dirs, loc ∉ above) ∧ isSourcePath q ∧ t.leadsToFile q.text := by
  induction depth generalizing above p with
  | zero => exact absurd h List.not_mem_nil
  | succ depth ih =>
    by_cases hdirectory : ∃ loc, t.stat p.text = .ok (loc, .directory) ∧ loc ∉ above
    · obtain ⟨loc, hp, hloc⟩ := hdirectory
      rw [sourcesBelow_of_directory hp hloc] at h
      obtain ⟨⟨n, e⟩, -, h⟩ := List.mem_flatMap.1 h
      rcases mem_sourcesAt_cases h with h | ⟨rfl, hsource⟩
      · obtain ⟨names, f, dirs, rfl, hway, hdirs, habove, hq⟩ := ih h
        simp only [List.mem_cons, not_or] at habove
        refine ⟨n :: names, f, loc :: dirs, ?_, .cons hp hway, ?_, ?_, hq⟩
        · rw [Path.below_cons]
        · exact List.nodup_cons.2 ⟨fun hmem ↦ (habove loc hmem).1 rfl, hdirs⟩
        · exact List.forall_mem_cons.2 ⟨hloc, fun x hx ↦ (habove x hx).2⟩
      · refine ⟨[], n, [loc], ?_, .nil hp, List.nodup_singleton _, ?_, hsource⟩
        · rw [Path.below_nil]
        · simpa using hloc
    · rw [sourcesBelow_of_not_directory hdirectory] at h
      cases h

theorem exists_eq_below_of_mem_sourcesAt (h : q ∈ t.sourcesAt depth above p) :
    ∃ names, q = p.below names := by
  rcases mem_sourcesAt_cases h with h | ⟨rfl, -⟩
  · obtain ⟨names, f, -, rfl, -⟩ := exists_leadsDown_of_mem h
    exact ⟨names ++ [f], (Path.below_concat p names f).symm⟩
  · exact ⟨[], (Path.below_nil q).symm⟩

/-- The search finds every path once: what it finds at two entries of a directory goes on
differently there. -/
theorem nodup_sourcesBelow : (t.sourcesBelow depth above p).Nodup := by
  induction depth generalizing above p with
  | zero => exact List.nodup_nil
  | succ depth ih =>
    by_cases hdirectory : ∃ loc, t.stat p.text = .ok (loc, .directory) ∧ loc ∉ above
    · obtain ⟨loc, hp, hloc⟩ := hdirectory
      rw [sourcesBelow_of_directory hp hloc, List.nodup_flatMap]
      constructor
      · intro x _
        unfold sourcesAt
        split
        · exact ih
        split
        · exact List.nodup_singleton _
        · exact List.nodup_nil
      · refine (List.pairwise_map.1 (t.nodup_children loc)).imp ?_
        intro x y hne q hx hy
        obtain ⟨names, rfl⟩ := exists_eq_below_of_mem_sourcesAt hx
        obtain ⟨names', heq⟩ := exists_eq_below_of_mem_sourcesAt hy
        rw [← Path.below_cons, ← Path.below_cons] at heq
        exact hne (List.cons.inj (p.below_injective heq)).1
    · rw [sourcesBelow_of_not_directory hdirectory]
      exact List.nodup_nil

/-! ## The depth of the search -/

/-- The root and the locations of all entries. -/
def locations (t : FileTree) : List Location := [] :: t.entries.map Prod.fst

theorem mem_locations (h : t.lookup loc = some e) : loc ∈ t.locations := by
  by_cases hloc : loc = []
  · rw [hloc]
    exact List.mem_cons_self
  · exact List.mem_cons_of_mem _ (List.mem_map.2 ⟨_, (lookup_eq_some_iff hloc).1 h, rfl⟩)

/-- A search that may go deeper finds no more, if the depth is enough for every directory that has
not been entered: it comes to its end by itself. -/
theorem sourcesBelow_eq_of_le (ht : t.IsFileSystem) {more : Nat} (hnodup : above.Nodup)
    (habove : above ⊆ t.locations) (hdepth : t.locations.length < above.length + depth)
    (hle : depth ≤ more) : t.sourcesBelow more above p = t.sourcesBelow depth above p := by
  induction depth generalizing above p more with
  | zero =>
    have hlength := (hnodup.subperm habove).length_le
    omega
  | succ depth ih =>
    obtain ⟨more, rfl⟩ := Nat.exists_eq_succ_of_ne_zero (Nat.ne_zero_of_lt hle)
    by_cases hdirectory : ∃ loc, t.stat p.text = .ok (loc, .directory) ∧ loc ∉ above
    · obtain ⟨loc, hp, hloc⟩ := hdirectory
      rw [sourcesBelow_of_directory hp hloc, sourcesBelow_of_directory hp hloc]
      refine List.flatMap_congr fun x _ ↦ ?_
      unfold sourcesAt
      congr 1
      refine ih (List.nodup_cons.2 ⟨hloc, hnodup⟩) ?_ ?_ (Nat.le_of_succ_le_succ hle)
      · exact List.cons_subset.2 ⟨mem_locations (lookup_of_stat ht hp), habove⟩
      · rw [List.length_cons]
        omega
    · rw [sourcesBelow_of_not_directory hdirectory, sourcesBelow_of_not_directory hdirectory]

/-! ## Sources -/

theorem mem_sourcesBelow_iff (ht : t.IsFileSystem) :
    q ∈ t.sourcesBelow (t.entries.length + 2) [] p ↔ t.IsSourceBelow p q := by
  constructor
  · intro h
    obtain ⟨names, f, dirs, rfl, hway, hdirs, -, hsource, hfile⟩ := exists_leadsDown_of_mem h
    exact ⟨names, f, dirs, rfl, hway, hdirs, isSourcePath_iff.1 hsource, hfile⟩
  · rintro ⟨names, f, dirs, rfl, hway, hdirs, hsource, hfile⟩
    have hdepth : t.locations.length < 0 + (t.entries.length + 2) := by simp [locations]
    -- The way is no deeper than a search that has the depth for it, which finds no more.
    rw [← sourcesBelow_eq_of_le ht List.nodup_nil (List.nil_subset _) hdepth
      (Nat.le_add_left _ (names.length + 1))]
    exact mem_sourcesBelow hway hdirs (fun _ _ ↦ List.not_mem_nil) (by omega)
      (isSourcePath_iff.2 hsource) hfile

theorem suffix_child (p q : Path) (f : FileName) : (p.child f).suffix = (q.child f).suffix := by
  simp [Path.suffix, Path.lastText]

/-- A source at the end of any way down is also at the end of one that enters no directory twice. -/
theorem exists_isSourceBelow (hsource : ((p.below names).child f).suffix = .of ".sol" ∨
      ((p.below names).child f).suffix = .of ".yul")
    (hfile : t.leadsToFile ((p.below names).child f).text) :
    ∃ q, t.IsSourceBelow p q ∧ t.stat q.text = t.stat ((p.below names).child f).text := by
  induction hlength : names.length using Nat.strongRecOn generalizing names with
  | ind length ih =>
    obtain ⟨loc, content, hstat⟩ := leadsToFile_iff.1 hfile
    obtain ⟨dirs, hway⟩ := LeadsDown.of_stat hstat
    by_cases hdirs : dirs.Nodup
    · exact ⟨_, ⟨names, f, dirs, rfl, hway, hdirs, hsource, hfile⟩, rfl⟩
    · obtain ⟨front, loop, rest, _, rfl, hloop, hfront, hback⟩ := hway.exists_loop hdirs
      -- The part that leads back is left out, and the source is still there.
      have hshort : t.stat ((p.below (front ++ rest)).child f).text = .ok (loc, .file content) := by
        rw [Path.below_append, Path.below_append, ← Path.below_concat] at hstat
        rw [Path.below_append, ← Path.below_concat]
        exact stat_below_of_loop hfront hback hstat (List.concat_ne_nil f rest)
      have hlt : (front ++ rest).length < length := by
        have hpos := List.length_pos_iff.2 hloop
        rw [← hlength]
        simp only [List.length_append]
        omega
      rw [suffix_child _ (p.below (front ++ rest))] at hsource
      obtain ⟨q, hq, heq⟩ := ih _ hlt hsource (leadsToFile_iff.2 ⟨loc, content, hshort⟩) rfl
      exact ⟨q, hq, by rw [heq, hshort, hstat]⟩

theorem IsSourceBelow.exists_stat (h : t.IsSourceBelow p q) :
    ∃ loc, t.stat p.text = .ok (loc, .directory) := by
  obtain ⟨names, f, dirs, -, hway, -⟩ := h
  exact hway.exists_stat

theorem mem_sortPaths_iff {ps : List Path} : p ∈ sortPaths ps ↔ p ∈ ps := List.mem_mergeSort

/-- What is found at a path, by what it leads to. -/
theorem exists_sources_eq (ht : t.IsFileSystem) (hroot : '\x00' ∉ root.text) :
    ∃ found, t.sources root = .ok found ∧ found.Nodup ∧
      ∀ p, p ∈ found ↔ match t.stat root.text with
        | .ok (_, .file _) => p = root ∧ (p.suffix = .of ".sol" ∨ p.suffix = .of ".yul")
        | .ok (_, .directory) => t.IsSourceBelow root p
        | _ => False := by
  unfold sources
  rw [if_neg hroot]
  by_cases hfile : t.leadsToFile root.text
  · obtain ⟨loc, content, hstat⟩ := leadsToFile_iff.1 hfile
    rw [if_pos hfile, hstat]
    refine ⟨_, rfl, ?_, fun p ↦ ?_⟩
    · split
      · exact List.nodup_singleton root
      · exact List.nodup_nil
    · rw [← isSourcePath_iff]
      by_cases hsource : isSourcePath root
      · simp +contextual [hsource]
      · simp +contextual [hsource]
  · rw [if_neg hfile]
    refine ⟨_, rfl, ?_, fun p ↦ ?_⟩
    · exact (List.mergeSort_perm _ _).nodup_iff.2 nodup_sourcesBelow
    · rw [mem_sortPaths_iff, mem_sourcesBelow_iff ht]
      constructor
      · intro h
        obtain ⟨loc, hstat⟩ := h.exists_stat
        rw [hstat]
        exact h
      · intro h
        split at h
        · rename_i loc content hstat
          exact absurd (leadsToFile_iff.2 ⟨loc, content, hstat⟩) hfile
        · exact h
        · exact h.elim

/-- The search for sources ends by itself, and finds exactly the sources at the end of the ways down
that enter no directory twice, each of them once; and so every source that some way leads to. -/
theorem sources_exact (ht : t.IsFileSystem) (hroot : '\x00' ∉ root.text) :
    (∀ depth, t.entries.length + 2 ≤ depth →
      t.sourcesBelow depth [] root = t.sourcesBelow (t.entries.length + 2) [] root) ∧
    ∃ found, t.sources root = .ok found ∧ found.Nodup ∧
      (∀ p, p ∈ found ↔ match t.stat root.text with
        | .ok (_, .file _) => p = root ∧ (p.suffix = .of ".sol" ∨ p.suffix = .of ".yul")
        | .ok (_, .directory) => t.IsSourceBelow root p
        | _ => False) ∧
      ∀ p, (p = root ∨ ∃ names f, p = (root.below names).child f) →
        (p.suffix = .of ".sol" ∨ p.suffix = .of ".yul") → t.leadsToFile p.text →
        ∃ q ∈ found, t.stat q.text = t.stat p.text := by
  obtain ⟨found, hfound, hnodup, hmem⟩ := exists_sources_eq ht hroot
  refine ⟨fun depth hdepth ↦ ?_, found, hfound, hnodup, hmem, ?_⟩
  · exact sourcesBelow_eq_of_le ht List.nodup_nil (List.nil_subset _) (by simp [locations]) hdepth
  · rintro p (rfl | ⟨names, f, rfl⟩) hsource hfile
    · obtain ⟨loc, content, hstat⟩ := leadsToFile_iff.1 hfile
      refine ⟨p, (hmem p).2 ?_, rfl⟩
      rw [hstat]
      exact ⟨rfl, hsource⟩
    · obtain ⟨q, hq, heq⟩ := exists_isSourceBelow hsource hfile
      obtain ⟨loc, hstat⟩ := hq.exists_stat
      refine ⟨q, (hmem q).2 ?_, heq⟩
      rw [hstat]
      exact hq

/-- A source that is reached through the loop is found, under some path. -/
theorem sources_loopedDirectory :
    loopedDirectory.IsFileSystem ∧ ∃ found, loopedDirectory.sources .here = .ok found ∧
      ∃ q ∈ found, loopedDirectory.stat q.text = loopedDirectory.stat (.of "up/up/A.sol") := by
  have ht : loopedDirectory.IsFileSystem := by decide
  have hfile : loopedDirectory.leadsToFile (.of "up/up/A.sol") := by cbv
  have hroot : '\x00' ∉ Path.here.text := by decide
  obtain ⟨-, found, hfound, -, -, hreach⟩ := sources_exact ht hroot
  exact ⟨ht, found, hfound, hreach (.below .here [⟨.of "up", by decide⟩, ⟨.of "up", by decide⟩,
    ⟨.of "A.sol", by decide⟩]) (.inr ⟨[_, _], _, rfl⟩) (by cbv) hfile⟩

end SolidityImports.FileTree
