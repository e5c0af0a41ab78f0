import Mathlib.Data.List.Permutation
import SolidityImports.Proofs.FileTree.Resolution

/-! # Canonical paths

A canonical path leads from the root down through entries that are no links. Main statement: a path
either has no canonical form, for a reason that is told with the path, or its canonical form is such
a path, is its own canonical form unless it is too long to be used, and is shared by just those paths
that lead to the same entry. -/

namespace SolidityImports.FileTree

variable {t : FileTree} {p c done : Path} {loc : Location} {e : Entry} {s : Text}
  {segments : List Segment} {result : Except CanonicalFault Path}

/-! ## Paths without links -/

/-- Whether a path leads from the root down through entries that are no links. -/
structure IsCanonical (t : FileTree) (c : Path) : Prop where
  anchor : c.anchor = .root
  names : .up ∉ c.segments
  entries : ∀ segments, segments <+: c.segments →
    ∃ e, t.lookup (t.located ⟨c.anchor, segments⟩) = some e ∧ ∀ target, e ≠ .link target

theorem isCanonical_pathTo (ht : t.IsFileSystem) (he : t.lookup loc = some e)
    (hlink : ∀ target, e ≠ .link target) : t.IsCanonical (pathTo loc) where
  anchor := rfl
  names := by simp [pathTo]
  entries := by
    intro segments hpart
    obtain ⟨above, habove, rfl⟩ := List.prefix_map_iff.1 hpart
    have hlocated : t.located ⟨.root, above.map .name⟩ = above := t.located_pathTo above
    rw [show (pathTo loc).anchor = .root from rfl, hlocated]
    by_cases heq : above = loc
    · exact ⟨e, heq ▸ he, hlink⟩
    · exact ⟨.directory, ht.lookup_of_prefix he habove heq, fun _ ↦ Entry.noConfusion⟩

/-- Names of entries that are no links are passed one after the other, as long as the path is not
too long. -/
theorem resolveFrom_names (ht : t.IsFileSystem) (hdone : t.IsResolved done) {names : List FileName}
    (he : t.lookup (t.located done ++ names) = some e) (hlink : ∀ target, e ≠ .link target)
    {enter : Path → Path → Text → Except CanonicalFault Path} :
    t.resolveFrom enter done (names.map .name) = .ok c ↔
      c = done.below names ∧ (names = [] ∨ (done.below names).text.utf8Size ≤ 4095) := by
  induction names generalizing done with
  | nil => simp [resolveFrom, eq_comm]
  | cons n names ih =>
    have hlocated : t.located done ++ n :: names = t.located (done.child n) ++ names := by simp
    obtain ⟨e', he', hlink'⟩ : ∃ e', t.lookup (t.located done ++ [n]) = some e' ∧
        ∀ target, e' ≠ .link target := by
      by_cases hnames : names = []
      · exact ⟨e, hnames ▸ he, hlink⟩
      · refine ⟨.directory, ht.lookup_of_prefix he ?_ ?_, fun _ ↦ Entry.noConfusion⟩
        · simp
        · simpa using Ne.symm hnames
    have hiff : ∀ loc e, t.entryAt .keep (done.child n).text = .ok (loc, e) ↔ _ :=
      fun loc e ↦ hdone.entryAt_child_iff ht
    rw [List.map_cons, Path.below_cons]
    by_cases hsize : (done.child n).text.utf8Size ≤ 4095
    · have hchild : t.IsResolved (done.child n) := hdone.child he' hlink'
      rw [resolveFrom_name ((hiff _ e').2 ⟨rfl, he', hsize⟩) hlink', ih hchild (hlocated ▸ he)]
      simp only [reduceCtorEq, false_or, and_congr_right_iff, or_iff_right_iff_imp]
      rintro - rfl
      rwa [Path.below_nil]
    · -- The path is too long already, and what is below it is no shorter.
      have hbelow := Path.utf8Size_text_le_below (done.child n) names
      rw [resolveFrom]
      cases hfound : t.entryAt .keep (done.child n).text with
      | ok found => exact absurd ((hiff _ _).1 hfound).2.2 hsize
      | error f =>
        simp only [reduceCtorEq, false_or, false_iff, not_and]
        omega

/-- The canonical form of names behind a bare anchor, if none of them stands for a link. -/
theorem canonical_below (ht : t.IsFileSystem) {anchor : Anchor} (hanchor : anchor ≠ .doubleRoot)
    {names : List FileName} (he : t.lookup (t.located ⟨anchor, []⟩ ++ names) = some e)
    (hlink : ∀ target, e ≠ .link target) :
    t.canonical ((⟨anchor, []⟩ : Path).below names) = .ok c ↔
      c = pathTo (t.located ⟨anchor, []⟩ ++ names) ∧
        (names = [] ∨ ((⟨anchor, []⟩ : Path).below names).text.utf8Size ≤ 4095) := by
  obtain ⟨enter, henter⟩ : ∃ enter, t.resolve t.linkDepth [] = t.resolveFrom enter := by
    cases t.linkDepth with
    | zero => exact ⟨_, rfl⟩
    | succ depth => exact ⟨_, rfl⟩
  have hdone : t.IsResolved ⟨anchor, []⟩ := by
    cases anchor with
    | relative => exact .climb 0
    | root => exact .root
    | doubleRoot => exact absurd rfl hanchor
  have hcanonical : t.canonical ((⟨anchor, []⟩ : Path).below names) =
      (t.resolveFrom enter ⟨anchor, []⟩ (names.map .name)).map fun p ↦ pathTo (t.located p) := by
    unfold canonical
    rw [henter]
    cases anchor with
    | relative => rfl
    | root => rfl
    | doubleRoot => exact absurd rfl hanchor
  have hnames : ∀ c, t.resolveFrom enter ⟨anchor, []⟩ (names.map .name) = .ok c ↔ _ :=
    fun c ↦ resolveFrom_names ht hdone he hlink
  rw [hcanonical]
  constructor
  · intro h
    cases hresolved : t.resolveFrom enter ⟨anchor, []⟩ (names.map .name) with
    | error f =>
      rw [hresolved] at h
      cases h
    | ok p =>
      rw [hresolved] at h
      obtain ⟨rfl, hsize⟩ := (hnames p).1 hresolved
      rw [← located_below]
      exact ⟨(Except.ok.inj h).symm, hsize⟩
  · rintro ⟨rfl, hsize⟩
    rw [(hnames _).2 ⟨rfl, hsize⟩, ← located_below]
    rfl

/-- A path without links has itself as its canonical form, unless it is too long to be used. -/
theorem canonical_pathTo (ht : t.IsFileSystem) (he : t.lookup loc = some e)
    (hlink : ∀ target, e ≠ .link target) :
    t.canonical (pathTo loc) = .ok (pathTo loc) ↔ (pathTo loc).text.utf8Size ≤ 4095 := by
  have hroot : Anchor.root ≠ .doubleRoot := Anchor.noConfusion
  have hnames : t.lookup (t.located ⟨.root, []⟩ ++ loc) = some e := he
  refine (canonical_below ht hroot hnames hlink).trans ?_
  constructor
  · rintro ⟨-, rfl | hsize⟩
    · decide
    · exact hsize
  · exact fun hsize ↦ ⟨rfl, .inr hsize⟩

/-! ## Rooted paths -/

/-- Whether a path starts at the root and is not too long to be used. -/
def FitsFromRoot (p : Path) : Prop := p.anchor = .root ∧ p.text.utf8Size ≤ 4095

theorem fitsFromRoot_root : FitsFromRoot ⟨.root, []⟩ := ⟨rfl, by decide⟩

theorem IsResolved.fitsFromRoot_ascend (hp : t.IsResolved p) (hfits : FitsFromRoot p) :
    FitsFromRoot (FileTree.ascend p) := by
  cases hp with
  | root => exact hfits
  | climb k => cases hfits.1
  | @child p n e hp he hlink =>
    rw [ascend_child]
    exact ⟨hfits.1, Nat.le_trans (Path.utf8Size_text_le_child p n) hfits.2⟩

theorem IsResolved.eq_pathTo (hp : t.IsResolved p) (hroot : p.anchor = .root) :
    p = pathTo (t.located p) := by
  rcases hp.eq_pathTo_or_eq_below_climb with heq | ⟨k, names, rfl⟩
  · exact heq
  · cases hroot

/-- From the root, resolving ends with a path that has been used and so is not too long. -/
theorem Resolves.fitsFromRoot (ht : t.IsFileSystem) {entered : List Path}
    (h : t.Resolves entered done segments result) (hdone : t.IsResolved done)
    (hfits : FitsFromRoot done) (hresult : result = .ok p) : FitsFromRoot p := by
  have hstart : ∀ {done : Path} (target : Text), FitsFromRoot done →
      FitsFromRoot (linkStart done target) := by
    intro done target hfits
    unfold linkStart
    split
    · exact fitsFromRoot_root
    · exact hfits
  induction h generalizing p with
  | nil =>
    obtain rfl := Except.ok.inj hresult
    exact hfits
  | up _ ih => exact ih hdone.ascend (hdone.fitsFromRoot_ascend hfits) hresult
  | fault _ => cases hresult
  | name he hlink _ ih =>
    have hsize := ((hdone.entryAt_child_iff ht).1 he).2.2
    exact ih (hdone.child_of_entryAt ht he hlink) ⟨hfits.1, hsize⟩ hresult
  | loop _ _ _ => cases hresult
  | linkFault _ _ _ _ => cases hresult
  | link _ _ htarget _ ihtarget ih =>
    have hresolved := htarget.isResolved ht (hdone.linkStart _) rfl
    exact ih hresolved (ihtarget (hdone.linkStart _) (hstart _ hfits) rfl) hresult

/-! ## Canonical forms -/

theorem canonicalize_eq_ok_iff : t.canonicalize p = .ok c ↔ t.canonical p = .ok c := by
  unfold canonicalize
  split <;> simp_all

theorem linkStart_here (s : Text) :
    linkStart .here s = ⟨if (Path.ofText s).isRooted then .root else .relative, []⟩ := by
  rw [Path.isRooted_ofText, linkStart]
  split <;> simp_all [Path.here]

theorem isResolved_linkStart_here (s : Text) : t.IsResolved (linkStart .here s) :=
  IsResolved.linkStart (.climb 0) s

/-- The canonical form of a path is what an unbounded resolution of its segments ends with, in the
one way that it can. -/
theorem resolves_canonical (ht : t.IsFileSystem) (s : Text) :
    ∃ result, (∀ result', t.Resolves [] (linkStart .here s) (Segment.listOfText s) result' ↔
        result' = result) ∧
      t.canonical (.ofText s) = result.map fun p ↦ pathTo (t.located p) := by
  have hresolves : t.Resolves [] (linkStart .here s) ((Step.listOfText s).filterMap Step.segment?)
      (t.resolve t.linkDepth [] (linkStart .here s)
        ((Step.listOfText s).filterMap Step.segment?)) :=
    resolves_resolve ht (Nat.le_add_left _ _) List.nodup_nil (List.nil_subset _)
      (isResolved_linkStart_here s) .nil
  rw [Step.filterMap_segment?_listOfText] at hresolves
  refine ⟨_, fun result' ↦ ⟨fun h ↦ h.unique hresolves, fun h ↦ h ▸ hresolves⟩, ?_⟩
  rw [linkStart_here]
  rfl

/-- Resolving ends at an entry, with a path that is resolved. -/
theorem exists_isResolved_of_canonicalize (ht : t.IsFileSystem)
    (hc : t.canonicalize (.ofText s) = .ok c) :
    ∃ p, t.Resolves [] (linkStart .here s) (Segment.listOfText s) (.ok p) ∧ t.IsResolved p ∧
      c = pathTo (t.located p) := by
  obtain ⟨result, hresolves, hcanonical⟩ := resolves_canonical ht s
  rw [canonicalize_eq_ok_iff, hcanonical] at hc
  cases result with
  | error f => cases hc
  | ok p =>
    have hp := (hresolves _).2 rfl
    exact ⟨p, hp, hp.isResolved ht (isResolved_linkStart_here s) rfl, (Except.ok.inj hc).symm⟩

/-- A path that leads to an entry has no canonical form but the path to that entry. -/
theorem eq_pathTo_of_canonicalize_of_stat (ht : t.IsFileSystem) {found : Location × Entry}
    (hc : t.canonicalize (.ofText s) = .ok c) (hfound : t.stat s = .ok found) :
    c = pathTo found.1 := by
  obtain ⟨p, hresolves, -, rfl⟩ := exists_isResolved_of_canonicalize ht hc
  have harrives := hresolves.arrivesAt ht (isResolved_linkStart_here s) rfl
    (Step.filterMap_segment?_listOfText s)
  rw [← start_located] at harrives
  have hwalk := walk_of_find (entryAt_eq_ok_iff.1 hfound)
  rw [← List.append_nil (Step.listOfText s)] at hwalk
  rcases harrives 40 [] _ hwalk with ⟨left, -, hend⟩ | ⟨-, content, hend⟩
  · rw [walk_nil] at hend
    obtain ⟨hloc, -⟩ := Found.entry.inj (Except.ok.inj hend)
    rw [hloc]
  · obtain ⟨hloc, -⟩ := Found.entry.inj hend
    rw [hloc]

/-- The canonical form of a path leads from the root through no link, and is its own canonical form
unless it is too long to be used; no path from the root has such a long one. -/
theorem isCanonical_of_canonicalize (ht : t.IsFileSystem)
    (hc : t.canonicalize (.ofText s) = .ok c) :
    t.IsCanonical c ∧ (t.canonicalize c = .ok c ↔ c.text.utf8Size ≤ 4095) ∧
      ((Path.ofText s).isRooted → c.text.utf8Size ≤ 4095) := by
  obtain ⟨p, hresolves, hp, rfl⟩ := exists_isResolved_of_canonicalize ht hc
  obtain ⟨e, he, hlink⟩ := hp.exists_lookup ht
  refine ⟨isCanonical_pathTo ht he hlink, ?_, ?_⟩
  · rw [canonicalize_eq_ok_iff]
    exact canonical_pathTo ht he hlink
  · intro hrooted
    have hslash : s.head? = some '/' := by simpa [Path.isRooted_ofText] using hrooted
    rw [linkStart, if_pos hslash] at hresolves
    have hfits := hresolves.fitsFromRoot ht .root fitsFromRoot_root rfl
    rw [← hp.eq_pathTo hfits.1]
    exact hfits.2

/-- The reason why a path without NUL has no canonical form is told with the path. -/
theorem canonicalize_eq_error (ht : t.NulFree) (hs : '\x00' ∉ s) {err : Error}
    (h : t.canonicalize (.ofText s) = .error err) : ∃ reason, err = .file reason (.ofText s) := by
  have hnul := canonical_ne_nul ht (Path.NulFree.ofText hs)
  unfold canonicalize at h
  split at h
  · cases h
  · rename_i hfault
    exact absurd hfault hnul
  · exact ⟨_, (Except.error.inj h).symm⟩

/-- Canonical forms are found by a resolution that ends, and they tell entries apart. -/
theorem canonicalize_tells_entries_apart (ht : t.IsFileSystem) (hs : '\x00' ∉ s) :
    (∃ result, (∀ result', t.Resolves [] (linkStart .here s) (Segment.listOfText s) result' ↔
        result' = result) ∧
      t.canonical (.ofText s) = result.map fun p ↦ pathTo (t.located p)) ∧
    ((∃ reason, t.canonicalize (.ofText s) = .error (.file reason (.ofText s))) ∨
      ∃ c, t.canonicalize (.ofText s) = .ok c ∧ t.IsCanonical c ∧
        (t.canonicalize c = .ok c ↔ c.text.utf8Size ≤ 4095) ∧
        ((Path.ofText s).isRooted → c.text.utf8Size ≤ 4095)) ∧
    ∀ {s' : Text} {c d : Path} {found found' : Location × Entry},
      t.canonicalize (.ofText s) = .ok c → t.canonicalize (.ofText s') = .ok d →
      t.stat s = .ok found → t.stat s' = .ok found' → (c = d ↔ found.1 = found'.1) := by
  refine ⟨resolves_canonical ht s, ?_, ?_⟩
  · cases hc : t.canonicalize (.ofText s) with
    | error err =>
      obtain ⟨reason, rfl⟩ := canonicalize_eq_error ht.link hs hc
      exact .inl ⟨reason, rfl⟩
    | ok c => exact .inr ⟨c, rfl, isCanonical_of_canonicalize ht hc⟩
  · intro s' c d found found' hc hd hfound hfound'
    rw [eq_pathTo_of_canonicalize_of_stat ht hc hfound,
      eq_pathTo_of_canonicalize_of_stat ht hd hfound']
    exact pathTo_injective.eq_iff

/-- A link has the canonical form of the file that it leads to; a link to itself has none. -/
theorem canonicalize_linkBesideFile :
    linkBesideFile.IsFileSystem ∧
      (∃ c d found found', linkBesideFile.canonicalize (.ofText (.of "b")) = .ok c ∧
        linkBesideFile.canonicalize (.ofText (.of "/w/a")) = .ok d ∧
        linkBesideFile.stat (.of "b") = .ok found ∧
        linkBesideFile.stat (.of "/w/a") = .ok found' ∧ found.1 = found'.1 ∧ c = d) ∧
      ∃ reason, linkBesideFile.canonicalize (.ofText (.of "c")) =
        .error (.file reason (.ofText (.of "c"))) := by
  have ht : linkBesideFile.IsFileSystem := by decide
  have hb : linkBesideFile.canonicalize (.ofText (.of "b")) = .ok (.ofText (.of "/w/a")) := by cbv
  have ha : linkBesideFile.canonicalize (.ofText (.of "/w/a")) = .ok (.ofText (.of "/w/a")) := by cbv
  have hc : ∀ c, linkBesideFile.canonicalize (.ofText (.of "c")) ≠ .ok c := by
    have hsome : (linkBesideFile.canonicalize (.ofText (.of "c"))).toOption = none := by
      decide +kernel
    intro c h
    rw [h] at hsome
    cases hsome
  refine ⟨ht, ⟨_, _, _, _, hb, ha, rfl, rfl, rfl, ?_⟩, ?_⟩
  · exact ((canonicalize_tells_entries_apart ht (by decide)).2.2 hb ha rfl rfl).2 rfl
  · rcases (canonicalize_tells_entries_apart ht (s := .of "c") (by decide)).2.1 with h | ⟨c, h, -⟩
    · exact h
    · exact absurd h (hc c)

/-! ## Canonical forms that are too long -/

/-- A name of the greatest size. -/
def longName : FileName where
  text := List.replicate 255 'x'
  valid := by decide

theorem utf8Size_longName : longName.text.utf8Size = 255 := Text.utf8Size_replicate 255 'x'

theorem nul_not_mem_longName : '\x00' ∉ longName.text := by
  intro h
  cases List.eq_of_mem_replicate h

/-- Sixteen directories of this name, each in the one before it and the first one in the root, which
is the working directory. -/
def nestedDirectories : FileTree where
  entries := (List.range 16).map fun k ↦ (List.replicate (k + 1) longName, .directory)
  distinct := by
    rw [List.map_map]
    refine List.nodup_range.map ?_
    intro k k' h
    simpa using congrArg List.length h
  workDir := []

theorem lookup_nestedDirectories {k : Nat} (hk : k ≤ 16) :
    nestedDirectories.lookup (List.replicate k longName) = some .directory := by
  cases k with
  | zero => rfl
  | succ k =>
    refine (lookup_eq_some_iff (List.cons_ne_nil _ _)).2 ?_
    exact List.mem_map.2 ⟨k, List.mem_range.2 hk, rfl⟩

theorem isFileSystem_nestedDirectories : nestedDirectories.IsFileSystem where
  parent := by
    intro x hx
    obtain ⟨k, hk, rfl⟩ := List.mem_map.1 hx
    have hup : (List.replicate (k + 1) longName).dropLast = List.replicate k longName := by simp
    rw [hup]
    exact lookup_nestedDirectories (Nat.le_of_lt (List.mem_range.1 hk))
  name := by
    intro x hx n hn
    obtain ⟨k, hk, rfl⟩ := List.mem_map.1 hx
    obtain rfl := List.eq_of_mem_replicate hn
    exact ⟨nul_not_mem_longName, Nat.le_of_eq utf8Size_longName⟩
  link := by
    intro x hx
    obtain ⟨k, hk, rfl⟩ := List.mem_map.1 hx
    trivial
  workDir := rfl

/-- The relative path to the innermost directory takes 4095 bytes, and the one from the root takes
one more: it is the canonical form of the first one, and has none itself. -/
theorem canonicalize_nestedDirectories_ne :
    nestedDirectories.IsFileSystem ∧ (Path.here.below (List.replicate 16 longName)).NulFree ∧
      nestedDirectories.canonicalize (Path.here.below (List.replicate 16 longName)) =
        .ok (pathTo (List.replicate 16 longName)) ∧
      nestedDirectories.canonicalize (pathTo (List.replicate 16 longName)) ≠
        .ok (pathTo (List.replicate 16 longName)) := by
  have ht := isFileSystem_nestedDirectories
  have hlookup := lookup_nestedDirectories (Nat.le_refl 16)
  have hlink : ∀ target, Entry.directory ≠ .link target := fun _ ↦ Entry.noConfusion
  have hfree : (Path.here.below (List.replicate 16 longName)).NulFree := by
    intro s hs
    obtain ⟨n, hn, rfl⟩ := List.mem_map.1 hs
    rw [List.eq_of_mem_replicate hn]
    exact nul_not_mem_longName
  have hsegments : Segment.sizeOf ((List.replicate 16 longName).map .name) = 4096 := by
    simp [Segment.sizeOf, Segment.text, utf8Size_longName]
  have hrelative : (Path.here.below (List.replicate 16 longName)).text.utf8Size = 4095 := by
    have hne : Path.here.below (List.replicate 16 longName) ≠ .here :=
      Path.below_ne_here .here (List.cons_ne_nil _ _)
    have hanchor : Anchor.relative.text.utf8Size = 0 := rfl
    rw [Path.utf8Size_text hne]
    simp only [Path.below, Path.here, List.nil_append, hsegments, hanchor]
  have hroot : (pathTo (List.replicate 16 longName)).text.utf8Size = 4096 := by
    have hne : pathTo (List.replicate 16 longName) ≠ .here := by
      intro h
      simpa [pathTo, Path.here] using congrArg Path.anchor h
    have hanchor : Anchor.root.text.utf8Size = 1 := by decide
    rw [Path.utf8Size_text hne]
    simp only [pathTo, hsegments, hanchor]
  refine ⟨ht, hfree, ?_, ?_⟩
  · have hanchor : Anchor.relative ≠ .doubleRoot := Anchor.noConfusion
    rw [canonicalize_eq_ok_iff]
    exact (canonical_below ht hanchor hlookup hlink).2 ⟨rfl, .inr (Nat.le_of_eq hrelative)⟩
  · rw [ne_eq, canonicalize_eq_ok_iff, canonical_pathTo ht hlookup hlink, hroot]
    decide

end SolidityImports.FileTree
