import Mathlib.Data.List.Infix
import SolidityImports.Import.Ancestor
import SolidityImports.Proofs.FileTree.Canonical
import SolidityImports.Proofs.FileTree.Stat
import SolidityImports.Proofs.Path.Ancestor
import SolidityImports.Proofs.Path.Clean

/-! # Trees without links

Where no link interferes, a path stands for the location that its segments lead to, up and down from
where it starts, and so does its clean form as long as no `..` climbs out at the root. Main statements:
a path that leads somewhere has a canonical form, which leads to this location; and the clean form of
an import and the canonical form then agree wherever they exist. -/

namespace SolidityImports

/-- Whether no `..` of a path climbs above where the path starts: up to every place, no more than half
of the segments are `..`, the others being names. -/
def Path.NeverClimbsOut (p : Path) : Prop :=
  ∀ front, front <+: p.segments → 2 * front.count .up ≤ front.length

instance (p : Path) : Decidable p.NeverClimbsOut :=
  decidable_of_iff (∀ front ∈ p.segments.inits, 2 * front.count .up ≤ front.length)
    (by simp only [Path.NeverClimbsOut, List.mem_inits])

namespace FileTree

variable {t : FileTree} {p q done : Path} {n : FileName} {loc loc' : Location} {e : Entry}
  {segments : List Segment} {importPath : Text}

/-- Whether no entry of a tree is a link. -/
def LinkFree (t : FileTree) : Prop := ∀ x ∈ t.entries, ∀ target, x.2 ≠ .link target

instance (t : FileTree) : Decidable t.LinkFree :=
  decidable_of_iff (t.entries.all fun x ↦ match x.2 with | .link _ => false | _ => true) <| by
    rw [List.all_eq_true]
    refine forall₂_congr fun x _ ↦ ?_
    cases x.2 <;> simp

theorem LinkFree.ne_link (hlinks : t.LinkFree) (h : t.lookup loc = some e) (target : Text) :
    e ≠ .link target := by
  by_cases hloc : loc = []
  · subst hloc
    cases h
    exact Entry.noConfusion
  · exact hlinks _ ((lookup_eq_some_iff hloc).1 h) target

/-! ## Where segments lead -/

/-- Where segments lead from a location. -/
def follow (loc : Location) (segments : List Segment) : Location :=
  segments.foldl (fun loc s ↦ match s with | .up => loc.dropLast | .name n => loc ++ [n]) loc

theorem located_eq_follow (t : FileTree) (p : Path) :
    t.located p = follow (t.base p) p.segments := rfl

/-- Without links, resolving goes where the segments lead. -/
theorem Resolves.located_eq (ht : t.IsFileSystem) (hlinks : t.LinkFree) {entered : List Path}
    {result : Except CanonicalFault Path} (h : t.Resolves entered done segments result)
    (hdone : t.IsResolved done) (hresult : result = .ok p) :
    t.located p = follow (t.located done) segments := by
  have hlink : ∀ {done : Path} {n : FileName} {loc : Location} {target : Text},
      t.IsResolved done → t.entryAt .keep (done.child n).text ≠ .ok (loc, .link target) := by
    intro done n loc target hdone he
    obtain ⟨-, hfound, -⟩ := (hdone.entryAt_child_iff ht).1 he
    exact hlinks.ne_link hfound target rfl
  induction h generalizing p with
  | nil =>
    obtain rfl := Except.ok.inj hresult
    rfl
  | up _ ih =>
    rw [ih hdone.ascend hresult, hdone.located_ascend]
    rfl
  | fault _ => cases hresult
  | name he hnone _ ih =>
    rw [ih (hdone.child_of_entryAt ht he hnone) hresult, located_child]
    rfl
  | loop he _ _ => exact absurd he (hlink hdone)
  | linkFault he _ _ => exact absurd he (hlink hdone)
  | link he _ _ _ => exact absurd he (hlink hdone)

/-! ## Canonical forms -/

theorem located_linkStart_here (t : FileTree) (p : Path) :
    t.located (linkStart .here p.text) = t.base p := by
  rw [linkStart_here, Path.ofText_text]
  obtain ⟨anchor, segments⟩ := p
  cases anchor <;> rfl

theorem sizeOf_linkStart_here_le (p : Path) : (linkStart .here p.text).anchor.text.utf8Size +
    Segment.sizeOf ((linkStart .here p.text).segments ++ p.segments) ≤ p.text.utf8Size + 1 := by
  have hanchor : ∀ a : Anchor,
      (if a ≠ .relative then Anchor.root else .relative).text.utf8Size ≤ a.text.utf8Size := by
    intro a
    cases a <;> decide
  have hpath := p.sizeOf_le_utf8Size_text
  have hstart := hanchor p.anchor
  rw [linkStart_here, Path.ofText_text]
  simp only [Path.isRooted, decide_eq_true_eq, List.nil_append]
  omega

/-- Without links, the canonical form of a path leads to the location that the path stands for. -/
theorem eq_pathTo_of_canonicalize (ht : t.IsFileSystem) (hlinks : t.LinkFree)
    (hc : t.canonicalize p = .ok q) : q = pathTo (t.located p) := by
  have hread := Path.ofText_text p
  rw [← hread] at hc
  obtain ⟨resolved, hresolves, -, rfl⟩ := exists_isResolved_of_canonicalize ht hc
  have hsegments : Segment.listOfText p.text = p.segments := congrArg Path.segments hread
  rw [hresolves.located_eq ht hlinks (isResolved_linkStart_here _) rfl, hsegments,
    located_linkStart_here, located_eq_follow]

/-- One level up, a resolved path takes no more bytes than with the `..` behind it. -/
theorem IsResolved.sizeOf_ascend_le (hp : t.IsResolved p) :
    (FileTree.ascend p).anchor = p.anchor ∧
      Segment.sizeOf (FileTree.ascend p).segments ≤ Segment.sizeOf (p.segments ++ [.up]) := by
  rw [Segment.sizeOf_append]
  cases hp with
  | root => exact ⟨rfl, Nat.zero_le _⟩
  | climb k =>
    rw [ascend_climb, List.replicate_succ', Segment.sizeOf_append]
    exact ⟨rfl, Nat.le_refl _⟩
  | @child p n e hp he hlink =>
    rw [ascend_child, Path.segments_child, Segment.sizeOf_append]
    exact ⟨rfl, by omega⟩

/-- Without links, resolving goes wherever a walk does, and names no path that is too long. -/
theorem exists_resolves_of_walk (ht : t.IsFileSystem) (hlinks : t.LinkFree) {entered : List Path}
    {k : Nat} (hdone : t.IsResolved done)
    (hsize : done.anchor.text.utf8Size + Segment.sizeOf (done.segments ++ segments) ≤ 4096)
    (hwalk : t.walk .follow k (t.located done) (segments.map .ofSegment) = .ok (.entry loc e)) :
    ∃ q, t.Resolves entered done segments (.ok q) := by
  induction segments generalizing done with
  | nil => exact ⟨done, .nil⟩
  | cons s rest ih =>
    cases s with
    | up =>
      rw [List.map_cons, Step.ofSegment, walk_up, ← hdone.located_ascend] at hwalk
      obtain ⟨hanchor, hascend⟩ := hdone.sizeOf_ascend_le
      have hrest : (ascend done).anchor.text.utf8Size +
          Segment.sizeOf ((ascend done).segments ++ rest) ≤ 4096 := by
        simp only [Segment.sizeOf_append, Segment.sizeOf_cons, Segment.sizeOf_nil] at hsize hascend ⊢
        rw [hanchor]
        omega
      obtain ⟨q, hq⟩ := ih hdone.ascend hrest hwalk
      exact ⟨q, .up hq⟩
    | name n =>
      have hchild : (done.child n).text.utf8Size ≤ 4095 := by
        rw [Path.utf8Size_text (Path.child_ne_here done n), Path.anchor_child, Path.segments_child]
        simp only [Segment.sizeOf_append, Segment.sizeOf_cons, Segment.sizeOf_nil] at hsize ⊢
        omega
      have hname : ∀ {e'}, t.lookup (t.located done ++ [n]) = some e' →
          (∃ q, t.Resolves entered (done.child n) rest (.ok q)) →
          ∃ q, t.Resolves entered done (.name n :: rest) (.ok q) := by
        rintro e' hfound ⟨q, hq⟩
        exact ⟨q, .name ((hdone.entryAt_child_iff ht).2 ⟨rfl, hfound, hchild⟩)
          (hlinks.ne_link hfound) hq⟩
      rcases walk_follow_down_cases hwalk with
        ⟨hfound, hgoes⟩ | ⟨target, left, hfound, -⟩ | ⟨hrest, hends⟩
      · rw [← located_child] at hgoes
        exact hname hfound
          (ih (hdone.child hfound (hlinks.ne_link hfound)) (by simpa using hsize) hgoes)
      · exact absurd rfl (hlinks.ne_link hfound target)
      · obtain rfl : rest = [] := List.map_eq_nil_iff.1 hrest
        rcases hends with ⟨-, hvacant⟩ | ⟨content, hfound, -⟩
        · cases hvacant
        · exact hname hfound ⟨_, .nil⟩

/-- Without links, a path that leads somewhere has a canonical form, which leads to the location that
the path stands for. -/
theorem canonicalize_eq_pathTo (ht : t.IsFileSystem) (hlinks : t.LinkFree)
    (h : t.leadsSomewhere p.text) : t.canonicalize p = .ok (pathTo (t.located p)) := by
  cases hstat : t.stat p.text with
  | error f =>
    rw [leadsSomewhere, hstat] at h
    contradiction
  | ok found =>
    obtain ⟨loc, e⟩ := found
    obtain ⟨-, hsize, hwalk⟩ := stat_text_eq_ok_iff.1 hstat
    obtain ⟨result, hresolves, hcanonical⟩ := resolves_canonical ht p.text
    have hread := Path.ofText_text p
    have hsegments : Segment.listOfText p.text = p.segments := congrArg Path.segments hread
    rw [hsegments] at hresolves
    rw [← located_linkStart_here] at hwalk
    have hfits := Nat.le_trans (sizeOf_linkStart_here_le p) (Nat.succ_le_succ hsize)
    have hgoes : ∃ q, t.Resolves [] (linkStart .here p.text) p.segments (.ok q) :=
      exists_resolves_of_walk ht hlinks (isResolved_linkStart_here p.text) hfits hwalk
    obtain ⟨q, hq⟩ := hgoes
    obtain rfl := (hresolves _).1 hq
    rw [hread] at hcanonical
    have hc := canonicalize_eq_ok_iff.2 hcanonical
    rw [hc, ← eq_pathTo_of_canonicalize ht hlinks hc]

/-! ## Directories within directories -/

theorem isWithin_pathTo_iff : (pathTo loc).isWithin (pathTo loc') ↔ loc' <+: loc := by
  rw [Path.isWithin_iff]
  simp only [pathTo, List.prefix_map_iff_of_injective Segment.name_injective, true_and]

theorem exists_eq_map_name (h : .up ∉ segments) :
    ∃ names : List FileName, segments = names.map .name := by
  induction segments with
  | nil => exact ⟨[], rfl⟩
  | cons s rest ih =>
    obtain ⟨hs, hrest⟩ := not_or.1 fun hmem ↦ h (List.mem_cons.2 hmem)
    obtain ⟨names, rfl⟩ := ih hrest
    cases s with
    | up => exact absurd rfl hs
    | name n => exact ⟨n :: names, rfl⟩

/-- Without `..`, the segments of two paths from the same anchor compare as the locations that the
paths stand for. -/
theorem isWithin_iff_located (hanchor : p.anchor = q.anchor) (hp : .up ∉ p.segments)
    (hq : .up ∉ q.segments) : p.isWithin q ↔ t.located q <+: t.located p := by
  obtain ⟨anchor, segments⟩ := p
  obtain ⟨anchor', segments'⟩ := q
  obtain rfl : anchor = anchor' := hanchor
  obtain ⟨names, rfl⟩ := exists_eq_map_name hp
  obtain ⟨names', rfl⟩ := exists_eq_map_name hq
  have hlocated : ∀ names : List FileName, t.located ⟨anchor, names.map .name⟩ =
      t.located ⟨anchor, []⟩ ++ names := t.located_below ⟨anchor, []⟩
  rw [Path.isWithin_iff, hlocated, hlocated, List.prefix_append_right_inj]
  simp only [List.prefix_map_iff_of_injective Segment.name_injective, true_and]

/-! ## Clean paths -/

/-- As long as no `..` climbs out, the clean segments of a path from the root are the names of the
location that it stands for. -/
theorem cleanSegments_eq_located {anchor : Anchor} (hroot : anchor ≠ .relative)
    (h : Path.NeverClimbsOut ⟨anchor, segments⟩) :
    Path.cleanSegments segments = (t.located ⟨anchor, segments⟩).map .name ∧
      (t.located ⟨anchor, segments⟩).length + 2 * segments.count .up = segments.length := by
  induction segments using List.reverseRecOn with
  | nil =>
    have hbase : t.located ⟨anchor, []⟩ = [] := by
      simp [located_eq_follow, follow, base, Path.isRooted, hroot]
    rw [hbase]
    exact ⟨rfl, rfl⟩
  | append_singleton segments s ih =>
    obtain ⟨hclean, hlength⟩ := ih fun front hfront ↦
      h front (hfront.trans (List.prefix_append segments [s]))
    cases s with
    | name n =>
      have hlocated := t.located_child ⟨anchor, segments⟩ n
      rw [show t.located ⟨anchor, segments ++ [.name n]⟩ = _ from hlocated,
        Path.cleanSegments_concat_name, hclean]
      refine ⟨by simp, ?_⟩
      simp
      omega
    | up =>
      have hfits := h (segments ++ [.up]) (List.prefix_refl _)
      simp only [List.count_append, List.count_singleton_self, List.length_append,
        List.length_singleton] at hfits ⊢
      -- The last name is there, since otherwise this `..` would climb out.
      obtain ⟨above, n, hlast⟩ : ∃ above n, t.located ⟨anchor, segments⟩ = above ++ [n] := by
        refine (List.eq_nil_or_concat' _).resolve_left fun hnil ↦ ?_
        rw [hnil, List.length_nil] at hlength
        omega
      rw [hlast, List.length_append, List.length_singleton] at hlength
      rw [hlast, List.map_append] at hclean
      rw [show t.located ⟨anchor, segments ++ [.up]⟩ = _ from t.located_up ⟨anchor, segments⟩, hlast,
        List.dropLast_concat]
      refine ⟨Path.cleanSegments_concat_up hclean, ?_⟩
      omega

theorem clean_eq_pathTo (hroot : p.isRooted) (h : p.NeverClimbsOut) :
    p.clean = pathTo (t.located p) := by
  have hanchor : p.anchor ≠ .relative := by simpa [Path.isRooted] using hroot
  have hclean := (cleanSegments_eq_located (t := t) hanchor h).1
  simp only [Path.clean, hroot, if_true, pathTo, hclean]

/-! ## Paths from the root -/

theorem isResolved_pathTo (ht : t.IsFileSystem) (hlinks : t.LinkFree)
    (h : t.lookup loc = some e) : t.IsResolved (pathTo loc) := by
  induction loc using List.reverseRecOn generalizing e with
  | nil => exact .root
  | append_singleton loc n ih =>
    have hdone := ih (ht.lookup_of_concat h)
    rw [← child_pathTo]
    rw [← located_pathTo t loc] at h
    exact hdone.child h (hlinks.ne_link h)

/-- Without links, a walk that keeps a link at its end is one that follows it. -/
theorem descend_keep_eq (hlinks : t.LinkFree)
    {onLink onLink' : Location → List Step → Except Fault Found} (dir : Location)
    (steps : List Step) : t.descend .keep onLink dir steps = t.descend .follow onLink' dir steps := by
  induction steps generalizing dir with
  | nil => rfl
  | cons s rest ih =>
    cases s with
    | stay => exact ih dir
    | slash => exact ih dir
    | up => exact ih dir.dropLast
    | down n =>
      simp only [descend, reduceCtorEq, false_and, if_false]
      cases hfound : t.lookup (dir ++ [n]) with
      | none => rfl
      | some e =>
        cases e with
        | directory => simp only [ih (dir ++ [n])]
        | file content => rfl
        | link target => exact absurd rfl (hlinks.ne_link hfound target)

theorem entryAt_keep_eq_stat (hlinks : t.LinkFree) (s : Text) : t.entryAt .keep s = t.stat s := by
  have hwalk : ∀ dir steps, t.walk .keep 40 dir steps = t.walk .follow 40 dir steps := fun dir steps ↦
    descend_keep_eq hlinks dir steps
  unfold stat entryAt find
  rw [hwalk]

/-- Without links, a path from the root leads to the entry at its location, unless it is too long. -/
theorem stat_pathTo_iff (ht : t.IsFileSystem) (hlinks : t.LinkFree) :
    t.stat (pathTo loc).text = .ok (loc', e) ↔
      loc' = loc ∧ t.lookup loc = some e ∧ (pathTo loc).text.utf8Size ≤ 4095 := by
  induction loc using List.reverseRecOn generalizing loc' e with
  | nil =>
    have hroot : t.stat (pathTo []).text = .ok ([], .directory) :=
      stat_text_eq_ok_iff.2 ⟨nofun, by decide, walk_nil⟩
    have hsize : (pathTo []).text.utf8Size ≤ 4095 := by decide
    rw [hroot]
    simp [hsize, eq_comm]
  | append_singleton loc n ih =>
    have hchild : t.lookup loc = some .directory → (t.stat (pathTo (loc ++ [n])).text = .ok (loc', e) ↔
        loc' = loc ++ [n] ∧ t.lookup loc' = some e ∧ (pathTo (loc ++ [n])).text.utf8Size ≤ 4095) := by
      intro hdir
      have hiff : t.entryAt .keep ((pathTo loc).child n).text = .ok (loc', e) ↔ _ :=
        (isResolved_pathTo ht hlinks hdir).entryAt_child_iff ht
      rwa [entryAt_keep_eq_stat hlinks, child_pathTo, located_pathTo] at hiff
    constructor
    · intro h
      have hbelow := h
      rw [← child_pathTo] at hbelow
      obtain ⟨dir, hdir, -⟩ := exists_stat_of_stat_child hbelow
      obtain ⟨-, hdir, -⟩ := ih.1 hdir
      obtain ⟨rfl, hfound, hsize⟩ := (hchild hdir).1 h
      exact ⟨rfl, hfound, hsize⟩
    · rintro ⟨rfl, hfound, hsize⟩
      exact (hchild (ht.lookup_of_concat hfound)).2 ⟨rfl, hfound, hsize⟩

/-! ## Imports -/

theorem normalize_eq_ok_iff {directory : Path} : t.normalize directory importPath = .ok q ↔
    q = (directory / Path.ofText importPath).clean ∧ ∃ found, t.stat q.text = .ok found := by
  cases hstat : t.stat (directory / Path.ofText importPath).clean.text with
  | ok found =>
    simp only [normalize, hstat, Except.ok.injEq]
    constructor
    · rintro rfl
      exact ⟨rfl, found, hstat⟩
    · rintro ⟨rfl, -⟩
      rfl
  | error f =>
    simp only [normalize, hstat, reduceCtorEq, false_iff]
    rintro ⟨rfl, found, hfound⟩
    cases hstat.symm.trans hfound

/-- In a tree without links, an import that is written in a directory from the root and does not
climb out there is cleaned to its canonical form if it has one; and if it is cleaned to a path that
leads somewhere, this path is its own canonical form. -/
theorem normalize_agrees_with_canonicalize (ht : t.IsFileSystem) (hlinks : t.LinkFree)
    {directory : Path} (hroot : directory.isRooted)
    (h : (directory / Path.ofText importPath).NeverClimbsOut) :
    (∀ c, t.canonicalize (directory / Path.ofText importPath) = .ok c →
        t.normalize directory importPath = .ok c) ∧
      ∀ n, t.normalize directory importPath = .ok n → t.canonicalize n = .ok n := by
  have hjoined : (directory / Path.ofText importPath).isRooted := by
    rw [Path.join_def, Path.join]
    split
    · assumption
    · exact hroot
  have hclean := clean_eq_pathTo (t := t) hjoined h
  constructor
  · intro c hc
    obtain rfl := eq_pathTo_of_canonicalize ht hlinks hc
    rw [← Path.ofText_text (directory / Path.ofText importPath)] at hc
    obtain ⟨hcanonical, -, hsize⟩ := isCanonical_of_canonicalize ht hc
    rw [Path.ofText_text] at hsize hcanonical
    obtain ⟨e, he, -⟩ := hcanonical.entries _ (List.prefix_refl _)
    have hfound : t.lookup (t.located (directory / Path.ofText importPath)) = some e := by
      rwa [← located_pathTo t (t.located (directory / Path.ofText importPath))]
    exact normalize_eq_ok_iff.2
      ⟨hclean.symm, _, (stat_pathTo_iff ht hlinks).2 ⟨rfl, hfound, hsize hjoined⟩⟩
  · intro n hn
    obtain ⟨rfl, ⟨loc, e⟩, hstat⟩ := normalize_eq_ok_iff.1 hn
    rw [hclean] at hstat ⊢
    obtain ⟨rfl, hfound, hsize⟩ := (stat_pathTo_iff ht hlinks).1 hstat
    exact canonicalize_eq_ok_iff.2 ((canonical_pathTo ht hfound (hlinks.ne_link hfound)).2 hsize)

/-- An import that passes through a file on its way has the same clean and canonical form. -/
theorem normalize_fileBesideLibrary :
    fileBesideLibrary.IsFileSystem ∧ fileBesideLibrary.LinkFree ∧
      (Path.ofText (.of "//w/lib")).isRooted ∧
      (Path.ofText (.of "//w/lib") / Path.ofText (.of "./b//../../a")).NeverClimbsOut ∧
      fileBesideLibrary.canonicalize
        (Path.ofText (.of "//w/lib") / Path.ofText (.of "./b//../../a")) =
          .ok (.ofText (.of "/w/a")) ∧
      fileBesideLibrary.normalize (.ofText (.of "//w/lib")) (.of "./b//../../a") =
        .ok (.ofText (.of "/w/a")) ∧
      fileBesideLibrary.canonicalize (.ofText (.of "/w/a")) = .ok (.ofText (.of "/w/a")) := by
  have ht : fileBesideLibrary.IsFileSystem := by decide
  have hlinks : fileBesideLibrary.LinkFree := by decide
  have hclimbs : (Path.ofText (.of "//w/lib") / Path.ofText (.of "./b//../../a")).NeverClimbsOut := by
    decide
  have hc : fileBesideLibrary.canonicalize
      (Path.ofText (.of "//w/lib") / Path.ofText (.of "./b//../../a")) =
        .ok (.ofText (.of "/w/a")) := by cbv
  obtain ⟨hclean, hagain⟩ := normalize_agrees_with_canonicalize ht hlinks rfl hclimbs
  have hn := hclean _ hc
  exact ⟨ht, hlinks, rfl, hclimbs, hc, hn, hagain _ hn⟩

end FileTree

end SolidityImports
