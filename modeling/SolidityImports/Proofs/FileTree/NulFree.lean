import SolidityImports.Proofs.Path.NulFree
import SolidityImports.Source.File

/-! # Trees without NUL

A NUL character in a path is the one fault that is no answer about the tree. It is found before a
walk starts, so that paths without NUL never meet it, as long as no link's target holds one.
Main statement: such paths have a canonical form or keep their own, and the search for a name in
another case beside them has an answer. -/

namespace SolidityImports

/-- Whether an entry leads to no NUL character: only a link can. -/
def Entry.NulFree : Entry → Prop
  | .link target => '\x00' ∉ target
  | .directory | .file _ => True

instance (e : Entry) : Decidable e.NulFree := by
  cases e <;> unfold Entry.NulFree <;> infer_instance

namespace FileTree

variable {t : FileTree} {last : LastLink}

/-- Whether no link of a tree leads to a NUL character. -/
def NulFree (t : FileTree) : Prop := ∀ x ∈ t.entries, x.2.NulFree

instance (t : FileTree) : Decidable t.NulFree :=
  inferInstanceAs (Decidable (∀ x ∈ t.entries, x.2.NulFree))

theorem NulFree.lookup (ht : t.NulFree) {loc : Location} {e : Entry} (h : t.lookup loc = some e) :
    e.NulFree := by
  unfold FileTree.lookup at h
  split at h
  · obtain rfl := Option.some.inj h
    trivial
  · obtain ⟨x, hx, rfl⟩ := Option.map_eq_some_iff.1 h
    exact ht x (List.mem_of_find?_eq_some hx)

/-! ## Walks -/

/-- How a walk may end: not for a NUL character, and at no link that the tree does not hold. -/
def WalkEnd (t : FileTree) : Except Fault Found → Prop
  | .error f => f ≠ .nul
  | .ok (.entry loc (.link target)) => t.lookup loc = some (.link target)
  | .ok _ => True

theorem descend_walkEnd {onLink : Location → List Step → Except Fault Found}
    (hlink : ∀ dir steps, t.WalkEnd (onLink dir steps)) (dir : Location) (steps : List Step) :
    t.WalkEnd (t.descend last onLink dir steps) := by
  induction steps generalizing dir with
  | nil => trivial
  | cons step rest ih =>
    cases step with
    | stay => exact ih dir
    | slash => exact ih dir
    | up => exact ih dir.dropLast
    | down n =>
      rw [descend]
      split
      · exact Fault.noConfusion
      split
      · exact Fault.noConfusion
      cases hfound : t.lookup (dir ++ [n]) with
      | none =>
        dsimp only
        split
        · trivial
        · exact Fault.noConfusion
      | some e =>
        cases e with
        | directory => exact ih (dir ++ [n])
        | file content =>
          dsimp only
          split
          · trivial
          · exact Fault.noConfusion
        | link target =>
          dsimp only
          split
          · exact hfound
          · exact hlink _ _

theorem walk_walkEnd (links : Nat) (dir : Location) (steps : List Step) :
    t.WalkEnd (t.walk last links dir steps) := by
  induction links generalizing dir steps with
  | zero =>
    apply descend_walkEnd
    intro _ _
    show Fault.tooManyLinks ≠ .nul
    decide
  | succ links ih => exact descend_walkEnd ih dir steps

theorem find_walkEnd {path : Text} (h : '\x00' ∉ path) : t.WalkEnd (t.find last path) := by
  unfold find
  rw [if_neg h]
  split
  · exact Fault.noConfusion
  split
  · exact Fault.noConfusion
  exact walk_walkEnd 40 _ _

/-- Finding a path fails for a NUL character exactly if the path holds one. -/
theorem find_eq_nul_iff {path : Text} : t.find last path = .error .nul ↔ '\x00' ∈ path := by
  constructor
  · intro h
    by_cases hpath : '\x00' ∈ path
    · exact hpath
    · have hend : t.WalkEnd (t.find last path) := find_walkEnd hpath
      rw [h] at hend
      exact absurd rfl hend
  · intro h
    exact if_pos h

theorem entryAt_eq_nul_iff {path : Text} : t.entryAt last path = .error .nul ↔ '\x00' ∈ path := by
  rw [← (find_eq_nul_iff : t.find last path = _ ↔ _)]
  unfold entryAt
  cases t.find last path with
  | error f => simp
  | ok found => cases found <;> simp

theorem stat_eq_nul_iff {path : Text} : t.stat path = .error .nul ↔ '\x00' ∈ path :=
  entryAt_eq_nul_iff

/-- A path that leads somewhere has been walked along, and so holds no NUL. -/
theorem nulFree_of_leadsSomewhere {p : Path} (h : t.leadsSomewhere p.text) : p.NulFree := by
  rw [Path.nulFree_iff, ← stat_eq_nul_iff (t := t)]
  intro hnul
  rw [leadsSomewhere, hnul] at h
  contradiction

theorem lookup_of_entryAt_link {path : Text} {loc : Location} {target : Text}
    (h : t.entryAt last path = .ok (loc, .link target)) : t.lookup loc = some (.link target) := by
  unfold entryAt at h
  cases hfound : t.find last path with
  | error f => rw [hfound] at h; cases h
  | ok found =>
    rw [hfound] at h
    cases found with
    | vacant dir n => cases h
    | entry loc' e =>
      obtain ⟨rfl, rfl⟩ := Prod.mk.inj (Except.ok.inj h)
      have hpath : '\x00' ∉ path := by
        intro hnul
        rw [find_eq_nul_iff.2 hnul] at hfound
        contradiction
      have hend : t.WalkEnd (t.find last path) := find_walkEnd hpath
      rw [hfound] at hend
      exact hend

theorem list_eq_ok_iff {s : Text} {entries : List (FileName × Entry)} :
    t.list s = .ok entries ↔ ∃ dir, t.stat s = .ok (dir, .directory) ∧ entries = t.children dir := by
  unfold list
  cases t.stat s with
  | error f => simp
  | ok found =>
    obtain ⟨loc, e⟩ := found
    cases e <;> simp [eq_comm]

theorem list_eq_nul_iff {path : Text} : t.list path = .error .nul ↔ '\x00' ∈ path := by
  rw [← stat_eq_nul_iff (t := t)]
  unfold list
  cases t.stat path with
  | error f => simp
  | ok found =>
    obtain ⟨loc, e⟩ := found
    cases e <;> simp

theorem read_eq_nul_iff {path : Text} : t.read path = .error .nul ↔ '\x00' ∈ path := by
  rw [← stat_eq_nul_iff (t := t)]
  unfold read
  cases t.stat path with
  | error f => simp
  | ok found =>
    obtain ⟨loc, e⟩ := found
    cases e <;> simp

theorem write_eq_nul_iff {path : Text} {content : Bytes} :
    t.write path content = .error .nul ↔ '\x00' ∈ path := by
  rw [← (find_eq_nul_iff : t.find .write path = _ ↔ _)]
  unfold write
  split <;> simp_all

theorem make_eq_nul_iff {path : Text} {e : Entry} :
    t.make path e = .error .nul ↔ '\x00' ∈ path := by
  rw [← (find_eq_nul_iff : t.find .keep path = _ ↔ _)]
  unfold make
  split <;> simp_all

/-! ## Canonical forms -/

/-- How resolving a path may end: at a path without NUL, or not for a NUL character. -/
def ResolveEnd : Except CanonicalFault Path → Prop
  | .ok p => p.NulFree
  | .error f => f ≠ .fault .nul

theorem ascend_nulFree {p : Path} (hp : p.NulFree) : (ascend p).NulFree := by
  have hup : (⟨.relative, p.segments ++ [.up]⟩ : Path).NulFree := by
    intro s hs
    rcases List.mem_append.1 hs with hs | hs
    · exact hp s hs
    · obtain rfl := List.mem_singleton.1 hs
      decide
  unfold ascend
  split
  · exact hup
  · exact hup
  · exact hp.parent

/-- Resolving goes on well from segment to segment if it enters links well. -/
theorem resolveFrom_resolveEnd (ht : t.NulFree)
    {enter : Path → Path → Text → Except CanonicalFault Path}
    (henter : ∀ done link target, done.NulFree → link.NulFree → '\x00' ∉ target →
      ResolveEnd (enter done link target))
    {segments : List Segment} (hsegments : ∀ s ∈ segments, '\x00' ∉ s.text)
    {done : Path} (hdone : done.NulFree) : ResolveEnd (t.resolveFrom enter done segments) := by
  induction segments generalizing done with
  | nil => exact hdone
  | cons s rest ih =>
    have hrest : ∀ s ∈ rest, '\x00' ∉ s.text := fun s hs ↦ hsegments s (List.mem_cons_of_mem _ hs)
    cases s with
    | up => exact ih hrest (ascend_nulFree hdone)
    | name n =>
      have hn : '\x00' ∉ n.text := hsegments (.name n) List.mem_cons_self
      have hchild : (done.child n).NulFree := hdone.child hn
      rw [resolveFrom]
      split
      · rename_i f hf
        rintro ⟨⟩
        exact Path.nulFree_iff.1 hchild (entryAt_eq_nul_iff.1 hf)
      · rename_i loc target hfound
        have htarget : '\x00' ∉ target := ht.lookup (lookup_of_entryAt_link hfound)
        have hentered := henter done (done.child n) target hdone hchild htarget
        split
        · rename_i resolved hresolved
          rw [hresolved] at hentered
          exact ih hrest hentered
        · rename_i f hf
          rwa [hf] at hentered
      · exact ih hrest hchild

theorem loopFault_ne_nul {link : Path} (hlink : link.NulFree) : t.loopFault link ≠ .fault .nul := by
  unfold loopFault
  split
  · exact CanonicalFault.noConfusion
  · exact CanonicalFault.noConfusion
  · rename_i f _ hf
    rintro ⟨⟩
    exact Path.nulFree_iff.1 hlink (stat_eq_nul_iff.1 hf)

theorem resolve_resolveEnd (ht : t.NulFree) (depth : Nat) (entered : List Path)
    {done : Path} (hdone : done.NulFree) {segments : List Segment}
    (hsegments : ∀ s ∈ segments, '\x00' ∉ s.text) :
    ResolveEnd (t.resolve depth entered done segments) := by
  induction depth generalizing entered done segments with
  | zero =>
    refine resolveFrom_resolveEnd ht ?_ hsegments hdone
    intro _ link _ _ hlink _
    exact loopFault_ne_nul hlink
  | succ depth ih =>
    refine resolveFrom_resolveEnd ht ?_ hsegments hdone
    intro from_ link target hfrom hlink htarget
    split
    · exact loopFault_ne_nul hlink
    · apply ih
      · split
        · intro s hs
          exact absurd hs List.not_mem_nil
        · exact hfrom
      · intro s hs hc
        exact htarget (Segment.mem_of_mem_listOfText hs hc)

theorem canonical_ne_nul (ht : t.NulFree) {p : Path} (hp : p.NulFree) :
    t.canonical p ≠ .error (.fault .nul) := by
  have hstart : Path.NulFree ⟨if p.isRooted then .root else .relative, []⟩ := by
    intro s hs
    exact absurd hs List.not_mem_nil
  have hend := resolve_resolveEnd ht t.linkDepth [] hstart hp
  unfold canonical
  generalize t.resolve t.linkDepth [] _ p.segments = resolved at hend
  cases resolved with
  | ok c => rintro ⟨⟩
  | error f =>
    intro h
    exact hend (Except.error.inj h)

/-- The canonical form of a path, or the path itself if it has none. -/
def canonicalOrSelf (t : FileTree) (p : Path) : Path := (t.canonical p).toOption.getD p

theorem canonicalized_eq (ht : t.NulFree) {p : Path} (hp : p.NulFree) :
    t.canonicalized p = .ok (t.canonicalOrSelf p) := by
  have hnul := canonical_ne_nul ht hp
  unfold canonicalized canonicalize canonicalOrSelf
  generalize t.canonical p = found at hnul
  cases found with
  | ok c => rfl
  | error f =>
    cases f with
    | loop link => rfl
    | fault f =>
      cases f <;> first | rfl | exact absurd rfl hnul

/-! ## Names in another case -/

/-- Only a NUL character keeps the search for a name in another case from an answer. -/
theorem caseVariant?_eq_error {missing : Path} {e : Error} (h : t.caseVariant? missing = .error e) :
    e = .nulInPath ∧ ¬ missing.NulFree := by
  unfold caseVariant? at h
  split at h
  · cases h
  · split at h
    · rename_i hlist
      constructor
      · exact (Except.error.inj h).symm
      · intro hfree
        exact Path.nulFree_iff.1 hfree.parent (list_eq_nul_iff.1 hlist)
    · cases h
    · cases h

/-- The directory of a missing file cannot be listed for a NUL character exactly if its path holds
one. -/
theorem caseVariant?_eq_nul_iff {missing : Path} :
    t.caseVariant? missing = .error .nulInPath ↔ ¬ missing.parent.NulFree := by
  unfold caseVariant?
  constructor
  · intro h hfree
    split at h
    · cases h
    · split at h
      · rename_i hlist
        exact Path.nulFree_iff.1 hfree (list_eq_nul_iff.1 hlist)
      · cases h
      · cases h
  · intro h
    have hlist : t.list missing.parent.text = .error .nul :=
      list_eq_nul_iff.2 (Path.nul_mem_text_iff.2 h)
    have hsegments : missing.segments ≠ [] := by
      intro hnil
      apply h
      intro s hs
      simp [Path.parent, hnil] at hs
    rw [if_neg hsegments, hlist]

/-- The file beside a missing one whose name differs in case only, if there is one. -/
def hint? (t : FileTree) (missing : Path) : Option Path := (t.caseVariant? missing).toOption.join

theorem caseVariant?_eq (t : FileTree) {missing : Path} (h : missing.NulFree) :
    t.caseVariant? missing = .ok (t.hint? missing) := by
  unfold hint?
  cases hfound : t.caseVariant? missing with
  | ok found => rfl
  | error e => exact absurd h (caseVariant?_eq_error hfound).2

end FileTree

end SolidityImports
