import Mathlib.Data.List.Perm.Subperm
import SolidityImports.Proofs.FileTree.Resolved

/-! # Resolving without a bound

Resolving a path goes on from a resolved path by one segment after the other, and resolves the
target of each link that it meets before it goes on. Links within links may nest, and nothing in the
recursion itself bounds how deep. Main statements: the recursion always ends, in one way; a link that
it meets again is a loop that no walk gets through; and where it ends with a path, a walk along the
same steps arrives at that path too. -/

namespace SolidityImports.FileTree

variable {t : FileTree} {p q done resolved : Path} {n : FileName} {k : Nat} {entered : List Path}
  {steps rest : List Step} {dir loc loc' : Location} {target : Text} {r : Found} {e : Entry}

/-! ## The recursion -/

/-- Where the target of a link is resolved from, if the link stands below a resolved path. -/
def linkStart (done : Path) (target : Text) : Path :=
  if target.head? = some '/' then ⟨.root, []⟩ else done

/-- How resolving segments behind a resolved path ends, while the links `entered` are being
resolved. -/
inductive Resolves (t : FileTree) :
    List Path → Path → List Segment → Except CanonicalFault Path → Prop
  | nil {entered : List Path} {done : Path} : Resolves t entered done [] (.ok done)
  | up {entered : List Path} {done : Path} {rest : List Segment}
    {result : Except CanonicalFault Path} (hrest : Resolves t entered (ascend done) rest result) :
    Resolves t entered done (.up :: rest) result
  | fault {entered : List Path} {done : Path} {n : FileName} {rest : List Segment} {f : Fault}
    (hf : t.entryAt .keep (done.child n).text = .error f) :
    Resolves t entered done (.name n :: rest) (.error (.fault f))
  | name {entered : List Path} {done : Path} {n : FileName} {rest : List Segment} {loc : Location}
    {e : Entry} {result : Except CanonicalFault Path}
    (he : t.entryAt .keep (done.child n).text = .ok (loc, e)) (hlink : ∀ target, e ≠ .link target)
    (hrest : Resolves t entered (done.child n) rest result) :
    Resolves t entered done (.name n :: rest) result
  /-- A link that is being resolved is met again: a walk from there has to fail, for some reason. -/
  | loop {entered : List Path} {done : Path} {n : FileName} {rest : List Segment} {loc : Location}
    {target : Text} {f : Fault} (he : t.entryAt .keep (done.child n).text = .ok (loc, .link target))
    (hentered : done.child n ∈ entered) (hstat : t.stat (done.child n).text = .error f) :
    Resolves t entered done (.name n :: rest) (.error (t.loopFault (done.child n)))
  | linkFault {entered : List Path} {done : Path} {n : FileName} {rest : List Segment}
    {loc : Location} {target : Text} {f : CanonicalFault}
    (he : t.entryAt .keep (done.child n).text = .ok (loc, .link target))
    (hentered : done.child n ∉ entered)
    (htarget : Resolves t (done.child n :: entered) (linkStart done target)
      (Segment.listOfText target) (.error f)) :
    Resolves t entered done (.name n :: rest) (.error f)
  | link {entered : List Path} {done resolved : Path} {n : FileName} {rest : List Segment}
    {loc : Location} {target : Text} {result : Except CanonicalFault Path}
    (he : t.entryAt .keep (done.child n).text = .ok (loc, .link target))
    (hentered : done.child n ∉ entered)
    (htarget : Resolves t (done.child n :: entered) (linkStart done target)
      (Segment.listOfText target) (.ok resolved))
    (hrest : Resolves t entered resolved rest result) :
    Resolves t entered done (.name n :: rest) result

/-! What resolving a name ends with is told by what stands there. -/

namespace Resolves

variable {segments : List Segment} {result result' : Except CanonicalFault Path} {f : Fault}

theorem eq_fault (h : t.Resolves entered done (.name n :: segments) result)
    (hf : t.entryAt .keep (done.child n).text = .error f) : result = .error (.fault f) := by
  cases h with
  | fault hf' =>
    cases hf.symm.trans hf'
    rfl
  | name he | loop he | linkFault he | link he => cases hf.symm.trans he

theorem of_name (h : t.Resolves entered done (.name n :: segments) result)
    (he : t.entryAt .keep (done.child n).text = .ok (loc, e)) (hlink : ∀ target, e ≠ .link target) :
    t.Resolves entered (done.child n) segments result := by
  cases h with
  | fault hf => cases he.symm.trans hf
  | name _ _ hrest => exact hrest
  | loop he' | linkFault he' | link he' =>
    cases he.symm.trans he'
    exact absurd rfl (hlink _)

theorem eq_loopFault (h : t.Resolves entered done (.name n :: segments) result)
    (he : t.entryAt .keep (done.child n).text = .ok (loc, .link target))
    (hentered : done.child n ∈ entered) : result = .error (t.loopFault (done.child n)) := by
  cases h with
  | fault hf => cases he.symm.trans hf
  | name he' hlink =>
    cases he.symm.trans he'
    exact absurd rfl (hlink _)
  | loop => rfl
  | linkFault _ hentered' | link _ hentered' => exact absurd hentered hentered'

/-- A link that is not being resolved ends as its target does, or is left behind. -/
theorem of_link (h : t.Resolves entered done (.name n :: segments) result)
    (he : t.entryAt .keep (done.child n).text = .ok (loc, .link target))
    (hentered : done.child n ∉ entered) :
    (∃ f, result = .error f ∧ t.Resolves (done.child n :: entered) (linkStart done target)
        (Segment.listOfText target) (.error f)) ∨
      ∃ resolved, t.Resolves (done.child n :: entered) (linkStart done target)
          (Segment.listOfText target) (.ok resolved) ∧
        t.Resolves entered resolved segments result := by
  cases h with
  | fault hf => cases he.symm.trans hf
  | name he' hlink =>
    cases he.symm.trans he'
    exact absurd rfl (hlink _)
  | loop _ hentered' => exact absurd hentered' hentered
  | linkFault he' _ htarget =>
    cases he.symm.trans he'
    exact .inl ⟨_, rfl, htarget⟩
  | link he' _ htarget hrest =>
    cases he.symm.trans he'
    exact .inr ⟨_, htarget, hrest⟩

/-- Resolving has one end only. -/
theorem unique (h : t.Resolves entered done segments result)
    (h' : t.Resolves entered done segments result') : result = result' := by
  induction h generalizing result' with
  | nil =>
    cases h'
    rfl
  | up _ ih =>
    cases h' with
    | up hrest => exact ih hrest
  | fault hf => exact (h'.eq_fault hf).symm
  | name he hlink _ ih => exact ih (h'.of_name he hlink)
  | loop he hentered _ => exact (h'.eq_loopFault he hentered).symm
  | linkFault he hentered _ ihtarget =>
    rcases h'.of_link he hentered with ⟨f', rfl, htarget⟩ | ⟨resolved, htarget, -⟩
    · exact ihtarget htarget
    · cases ihtarget htarget
  | link he hentered _ _ ihtarget ih =>
    rcases h'.of_link he hentered with ⟨f', rfl, htarget⟩ | ⟨resolved, htarget, hrest⟩
    · cases ihtarget htarget
    · obtain rfl := Except.ok.inj (ihtarget htarget)
      exact ih hrest

end Resolves

theorem IsResolved.linkStart (hdone : t.IsResolved done) (target : Text) :
    t.IsResolved (linkStart done target) := by
  unfold FileTree.linkStart
  split
  · exact .root
  · exact hdone

theorem start_located (t : FileTree) (done : Path) (target : Text) :
    start (t.located done) target = t.located (linkStart done target) := by
  unfold start linkStart
  split <;> rfl

theorem IsResolved.child_of_entryAt (ht : t.IsFileSystem) (hdone : t.IsResolved done) {e : Entry}
    (he : t.entryAt .keep (done.child n).text = .ok (loc, e)) (hlink : ∀ target, e ≠ .link target) :
    t.IsResolved (done.child n) := by
  obtain ⟨rfl, hfound, -⟩ := (hdone.entryAt_child_iff ht).1 he
  exact hdone.child hfound hlink

/-- What resolving ends with is resolved. -/
theorem Resolves.isResolved (ht : t.IsFileSystem) {segments : List Segment}
    {result : Except CanonicalFault Path} (h : t.Resolves entered done segments result)
    (hdone : t.IsResolved done) (hresult : result = .ok p) : t.IsResolved p := by
  induction h generalizing p with
  | nil =>
    obtain rfl := Except.ok.inj hresult
    exact hdone
  | up _ ih => exact ih hdone.ascend hresult
  | fault _ => cases hresult
  | name he hlink _ ih => exact ih (hdone.child_of_entryAt ht he hlink) hresult
  | loop _ _ _ => cases hresult
  | linkFault _ _ _ _ => cases hresult
  | link _ _ _ _ ihtarget ih => exact ih (ihtarget (hdone.linkStart _) rfl) hresult

/-! ## Walks arrive where resolving ends -/

/-- Whether every walk along steps that ends well passes a location with the links that it has left,
or ends at a file there. -/
def ArrivesAt (t : FileTree) (dir : Location) (steps : List Step) (loc : Location) : Prop :=
  ∀ k rest r, t.walk .follow k dir (steps ++ rest) = .ok r →
    (∃ left ≤ k, t.walk .follow left loc rest = .ok r) ∨
      rest = [] ∧ ∃ content, r = .entry loc (.file content)

namespace ArrivesAt

theorem skips (h : ∀ s ∈ steps, s.segment? = none) : t.ArrivesAt dir steps dir := by
  intro k rest r hwalk
  rw [walk_skips h] at hwalk
  exact .inl ⟨k, Nat.le_refl k, hwalk⟩

theorem up : t.ArrivesAt dir [.up] dir.dropLast := by
  intro k rest r hwalk
  rw [List.singleton_append, walk_up] at hwalk
  exact .inl ⟨k, Nat.le_refl k, hwalk⟩

theorem down {e : Entry} (he : t.lookup (dir ++ [n]) = some e) (hlink : ∀ target, e ≠ .link target) :
    t.ArrivesAt dir [.down n] (dir ++ [n]) := by
  intro k rest r hwalk
  rw [List.singleton_append] at hwalk
  rcases walk_follow_down_cases hwalk with ⟨-, hgoes⟩ | ⟨target, left, hfound, -⟩ | ⟨hrest, hends⟩
  · exact .inl ⟨k, Nat.le_refl k, hgoes⟩
  · cases he.symm.trans hfound
    exact absurd rfl (hlink target)
  · rcases hends with ⟨hfound, -⟩ | ⟨content, -, hr⟩
    · cases he.symm.trans hfound
    · exact .inr ⟨hrest, content, hr⟩

theorem link (he : t.lookup (dir ++ [n]) = some (.link target))
    (htarget : t.ArrivesAt (start dir target) (Step.listOfText target) loc) :
    t.ArrivesAt dir [.down n] loc := by
  intro k rest r hwalk
  rw [List.singleton_append] at hwalk
  obtain ⟨links, rfl, hinner⟩ := exists_walk_of_link hwalk he
  rcases htarget links rest r hinner with ⟨left, hleft, hgoes⟩ | hends
  · exact .inl ⟨left, Nat.le_succ_of_le hleft, hgoes⟩
  · exact .inr hends

theorem trans (hsteps : t.ArrivesAt dir steps loc) (hrest : t.ArrivesAt loc rest loc') :
    t.ArrivesAt dir (steps ++ rest) loc' := by
  intro k more r hwalk
  rw [List.append_assoc] at hwalk
  rcases hsteps k (rest ++ more) r hwalk with ⟨left, hleft, hgoes⟩ | ⟨hend, content, rfl⟩
  · rcases hrest left more r hgoes with ⟨left', hleft', hgoes⟩ | hends
    · exact .inl ⟨left', Nat.le_trans hleft' hleft, hgoes⟩
    · exact .inr hends
  · -- The walk ends at a file, and no step is left that could lead away from it.
    obtain ⟨rfl, rfl⟩ := List.append_eq_nil_iff.1 hend
    have hstay : t.walk .follow 0 loc ([] ++ []) = .ok (.entry loc .directory) := walk_nil
    rcases hrest 0 [] _ hstay with ⟨left, -, hgoes⟩ | ⟨-, content', hfile⟩
    · rw [walk_nil] at hgoes
      obtain ⟨rfl, -⟩ := Found.entry.inj (Except.ok.inj hgoes)
      exact .inr ⟨rfl, content, rfl⟩
    · cases hfile

end ArrivesAt

/-- A walk along the steps that a path has been resolved by arrives at that path. -/
theorem Resolves.arrivesAt (ht : t.IsFileSystem) {segments : List Segment}
    {result : Except CanonicalFault Path} (h : t.Resolves entered done segments result)
    (hdone : t.IsResolved done) (hresult : result = .ok p)
    (hsteps : steps.filterMap Step.segment? = segments) :
    t.ArrivesAt (t.located done) steps (t.located p) := by
  induction h generalizing p steps with
  | nil =>
    obtain rfl := Except.ok.inj hresult
    exact .skips (List.filterMap_eq_nil_iff.1 hsteps)
  | up _ ih =>
    obtain ⟨skips, rest, rfl, hskips, hrest⟩ := Step.exists_eq_of_filterMap_eq_cons hsteps
    have hgoes := ih hdone.ascend hresult hrest
    rw [hdone.located_ascend] at hgoes
    exact (ArrivesAt.skips hskips).trans (ArrivesAt.up.trans hgoes)
  | fault _ => cases hresult
  | name he hlink _ ih =>
    obtain ⟨skips, rest, rfl, hskips, hrest⟩ := Step.exists_eq_of_filterMap_eq_cons hsteps
    obtain ⟨rfl, hfound, -⟩ := (hdone.entryAt_child_iff ht).1 he
    have hgoes := ih (hdone.child hfound hlink) hresult hrest
    rw [located_child] at hgoes
    exact (ArrivesAt.skips hskips).trans ((ArrivesAt.down hfound hlink).trans hgoes)
  | loop _ _ _ => cases hresult
  | linkFault _ _ _ _ => cases hresult
  | @link _ _ _ _ _ _ target _ he _ htarget _ ihtarget ih =>
    obtain ⟨skips, rest, rfl, hskips, hrest⟩ := Step.exists_eq_of_filterMap_eq_cons hsteps
    obtain ⟨rfl, hfound, -⟩ := (hdone.entryAt_child_iff ht).1 he
    have hinner := ihtarget (hdone.linkStart target) rfl (Step.filterMap_segment?_listOfText target)
    rw [← start_located] at hinner
    have hgoes := ih (htarget.isResolved ht (hdone.linkStart target) rfl) hresult hrest
    exact (ArrivesAt.skips hskips).trans ((ArrivesAt.link hfound hinner).trans hgoes)

/-! ## Links that are being resolved -/

/-- Whether a walk through at most `k` links ends well. -/
def Walks (t : FileTree) (k : Nat) (dir : Location) (steps : List Step) : Prop :=
  ∃ r, t.walk .follow k dir steps = .ok r

/-- A walk that ends well has walked along every part of its steps that it starts with. -/
theorem Walks.of_append (h : t.Walks k dir (steps ++ rest)) : t.Walks k dir steps := by
  obtain ⟨r, hr⟩ := h
  by_cases hrest : rest = []
  · rw [hrest, List.append_nil] at hr
    exact ⟨r, hr⟩
  · obtain ⟨links, left, loc, rfl, hleads, -⟩ := exists_leadsTo_of_walk_append hr (.inl hrest)
    exact ⟨_, hleads.walk left⟩

theorem Walks.arrive {s : Step} (h : t.Walks k dir (s :: rest)) (harrives : t.ArrivesAt dir [s] loc) :
    ∃ left ≤ k, t.Walks left loc rest := by
  obtain ⟨r, hr⟩ := h
  rcases harrives k rest r hr with ⟨left, hleft, hgoes⟩ | ⟨rfl, -⟩
  · exact ⟨left, hleft, r, hgoes⟩
  · exact ⟨k, Nat.le_refl k, _, walk_nil⟩

/-- A walk over a link that ends well has walked along its target, with a link less. -/
theorem Walks.enter (h : t.Walks k dir (.down n :: steps))
    (he : t.lookup (dir ++ [n]) = some (.link target)) :
    ∃ left < k, t.Walks left (start dir target) (Step.listOfText target) := by
  obtain ⟨r, hr⟩ := h
  obtain ⟨left, rfl, hwalk⟩ := exists_walk_of_link hr he
  exact ⟨left, Nat.lt_succ_self left, Walks.of_append ⟨r, hwalk⟩⟩

/-- Whether the links that are being resolved have led to a location, with steps ahead: a walk from
one of them gets there with fewer links left. -/
def InProgress (t : FileTree) (entered : List Path) (loc : Location) (steps : List Step) : Prop :=
  ∀ p n, Path.child p n ∈ entered → ∀ k, t.Walks k (t.located p) [.down n] →
    ∃ left < k, t.Walks left loc steps

namespace InProgress

theorem nil : t.InProgress [] loc steps := by
  intro p n h
  exact absurd h List.not_mem_nil

theorem arrive {s : Step} (h : t.InProgress entered dir (s :: rest))
    (harrives : t.ArrivesAt dir [s] loc) : t.InProgress entered loc rest := by
  intro p n hentered k hwalks
  obtain ⟨left, hleft, hgoes⟩ := h p n hentered k hwalks
  obtain ⟨left', hleft', hgoes⟩ := hgoes.arrive harrives
  exact ⟨left', Nat.lt_of_le_of_lt hleft' hleft, hgoes⟩

theorem enter (h : t.InProgress entered (t.located done) (.down n :: steps))
    (he : t.lookup (t.located done ++ [n]) = some (.link target)) :
    t.InProgress (done.child n :: entered) (t.located (linkStart done target))
      (Step.listOfText target) := by
  intro p m hentered k hwalks
  rw [← start_located]
  rcases List.mem_cons.1 hentered with heq | hentered
  · obtain ⟨rfl, rfl⟩ := Path.child_inj.1 heq
    exact hwalks.enter he
  · obtain ⟨left, hleft, hgoes⟩ := h p m hentered k hwalks
    obtain ⟨left', hleft', hgoes⟩ := hgoes.enter he
    exact ⟨left', Nat.lt_trans hleft' hleft, hgoes⟩

/-- No walk gets through a link that is met while it is being resolved, since a shorter one would
get through it as well. -/
theorem not_walks (h : t.InProgress entered (t.located done) (.down n :: steps))
    (hentered : done.child n ∈ entered) (k : Nat) : ¬ t.Walks k (t.located done) [.down n] := by
  induction k using Nat.strongRecOn with
  | ind k ih =>
    intro hwalks
    obtain ⟨left, hleft, hgoes⟩ := h done n hentered k hwalks
    rw [← List.singleton_append] at hgoes
    exact ih left hleft hgoes.of_append

theorem exists_stat_eq_error (ht : t.IsFileSystem) (hdone : t.IsResolved done)
    (h : t.InProgress entered (t.located done) (.down n :: steps))
    (hentered : done.child n ∈ entered)
    (he : t.entryAt .keep (done.child n).text = .ok (loc, e)) :
    ∃ f, t.stat (done.child n).text = .error f := by
  obtain ⟨rfl, hfound, -⟩ := (hdone.entryAt_child_iff ht).1 he
  have hdir := ht.lookup_of_concat hfound
  cases hstat : t.stat (done.child n).text with
  | error f => exact ⟨f, rfl⟩
  | ok found => exact absurd (hdone.walk_of_stat_child ht hdir hstat) (h.not_walks hentered 40)

end InProgress

/-! ## How deep links nest -/

/-- The paths that links can be met at: from the root, and behind as many steps up as a path has
room for. -/
def linkPaths (t : FileTree) : List Path :=
  t.entries.flatMap fun x ↦ pathTo x.1 :: (List.range (4095 / 3)).map fun k ↦
    Path.below ⟨.relative, List.replicate k .up⟩ (x.1.drop (t.workDir.length - k))

theorem length_linkPaths (t : FileTree) : t.linkPaths.length = t.linkDepth := by
  simp [linkPaths, linkDepth, List.length_flatMap]

/-- An entry that is found below a resolved path is found at one of these paths. -/
theorem IsResolved.child_mem_linkPaths (ht : t.IsFileSystem) (hdone : t.IsResolved done)
    (he : t.entryAt .keep (done.child n).text = .ok (loc, e)) : done.child n ∈ t.linkPaths := by
  obtain ⟨rfl, hfound, hsize⟩ := (hdone.entryAt_child_iff ht).1 he
  have hne : t.located done ++ [n] ≠ [] := List.concat_ne_nil n _
  refine List.mem_flatMap.2 ⟨_, (lookup_eq_some_iff hne).1 hfound, ?_⟩
  rcases hdone.eq_pathTo_or_eq_below_climb with heq | ⟨k, names, rfl⟩
  · rw [← child_pathTo, ← heq]
    exact List.mem_cons_self
  · rw [← Path.below_concat] at hsize ⊢
    have hup := Path.lt_utf8Size_text_up k (List.concat_ne_nil n names)
    have hnames : (t.located (Path.below ⟨.relative, List.replicate k .up⟩ names) ++ [n]).drop
        (t.workDir.length - k) = names ++ [n] := by
      rw [located_below, located_climb, List.append_assoc]
      apply List.drop_left'
      rw [List.length_take]
      omega
    refine List.mem_cons_of_mem _ (List.mem_map.2 ⟨k, List.mem_range.2 (by omega), ?_⟩)
    rw [hnames]

/-! ## Resolving with room for links -/

variable {enter : Path → Path → Text → Except CanonicalFault Path}

/-- Whether a link that is met is taken for a loop if it is being resolved, and otherwise resolved
as it is without a bound. -/
def EntersLinks (t : FileTree) (entered : List Path)
    (enter : Path → Path → Text → Except CanonicalFault Path) : Prop :=
  ∀ {done : Path} {n : FileName} {loc : Location} {target : Text} {rest : List Step},
    t.IsResolved done → t.entryAt .keep (done.child n).text = .ok (loc, .link target) →
    t.InProgress entered (t.located done) (.down n :: rest) →
    if done.child n ∈ entered then
      enter done (done.child n) target = .error (t.loopFault (done.child n))
    else t.Resolves (done.child n :: entered) (linkStart done target)
      (Segment.listOfText target) (enter done (done.child n) target)

/-- Whether resolving ends as it does without a bound along steps, wherever it starts. -/
def ResolvesAlong (t : FileTree) (entered : List Path)
    (enter : Path → Path → Text → Except CanonicalFault Path) (steps : List Step) : Prop :=
  ∀ {done : Path}, t.IsResolved done → t.InProgress entered (t.located done) steps →
    t.Resolves entered done (steps.filterMap Step.segment?)
      (t.resolveFrom enter done (steps.filterMap Step.segment?))

/-- A name that stands for no link is gone down. -/
theorem resolveFrom_name {rest : List Segment}
    (he : t.entryAt .keep (done.child n).text = .ok (loc, e)) (hlink : ∀ target, e ≠ .link target) :
    t.resolveFrom enter done (.name n :: rest) = t.resolveFrom enter (done.child n) rest := by
  rw [resolveFrom, he]
  cases e with
  | directory => rfl
  | file content => rfl
  | link target => exact absurd rfl (hlink target)

/-- From a link, resolving goes on where `enter` has come to. -/
theorem resolveFrom_link {rest : List Segment}
    (he : t.entryAt .keep (done.child n).text = .ok (loc, .link target)) :
    t.resolveFrom enter done (.name n :: rest) =
      (enter done (done.child n) target).bind fun p ↦ t.resolveFrom enter p rest := by
  rw [resolveFrom, he]
  cases hresult : enter done (done.child n) target <;> simp only [hresult] <;> rfl

namespace ResolvesAlong

theorem name (ht : t.IsFileSystem) (hrest : t.ResolvesAlong entered enter rest)
    (hdone : t.IsResolved done)
    (hprogress : t.InProgress entered (t.located done) (.down n :: rest))
    (he : t.entryAt .keep (done.child n).text = .ok (loc, e)) (hlink : ∀ target, e ≠ .link target) :
    t.Resolves entered done (.name n :: rest.filterMap Step.segment?)
      (t.resolveFrom enter done (.name n :: rest.filterMap Step.segment?)) := by
  obtain ⟨rfl, hfound, -⟩ := (hdone.entryAt_child_iff ht).1 he
  rw [resolveFrom_name he hlink]
  refine .name he hlink (hrest (hdone.child hfound hlink) ?_)
  rw [located_child]
  exact hprogress.arrive (.down hfound hlink)

theorem link (ht : t.IsFileSystem) (henter : t.EntersLinks entered enter)
    (hrest : t.ResolvesAlong entered enter rest) (hdone : t.IsResolved done)
    (hprogress : t.InProgress entered (t.located done) (.down n :: rest))
    (he : t.entryAt .keep (done.child n).text = .ok (loc, .link target)) :
    t.Resolves entered done (.name n :: rest.filterMap Step.segment?)
      (t.resolveFrom enter done (.name n :: rest.filterMap Step.segment?)) := by
  have hentered := henter hdone he hprogress
  rw [resolveFrom_link he]
  split at hentered
  · rename_i hmem
    obtain ⟨f, hf⟩ := hprogress.exists_stat_eq_error ht hdone hmem he
    rw [hentered]
    exact .loop he hmem hf
  · rename_i hmem
    cases hresult : enter done (done.child n) target with
    | error f => exact .linkFault he hmem (hresult ▸ hentered)
    | ok resolved =>
      rw [hresult] at hentered
      obtain ⟨rfl, hfound, -⟩ := (hdone.entryAt_child_iff ht).1 he
      have hinner := hentered.arrivesAt ht (hdone.linkStart target) rfl
        (Step.filterMap_segment?_listOfText target)
      rw [← start_located] at hinner
      have hresolved := hentered.isResolved ht (hdone.linkStart target) rfl
      exact .link he hmem hentered
        (hrest hresolved (hprogress.arrive (.link hfound hinner)))

end ResolvesAlong

/-- Where links are entered so, resolving ends as it does without a bound. -/
theorem resolvesAlong (ht : t.IsFileSystem) (henter : t.EntersLinks entered enter)
    (steps : List Step) : t.ResolvesAlong entered enter steps := by
  induction steps with
  | nil => exact fun _ _ ↦ .nil
  | cons s rest ih =>
    intro done hdone hprogress
    cases s with
    | stay => exact ih hdone (hprogress.arrive (.skips (by simp [Step.segment?])))
    | slash => exact ih hdone (hprogress.arrive (.skips (by simp [Step.segment?])))
    | up =>
      refine .up (ih hdone.ascend ?_)
      rw [hdone.located_ascend]
      exact hprogress.arrive .up
    | down n =>
      have hdown : (Step.down n :: rest).filterMap Step.segment? =
          .name n :: rest.filterMap Step.segment? := rfl
      rw [hdown]
      cases he : t.entryAt .keep (done.child n).text with
      | error f =>
        rw [resolveFrom, he]
        exact .fault he
      | ok found =>
        obtain ⟨loc, e⟩ := found
        cases e with
        | directory => exact ih.name ht hdone hprogress he fun _ ↦ Entry.noConfusion
        | file content => exact ih.name ht hdone hprogress he fun _ ↦ Entry.noConfusion
        | link target => exact ih.link ht henter hdone hprogress he

/-- Resolving ends as it does without a bound if there is room for all links that can still be
met. -/
theorem resolves_resolve (ht : t.IsFileSystem) {depth : Nat}
    (hdepth : t.linkDepth ≤ entered.length + depth) (hnodup : entered.Nodup)
    (hentered : entered ⊆ t.linkPaths) (hdone : t.IsResolved done)
    (hprogress : t.InProgress entered (t.located done) steps) :
    t.Resolves entered done (steps.filterMap Step.segment?)
      (t.resolve depth entered done (steps.filterMap Step.segment?)) := by
  induction depth generalizing entered done steps with
  | zero =>
    refine resolvesAlong ht ?_ steps hdone hprogress
    intro done n loc target rest hdone he hprogress
    -- All links that can be met are being resolved already.
    have hmem : done.child n ∈ entered := by
      by_contra hmem
      have hsub : done.child n :: entered ⊆ t.linkPaths :=
        List.cons_subset.2 ⟨hdone.child_mem_linkPaths ht he, hentered⟩
      have hle := ((List.nodup_cons.2 ⟨hmem, hnodup⟩).subperm hsub).length_le
      rw [length_linkPaths, List.length_cons] at hle
      omega
    rw [if_pos hmem]
  | succ depth ih =>
    refine resolvesAlong ht ?_ steps hdone hprogress
    intro done n loc target rest hdone he hprogress
    beta_reduce
    split
    · rfl
    · rename_i hmem
      obtain ⟨rfl, hfound, -⟩ := (hdone.entryAt_child_iff ht).1 he
      have hsub : done.child n :: entered ⊆ t.linkPaths :=
        List.cons_subset.2 ⟨hdone.child_mem_linkPaths ht he, hentered⟩
      have hinner := ih (by rw [List.length_cons]; omega) (List.nodup_cons.2 ⟨hmem, hnodup⟩) hsub
        (hdone.linkStart target) (hprogress.enter hfound)
      rwa [Step.filterMap_segment?_listOfText] at hinner

end SolidityImports.FileTree
