import Mathlib.Data.List.Chain
import Mathlib.Logic.Relation
import SolidityImports.Import.Library
import SolidityImports.Path.Clean
import SolidityImports.Proofs.Path.Written

/-! # Cleaning is a normal form

The segments of a path are rewritten by deletions: a `.` goes, and a name goes together with the `..`
right behind it. Cleaning, one segment after the other on a stack, is the end of every such
rewriting. Main statements: deletions end at the clean segments and nowhere else, whatever their order,
so that two paths have the same clean form exactly if deletions and their inverses connect them; and a
path is its own clean form exactly if no `..` in it takes back a name. -/

namespace SolidityImports

namespace Segment

/-- What is written between two slashes, if it is not empty, is a `.` or a segment. -/
theorem eq_dot_or_exists_text {w : Text} (h : w ≠ [] ∧ '/' ∉ w) :
    w = ['.'] ∨ ∃ s : Segment, w = s.text := by
  obtain ⟨hne, hslash⟩ := h
  by_cases hdot : w = ['.']
  · exact .inl hdot
  · right
    by_cases hup : w = ['.', '.']
    · exact ⟨.up, hup⟩
    · exact ⟨.name ⟨w, hne, hdot, hup, hslash⟩, rfl⟩

theorem ofText?_nil : ofText? [] = none := by decide

theorem ofText?_dot : ofText? ['.'] = none := by decide

/-- Written segments are not empty and hold no slash. -/
theorem slashFree_of_mem_map_text (segments : List Segment) :
    ∀ w ∈ segments.map text, w ≠ [] ∧ '/' ∉ w := by
  intro w hw
  obtain ⟨s, -, rfl⟩ := List.mem_map.1 hw
  exact ⟨s.text_ne_nil, s.slash_not_mem_text⟩

/-- Whether a segment stays when `s` is put behind it: a name in front of `..` does not. -/
def StaysBefore (before s : Segment) : Prop := s = .up → before = .up

theorem isChain_staysBefore_name {n : FileName} {segments : List Segment} :
    (.name n :: segments).IsChain StaysBefore ↔
      segments.head? ≠ some .up ∧ segments.IsChain StaysBefore := by
  cases segments with
  | nil => simp
  | cons s segments => cases s <;> simp [StaysBefore]

/-- The segments of a text are those that it is written with, without the `.`. -/
theorem listOfText_eq (s : Text) : listOfText s = (importSegments s).filterMap ofText? := by
  unfold listOfText importSegments
  rw [List.filterMap_filter]
  congr 1
  funext w
  by_cases hw : w = [] <;> simp [hw, ofText?_nil]

end Segment

namespace Path

/-! ## Deletions -/

/-- A deletion in the written segments of a path: of a `.`, or of a name with the `..` behind it. -/
inductive Deletion : List Text → List Text → Prop
  | dot (before after : List Text) : Deletion (before ++ ['.'] :: after) (before ++ after)
  | name (before : List Text) (n : FileName) (after : List Text) :
    Deletion (before ++ n.text :: ['.', '.'] :: after) (before ++ after)

theorem Deletion.length_lt {ws ws' : List Text} (h : Deletion ws ws') :
    ws'.length < ws.length := by
  cases h with
  | dot before after => simp
  | name before n after =>
    simp only [List.length_append, List.length_cons]
    omega

/-- A deletion brings in no other segment. -/
theorem Deletion.subset {ws ws' : List Text} (h : Deletion ws ws') : ws' ⊆ ws := by
  cases h with
  | dot before after => simp
  | name before n after =>
    have hafter : after ⊆ n.text :: ['.', '.'] :: after :=
      List.Subset.trans (List.subset_cons_self _ _) (List.subset_cons_self _ _)
    exact List.append_subset.2
      ⟨List.subset_append_left _ _, List.Subset.trans hafter (List.subset_append_right _ _)⟩

/-- No sequence of deletions goes on for ever. -/
theorem wellFounded_deletion : WellFounded fun ws' ws ↦ Deletion ws ws' :=
  Subrelation.wf (fun h ↦ h.length_lt) (measure List.length).wf

/-- What written segments are cleaned to. -/
def cleanWritten (ws : List Text) : List Text :=
  (cleanSegments (ws.filterMap Segment.ofText?)).map Segment.text

theorem cleanWritten_importSegments (s : Text) :
    cleanWritten (importSegments s) = (ofText s).clean.segments.map Segment.text := by
  unfold cleanWritten
  rw [← Segment.listOfText_eq]
  rfl

/-- A deletion does not change what the segments are cleaned to. -/
theorem Deletion.cleanWritten_eq {ws ws' : List Text} (h : Deletion ws ws') :
    cleanWritten ws = cleanWritten ws' := by
  have hread : ∀ n : FileName, Segment.ofText? n.text = some (.name n) := fun n ↦
    Segment.ofText?_text (.name n)
  have hup : Segment.ofText? ['.', '.'] = some .up := rfl
  cases h with
  | dot before after => simp [cleanWritten, Segment.ofText?_dot]
  | name before n after =>
    simp [cleanWritten, cleanSegments, hread, hup, List.foldl_append, pushClean]

/-! ## Where deletions end -/

/-- The stack of cleaned segments is reached by deletions from what has been read. -/
theorem deletes_foldl_pushClean {ws : List Text} (hws : ∀ w ∈ ws, w ≠ [] ∧ '/' ∉ w)
    (done : List Segment) :
    Relation.ReflTransGen Deletion (done.reverse.map Segment.text ++ ws)
      (((ws.filterMap Segment.ofText?).foldl pushClean done).reverse.map Segment.text) := by
  induction ws generalizing done with
  | nil =>
    rw [List.append_nil]
    exact .refl
  | cons w ws ih =>
    obtain ⟨hw, hrest⟩ := List.forall_mem_cons.1 hws
    rcases Segment.eq_dot_or_exists_text hw with rfl | ⟨s, rfl⟩
    · rw [List.filterMap_cons, Segment.ofText?_dot]
      exact (ih hrest done).head (.dot _ _)
    · have hstep := ih hrest (pushClean done s)
      rw [List.filterMap_cons, Segment.ofText?_text, List.foldl_cons]
      unfold pushClean at hstep ⊢
      split at hstep
      · rename_i n below
        refine hstep.head ?_
        simpa [Segment.text] using Deletion.name (below.reverse.map Segment.text) n ws
      · simpa using hstep

/-- Deletions lead to the clean segments. -/
theorem deletes_cleanWritten {ws : List Text} (hws : ∀ w ∈ ws, w ≠ [] ∧ '/' ∉ w) :
    Relation.ReflTransGen Deletion ws (cleanWritten ws) := deletes_foldl_pushClean hws []

theorem cleanWritten_eq_of_deletes {ws ws' : List Text} (h : Relation.ReflTransGen Deletion ws ws') :
    cleanWritten ws = cleanWritten ws' := by
  induction h with
  | refl => rfl
  | tail _ hlast ih => exact ih.trans hlast.cleanWritten_eq

theorem cleanWritten_eq_of_connected {ws ws' : List Text} (h : Relation.EqvGen Deletion ws ws') :
    cleanWritten ws = cleanWritten ws' := by
  induction h with
  | rel _ _ h => exact h.cleanWritten_eq
  | refl _ => rfl
  | symm _ _ _ ih => exact ih.symm
  | trans _ _ _ _ _ ih ih' => exact ih.trans ih'

theorem subset_of_deletes {ws ws' : List Text} (h : Relation.ReflTransGen Deletion ws ws') :
    ws' ⊆ ws := by
  induction h with
  | refl => exact List.Subset.refl ws
  | tail _ hlast ih => exact List.Subset.trans hlast.subset ih

theorem length_le_of_deletes {ws ws' : List Text} (h : Relation.ReflTransGen Deletion ws ws') :
    ws'.length ≤ ws.length := by
  induction h with
  | refl => exact Nat.le_refl _
  | tail _ hlast ih => exact Nat.le_trans (Nat.le_of_lt hlast.length_lt) ih

/-- Nothing can be deleted from clean segments: what is left would be cleaned to them again, and
cleaning makes nothing longer. -/
theorem not_deletion_cleanWritten {ws ws' : List Text} (hws : ∀ w ∈ ws, w ≠ [] ∧ '/' ∉ w) :
    ¬ Deletion (cleanWritten ws) ws' := by
  intro h
  have hsegment : ∀ w ∈ ws', w ≠ [] ∧ '/' ∉ w := fun w hw ↦
    Segment.slashFree_of_mem_map_text _ w (h.subset hw)
  have hagain : cleanWritten ws' = cleanWritten ws :=
    h.cleanWritten_eq.symm.trans (cleanWritten_eq_of_deletes (deletes_cleanWritten hws)).symm
  have hle := length_le_of_deletes (deletes_cleanWritten hsegment)
  rw [hagain] at hle
  exact Nat.not_lt_of_le hle h.length_lt

/-- Deletions end at the clean segments and nowhere else. -/
theorem deletes_and_not_deletion_iff {ws ws' : List Text} (hws : ∀ w ∈ ws, w ≠ [] ∧ '/' ∉ w) :
    (Relation.ReflTransGen Deletion ws ws' ∧ ∀ next, ¬ Deletion ws' next) ↔
      ws' = cleanWritten ws := by
  constructor
  · rintro ⟨hdeletes, hend⟩
    have hsegment : ∀ w ∈ ws', w ≠ [] ∧ '/' ∉ w := fun w hw ↦ hws w (subset_of_deletes hdeletes hw)
    have hclean := deletes_cleanWritten hsegment
    rw [← cleanWritten_eq_of_deletes hdeletes] at hclean
    -- No deletion starts at `ws'`, so the way from there to the clean segments is empty.
    rcases hclean.cases_head with heq | ⟨next, hnext, -⟩
    · exact heq
    · exact absurd hnext (hend next)
  · rintro rfl
    exact ⟨deletes_cleanWritten hws, fun next ↦ not_deletion_cleanWritten hws⟩

/-- Segments have the same clean form exactly if deletions and their inverses connect them. -/
theorem cleanWritten_eq_iff {ws ws' : List Text} (hws : ∀ w ∈ ws, w ≠ [] ∧ '/' ∉ w)
    (hws' : ∀ w ∈ ws', w ≠ [] ∧ '/' ∉ w) :
    cleanWritten ws = cleanWritten ws' ↔ Relation.EqvGen Deletion ws ws' := by
  constructor
  · intro heq
    have hconnected := Relation.EqvGen.reflTransGen_le_eqvGen Deletion
    have hdown := hconnected _ _ (deletes_cleanWritten hws)
    have hup := hconnected _ _ (deletes_cleanWritten hws')
    rw [← heq] at hup
    exact .trans _ _ _ hdown (.symm _ _ hup)
  · exact cleanWritten_eq_of_connected

/-! ## The shape of clean paths -/

theorem pushClean_name (done : List Segment) (n : FileName) :
    pushClean done (.name n) = .name n :: done := by
  unfold pushClean
  split
  · contradiction
  · rfl

theorem cleanSegments_concat_name (segments : List Segment) (n : FileName) :
    cleanSegments (segments ++ [.name n]) = cleanSegments segments ++ [.name n] := by
  unfold cleanSegments
  rw [List.foldl_append, List.foldl_cons, List.foldl_nil, pushClean_name, List.reverse_cons]

/-- Behind a name, `..` takes the name away. -/
theorem cleanSegments_concat_up {segments before : List Segment} {n : FileName}
    (h : cleanSegments segments = before ++ [.name n]) :
    cleanSegments (segments ++ [.up]) = before := by
  unfold cleanSegments at h ⊢
  have hstack : segments.foldl pushClean [] = .name n :: before.reverse := by
    rw [← List.reverse_reverse (segments.foldl pushClean []), h, List.reverse_append]
    rfl
  rw [List.foldl_append, hstack]
  exact List.reverse_reverse before

/-- On the stack of cleaned segments, names stand on steps up. -/
theorem exists_foldl_pushClean_eq (segments : List Segment) (names : List FileName) (k : Nat) :
    ∃ (names' : List FileName) (k' : Nat),
      segments.foldl pushClean (names.map .name ++ List.replicate k .up) =
        names'.map .name ++ List.replicate k' .up := by
  induction segments generalizing names k with
  | nil => exact ⟨names, k, rfl⟩
  | cons s segments ih =>
    cases s with
    | name n =>
      rw [List.foldl_cons, pushClean_name]
      exact ih (n :: names) k
    | up =>
      cases names with
      | nil =>
        have hpush : pushClean (List.replicate k .up) .up = List.replicate (k + 1) .up := by
          cases k <;> rfl
        rw [List.foldl_cons, List.map_nil, List.nil_append, hpush]
        exact ih [] (k + 1)
      | cons n names => exact ih names k

theorem exists_cleanSegments_eq (segments : List Segment) :
    ∃ (k : Nat) (names : List FileName),
      cleanSegments segments = List.replicate k .up ++ names.map .name := by
  obtain ⟨names, k, hstack⟩ := exists_foldl_pushClean_eq segments [] 0
  refine ⟨k, names.reverse, ?_⟩
  unfold cleanSegments
  rw [show segments.foldl pushClean [] = _ from hstack, List.reverse_append, List.reverse_replicate,
    List.map_reverse]

theorem anchor_clean_ofText (s : Text) :
    (ofText s).clean.anchor = if s.head? = some '/' then .root else .relative := by
  unfold clean
  simp [isRooted_ofText]

theorem cleanWritten_map_text (segments : List Segment) :
    cleanWritten (segments.map Segment.text) = (cleanSegments segments).map Segment.text := by
  have hread : Segment.ofText? ∘ Segment.text = some := funext Segment.ofText?_text
  unfold cleanWritten
  rw [List.filterMap_map, hread, List.filterMap_some]

/-- Cleaning clean segments changes nothing, since deletions lead to them. -/
theorem cleanSegments_cleanSegments (segments : List Segment) :
    cleanSegments (cleanSegments segments) = cleanSegments segments := by
  have hwritten := Segment.slashFree_of_mem_map_text segments
  have hagain := cleanWritten_eq_of_deletes (deletes_cleanWritten hwritten)
  simp only [cleanWritten_map_text] at hagain
  exact (Segment.map_text_inj.1 hagain).symm

@[simp] theorem isRooted_clean (p : Path) : p.clean.isRooted = p.isRooted := by
  unfold clean isRooted
  split <;> simp_all

theorem clean_clean (p : Path) : p.clean.clean = p.clean := by
  show (⟨_, cleanSegments (cleanSegments p.segments)⟩ : Path) = _
  rw [cleanSegments_cleanSegments, isRooted_clean]
  rfl

theorem anchor_clean_ofText_eq_iff {s s' : Text} :
    (ofText s).clean.anchor = (ofText s').clean.anchor ↔
      (s.head? = some '/' ↔ s'.head? = some '/') := by
  rw [anchor_clean_ofText, anchor_clean_ofText]
  split <;> split <;> simp_all

theorem clean_ofText_eq_iff {s s' : Text} : (ofText s).clean = (ofText s').clean ↔
    (s.head? = some '/' ↔ s'.head? = some '/') ∧
      cleanWritten (importSegments s) = cleanWritten (importSegments s') := by
  rw [← anchor_clean_ofText_eq_iff, cleanWritten_importSegments, cleanWritten_importSegments,
    Segment.map_text_inj, Path.ext_iff]

/-! ## Paths that are their own clean form -/

/-- From written segments nothing can be deleted exactly if none of them takes back the one before
it. -/
theorem not_deletion_iff_isChain {segments : List Segment} :
    (∀ next, ¬ Deletion (segments.map Segment.text) next) ↔
      segments.IsChain Segment.StaysBefore := by
  rw [List.isChain_iff_forall_rel_of_append_cons_cons]
  constructor
  · rintro hend before s front back rfl rfl
    cases before with
    | up => rfl
    | name n =>
      have hdeletion := Deletion.name (front.map Segment.text) n (back.map Segment.text)
      refine absurd hdeletion ?_
      simpa [Segment.text] using hend _
  · intro hchain next hdeletion
    generalize hwritten : segments.map Segment.text = ws at hdeletion
    cases hdeletion with
    | dot front back =>
      have hdot : ['.'] ∈ segments.map Segment.text := by simp [hwritten]
      obtain ⟨s, -, hs⟩ := List.mem_map.1 hdot
      exact s.text_ne_dot hs
    | name front n back =>
      obtain ⟨before, rest, rfl, -, hrest⟩ := List.map_eq_append_iff.1 hwritten
      obtain ⟨s, rest, rfl, hs, hrest⟩ := List.map_eq_cons_iff.1 hrest
      obtain ⟨s', rest, rfl, hs', -⟩ := List.map_eq_cons_iff.1 hrest
      obtain rfl : s = .name n := Segment.text_injective hs
      obtain rfl : s' = .up := Segment.text_injective hs'
      cases hchain rfl rfl

theorem cleanSegments_eq_self_iff {segments : List Segment} :
    cleanSegments segments = segments ↔ segments.IsChain Segment.StaysBefore := by
  have hwritten := Segment.slashFree_of_mem_map_text segments
  have hiff : _ ∧ _ ↔ segments.map Segment.text = _ := deletes_and_not_deletion_iff hwritten
  rw [cleanWritten_map_text, Segment.map_text_inj, not_deletion_iff_isChain] at hiff
  rw [eq_comm, ← hiff, and_iff_right .refl]

/-- Whether a path is clean as it is written: one slash at most starts it, and no `..` in it takes
back a name. -/
def IsClean (p : Path) : Prop := p.anchor ≠ .doubleRoot ∧ p.segments.IsChain Segment.StaysBefore

theorem clean_eq_self_iff {p : Path} : p.clean = p ↔ p.IsClean := by
  have hanchor : p.clean.anchor = p.anchor ↔ p.anchor ≠ .doubleRoot := by
    unfold clean isRooted
    cases p.anchor <;> simp
  rw [Path.ext_iff, hanchor]
  exact and_congr_right fun _ ↦ cleanSegments_eq_self_iff

/-- Behind a clean path, segments that start with a name are as clean as they are alone. -/
theorem isClean_append_name_iff {p : Path} {n : FileName} {segments : List Segment} :
    IsClean ⟨p.anchor, p.segments ++ .name n :: segments⟩ ↔
      p.IsClean ∧ (.name n :: segments).IsChain Segment.StaysBefore := by
  have hbetween : ∀ s ∈ p.segments.getLast?, ∀ s' ∈ (.name n :: segments).head?,
      Segment.StaysBefore s s' := by
    rintro s - s' ⟨⟩ ⟨⟩
  unfold IsClean
  rw [List.isChain_append, and_iff_left hbetween, and_assoc]

/-! ## The normal form -/

/-- The clean form of a path has a single slash in front if the path has any, and then only names
behind steps up. Deletions in the written segments come to an end, and in whatever order, they end
at the clean segments. Hence a clean path is its own clean form, and two paths have the same one
exactly if both or none are rooted and deletions and their inverses connect their segments. -/
theorem clean_ofText_isNormalForm (s : Text) :
    (ofText s).clean.anchor = (if s.head? = some '/' then .root else .relative) ∧
      (∃ (k : Nat) (names : List FileName),
        (ofText s).clean.segments = List.replicate k .up ++ names.map .name) ∧
      (WellFounded fun ws' ws ↦ Deletion ws ws') ∧
      (∀ ws, (Relation.ReflTransGen Deletion (importSegments s) ws ∧ ∀ next, ¬ Deletion ws next) ↔
        ws = (ofText s).clean.segments.map Segment.text) ∧
      (ofText (ofText s).clean.text).clean = (ofText s).clean ∧
      ∀ s', (ofText s).clean = (ofText s').clean ↔
        (s.head? = some '/' ↔ s'.head? = some '/') ∧
          Relation.EqvGen Deletion (importSegments s) (importSegments s') := by
  have hsegment : ∀ s : Text, ∀ w ∈ importSegments s, w ≠ [] ∧ '/' ∉ w := fun _ _ ↦
    importSegments_slashFree
  refine ⟨anchor_clean_ofText s, exists_cleanSegments_eq _, wellFounded_deletion, ?_, ?_, ?_⟩
  · intro ws
    rw [← cleanWritten_importSegments]
    exact deletes_and_not_deletion_iff (hsegment s)
  · rw [ofText_text, clean_clean]
  · intro s'
    rw [clean_ofText_eq_iff, cleanWritten_eq_iff (hsegment s) (hsegment s')]

end Path

end SolidityImports
