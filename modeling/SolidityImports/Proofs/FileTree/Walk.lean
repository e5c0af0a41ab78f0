import SolidityImports.FileTree.Walk
import SolidityImports.Proofs.Path.Size

/-! # Walks, step by step

What each step of a walk does, the walks that end well as a relation, and walks along a part of their
steps. Main statements: a walk along `steps ++ rest` that ends well has gone along `steps` to a
directory, through as many links as it then lacks, and a walk that ends well also does so with more
links left. -/

namespace SolidityImports

namespace Step

/-- The segment that a step takes; `.` and the slash at the end take none. -/
def segment? : Step → Option Segment
  | .up => some .up
  | .down n => some (.name n)
  | .stay | .slash => none

/-- The step along a segment. -/
def ofSegment : Segment → Step
  | .up => .up
  | .name n => .down n

theorem segment?_eq_some_iff {step : Step} {s : Segment} :
    step.segment? = some s ↔ step = ofSegment s := by
  cases step <;> cases s <;> simp [segment?, ofSegment]

/-- The step along the first segment stands behind steps that take none. -/
theorem exists_eq_of_filterMap_eq_cons {steps : List Step} {s : Segment} {segments : List Segment}
    (h : steps.filterMap segment? = s :: segments) :
    ∃ skips rest, steps = skips ++ ([ofSegment s] ++ rest) ∧
      (∀ step ∈ skips, step.segment? = none) ∧ rest.filterMap segment? = segments := by
  obtain ⟨skips, step, rest, rfl, hskips, hstep, hrest⟩ := List.filterMap_eq_cons_iff.1 h
  obtain rfl := segment?_eq_some_iff.1 hstep
  exact ⟨skips, rest, rfl, hskips, hrest⟩

theorem ofPiece?_bind_segment? (w : Text) :
    (ofPiece? w).bind segment? = Segment.ofText? w := by
  unfold ofPiece?
  split
  · rename_i hw
    subst hw
    decide
  · cases Segment.ofText? w with
    | none => rfl
    | some s => cases s <;> rfl

/-- The steps of a text are those along its segments, and others that lead nowhere. -/
theorem filterMap_segment?_listOfText (s : Text) :
    (listOfText s).filterMap segment? = Segment.listOfText s := by
  have hend : (if s.getLast? = some '/' then [Step.slash] else []).filterMap segment? = [] := by
    split <;> rfl
  rw [listOfText, List.filterMap_append, hend, List.append_nil, List.filterMap_filterMap]
  exact congrArg (List.filterMap · (s.pieces '/')) (funext ofPiece?_bind_segment?)

theorem ofPiece?_text (s : Segment) : ofPiece? s.text = some (ofSegment s) := by
  rw [ofPiece?, if_neg s.text_ne_dot, Segment.ofText?_text]
  cases s <;> rfl

/-- The slashes of an anchor are no steps. -/
theorem filterMap_ofPiece?_anchor (a : Anchor) (s : Text) :
    ((a.text ++ s).pieces '/').filterMap ofPiece? = (s.pieces '/').filterMap ofPiece? := by
  have hslash : ∀ s : Text,
      (Text.pieces '/' ('/' :: s)).filterMap ofPiece? = (s.pieces '/').filterMap ofPiece? := by
    intro s
    rw [← List.nil_append ('/' :: s), Text.pieces_append_cons List.not_mem_nil]
    rfl
  cases a with
  | relative => rfl
  | root => exact hslash s
  | doubleRoot => exact (hslash _).trans (hslash s)

end Step

namespace Path

/-- The steps along a path. -/
def steps (p : Path) : List Step := p.segments.map .ofSegment

@[simp] theorem steps_child (p : Path) (n : FileName) : (p.child n).steps = p.steps ++ [.down n] := by
  simp [steps, Step.ofSegment]

/-- The steps of a written path are those along its segments, if it has any. -/
theorem listOfText_text {p : Path} (h : p.segments ≠ []) : Step.listOfText p.text = p.steps := by
  have hp : p ≠ here := fun hp ↦ h (congrArg segments hp)
  have hslash : ∀ w ∈ p.segments.map Segment.text, '/' ∉ w := by
    intro w hw
    obtain ⟨s, -, rfl⟩ := List.mem_map.1 hw
    exact s.slash_not_mem_text
  have hend : (p.anchor.text ++ Text.joinWith ['/'] (p.segments.map Segment.text)).getLast? ≠
      some '/' := by
    rw [List.getLast?_append_of_ne_nil _ (Segment.joinWith_ne_nil h)]
    exact Segment.getLast?_joinWith_ne_slash p.segments
  have hne : p.segments.map Segment.text ≠ [] := by simpa using h
  rw [text, if_neg hp, Step.listOfText, if_neg hend, List.append_nil,
    Step.filterMap_ofPiece?_anchor, Text.pieces_joinWith hslash hne, List.filterMap_map,
    show Step.ofPiece? ∘ Segment.text = some ∘ Step.ofSegment from funext Step.ofPiece?_text,
    List.filterMap_eq_map]
  rfl

theorem text_ne_nil (p : Path) : p.text ≠ [] := by
  unfold text
  split
  · exact List.cons_ne_nil _ _
  · rename_i hp
    obtain ⟨anchor, segments⟩ := p
    cases segments with
    | nil => cases anchor <;> simp_all [here, Anchor.text]
    | cons s segments =>
      exact List.append_ne_nil_of_right_ne_nil _ (Segment.joinWith_ne_nil (List.cons_ne_nil s _))

end Path

namespace FileTree

variable {t : FileTree} {last : LastLink} {dir loc : Location} {n : FileName} {k : Nat}
  {steps rest : List Step} {r : Found}

/-! ## Single steps -/

@[simp] theorem walk_nil : t.walk last k dir [] = .ok (.entry dir .directory) := by
  cases k <;> rfl

@[simp] theorem walk_stay : t.walk last k dir (.stay :: rest) = t.walk last k dir rest := by
  cases k <;> rfl

@[simp] theorem walk_slash : t.walk last k dir (.slash :: rest) = t.walk last k dir rest := by
  cases k <;> rfl

@[simp] theorem walk_up : t.walk last k dir (.up :: rest) = t.walk last k dir.dropLast rest := by
  cases k <;> rfl

/-- Steps that take no segment lead nowhere. -/
theorem walk_skips (h : ∀ s ∈ steps, s.segment? = none) :
    t.walk last k dir (steps ++ rest) = t.walk last k dir rest := by
  induction steps with
  | nil => rfl
  | cons s steps ih =>
    obtain ⟨hs, hsteps⟩ := List.forall_mem_cons.1 h
    cases s with
    | stay => rw [List.cons_append, walk_stay, ih hsteps]
    | slash => rw [List.cons_append, walk_slash, ih hsteps]
    | up => cases hs
    | down n => cases hs

/-- A step down, by what stands there, for walks that write nothing. -/
theorem walk_down (hlast : last ≠ .write) (hn : n.text.utf8Size ≤ 255) :
    t.walk last k dir (.down n :: rest) =
      match t.lookup (dir ++ [n]) with
      | none => if rest = [] then .ok (.vacant dir n) else .error .missing
      | some .directory => t.walk last k (dir ++ [n]) rest
      | some (.file content) =>
        if rest = [] then .ok (.entry (dir ++ [n]) (.file content)) else .error .notDirectory
      | some (.link target) =>
        if rest = [] ∧ last = .keep then .ok (.entry (dir ++ [n]) (.link target))
        else match k with
          | 0 => .error .tooManyLinks
          | k + 1 => t.walk last k (start dir target) (Step.listOfText target ++ rest) := by
  have hwrite : ¬ (last = .write ∧ rest ≠ [] ∧ rest.all (· = .slash)) := fun h ↦ hlast h.1
  have hsize : ¬ 255 < n.text.utf8Size := Nat.not_lt.2 hn
  cases k with
  | zero => exact (if_neg hwrite).trans (if_neg hsize)
  | succ k => exact (if_neg hwrite).trans (if_neg hsize)

theorem utf8Size_le_of_walk_down (hlast : last ≠ .write)
    (h : t.walk last k dir (.down n :: rest) = .ok r) : n.text.utf8Size ≤ 255 := by
  refine Nat.le_of_not_lt fun hsize ↦ ?_
  cases k <;> simp [walk, descend, hlast, hsize] at h

/-- A step down that keeps a link ends at the entry below, whatever it is. -/
theorem lookup_of_walk_keep_down {e : Entry}
    (h : t.walk .keep k dir [.down n] = .ok (.entry loc e)) :
    loc = dir ++ [n] ∧ t.lookup loc = some e := by
  have hkeep : LastLink.keep ≠ .write := by decide
  rw [walk_down hkeep (utf8Size_le_of_walk_down hkeep h)] at h
  cases hfound : t.lookup (dir ++ [n]) with
  | none => simp [hfound] at h
  | some e' =>
    have hend : Found.entry (dir ++ [n]) e' = .entry loc e := by
      cases e' <;> simpa [hfound] using h
    obtain ⟨rfl, rfl⟩ := Found.entry.inj hend
    exact ⟨rfl, hfound⟩

/-! ## Walks that end well -/

/-- The walks that end well, by their first steps. -/
inductive EndsAt (t : FileTree) (last : LastLink) : Nat → Location → List Step → Found → Prop
  | here {k : Nat} {dir : Location} : EndsAt t last k dir [] (.entry dir .directory)
  | skip {k : Nat} {dir : Location} {s : Step} {rest : List Step} {r : Found} :
      s.segment? = none → EndsAt t last k dir rest r → EndsAt t last k dir (s :: rest) r
  | up {k : Nat} {dir : Location} {rest : List Step} {r : Found} :
      EndsAt t last k dir.dropLast rest r → EndsAt t last k dir (.up :: rest) r
  | enter {k : Nat} {dir : Location} {n : FileName} {rest : List Step} {r : Found} :
      n.text.utf8Size ≤ 255 → t.lookup (dir ++ [n]) = some .directory →
      EndsAt t last k (dir ++ [n]) rest r → EndsAt t last k dir (.down n :: rest) r
  | file {k : Nat} {dir : Location} {n : FileName} {content : Bytes} :
      n.text.utf8Size ≤ 255 → t.lookup (dir ++ [n]) = some (.file content) →
      EndsAt t last k dir [.down n] (.entry (dir ++ [n]) (.file content))
  | vacant {k : Nat} {dir : Location} {n : FileName} :
      n.text.utf8Size ≤ 255 → t.lookup (dir ++ [n]) = none →
      EndsAt t last k dir [.down n] (.vacant dir n)
  | keep {k : Nat} {dir : Location} {n : FileName} {target : Text} :
      n.text.utf8Size ≤ 255 → t.lookup (dir ++ [n]) = some (.link target) → last = .keep →
      EndsAt t last k dir [.down n] (.entry (dir ++ [n]) (.link target))
  | follow {k : Nat} {dir : Location} {n : FileName} {target : Text} {rest : List Step} {r : Found} :
      n.text.utf8Size ≤ 255 → t.lookup (dir ++ [n]) = some (.link target) →
      ¬ (rest = [] ∧ last = .keep) →
      EndsAt t last k (start dir target) (Step.listOfText target ++ rest) r →
      EndsAt t last (k + 1) dir (.down n :: rest) r

theorem ite_ok_error_eq_ok_iff {c : Prop} [Decidable c] {ε α : Type} {a b : α} {e : ε} :
    (if c then (.ok a : Except ε α) else .error e) = .ok b ↔ c ∧ a = b := by
  split <;> simp [*]

/-- How a walk that ends well goes on from a step down. -/
theorem descend_down_eq_ok {onLink : Location → List Step → Except Fault Found}
    (h : t.descend last onLink dir (.down n :: rest) = .ok r) :
    n.text.utf8Size ≤ 255 ∧
      match t.lookup (dir ++ [n]) with
      | none => rest = [] ∧ .vacant dir n = r
      | some .directory => t.descend last onLink (dir ++ [n]) rest = .ok r
      | some (.file content) => rest = [] ∧ .entry (dir ++ [n]) (.file content) = r
      | some (.link target) =>
        (rest = [] ∧ last = .keep) ∧ .entry (dir ++ [n]) (.link target) = r ∨
          ¬ (rest = [] ∧ last = .keep) ∧
            onLink (start dir target) (Step.listOfText target ++ rest) = .ok r := by
  rw [descend] at h
  split at h
  · cases h
  split at h
  · cases h
  rename_i hsize
  refine ⟨Nat.le_of_not_lt hsize, ?_⟩
  cases hfound : t.lookup (dir ++ [n]) with
  | none =>
    rw [hfound] at h
    exact ite_ok_error_eq_ok_iff.1 h
  | some e =>
    rw [hfound] at h
    cases e with
    | directory => exact h
    | file content => exact ite_ok_error_eq_ok_iff.1 h
    | link target =>
      dsimp only at h ⊢
      split at h
      · rename_i hkeep
        exact .inl ⟨hkeep, Except.ok.inj h⟩
      · rename_i hfollow
        exact .inr ⟨hfollow, h⟩

theorem endsAt_of_descend {onLink : Location → List Step → Except Fault Found}
    (hlink : ∀ dir steps, onLink dir steps = .ok r → ∃ k', k = k' + 1 ∧ t.EndsAt last k' dir steps r)
    (h : t.descend last onLink dir steps = .ok r) : t.EndsAt last k dir steps r := by
  induction steps generalizing dir with
  | nil =>
    cases h
    exact .here
  | cons s rest ih =>
    cases s with
    | stay => exact .skip rfl (ih h)
    | slash => exact .skip rfl (ih h)
    | up => exact .up (ih h)
    | down n =>
      obtain ⟨hn, hgoes⟩ := descend_down_eq_ok h
      split at hgoes
      · rename_i hfound
        obtain ⟨rfl, rfl⟩ := hgoes
        exact .vacant hn hfound
      · rename_i hfound
        exact .enter hn hfound (ih hgoes)
      · rename_i content hfound
        obtain ⟨rfl, rfl⟩ := hgoes
        exact .file hn hfound
      · rename_i target hfound
        rcases hgoes with ⟨⟨rfl, hkeep⟩, rfl⟩ | ⟨hfollow, hgoes⟩
        · exact .keep hn hfound hkeep
        · obtain ⟨k', rfl, hends⟩ := hlink _ _ hgoes
          exact .follow hn hfound hfollow hends

/-- Every walk that ends well is one of these. -/
theorem endsAt_of_walk (h : t.walk last k dir steps = .ok r) : t.EndsAt last k dir steps r := by
  induction k generalizing dir steps r with
  | zero =>
    refine endsAt_of_descend ?_ h
    intro _ _ hlink
    cases hlink
  | succ k ih => exact endsAt_of_descend (fun _ _ hlink ↦ ⟨k, rfl, ih hlink⟩) h

/-- All of them end well, unless something is to be written. -/
theorem EndsAt.walk_eq (h : t.EndsAt last k dir steps r) (hlast : last ≠ .write) :
    t.walk last k dir steps = .ok r := by
  induction h with
  | here => exact walk_nil
  | @skip _ _ s rest _ hs _ ih =>
    rw [← List.singleton_append, walk_skips (by simpa using hs)]
    exact ih
  | up _ ih =>
    rw [walk_up]
    exact ih
  | enter hn hfound _ ih =>
    rw [walk_down hlast hn, hfound]
    exact ih
  | file hn hfound => rw [walk_down hlast hn, hfound]; rfl
  | vacant hn hfound => rw [walk_down hlast hn, hfound]; rfl
  | keep hn hfound hkeep =>
    rw [walk_down hlast hn, hfound]
    exact if_pos ⟨rfl, hkeep⟩
  | follow hn hfound hfollow _ ih =>
    rw [walk_down hlast hn, hfound]
    exact (if_neg hfollow).trans ih

/-- How a walk through all links ends well from a step down: it goes on below a directory or along
the target of a link, or it ends there. -/
theorem walk_follow_down_cases (h : t.walk .follow k dir (.down n :: rest) = .ok r) :
    t.lookup (dir ++ [n]) = some .directory ∧ t.walk .follow k (dir ++ [n]) rest = .ok r ∨
      (∃ target left, t.lookup (dir ++ [n]) = some (.link target) ∧ k = left + 1 ∧
        t.walk .follow left (start dir target) (Step.listOfText target ++ rest) = .ok r) ∨
      rest = [] ∧ (t.lookup (dir ++ [n]) = none ∧ r = .vacant dir n ∨
        ∃ content, t.lookup (dir ++ [n]) = some (.file content) ∧
          r = .entry (dir ++ [n]) (.file content)) := by
  have hfollow : LastLink.follow ≠ .write := by decide
  cases endsAt_of_walk h with
  | skip hs => cases hs
  | enter _ hfound hends => exact .inl ⟨hfound, hends.walk_eq hfollow⟩
  | file _ hfound => exact .inr (.inr ⟨rfl, .inr ⟨_, hfound, rfl⟩⟩)
  | vacant _ hfound => exact .inr (.inr ⟨rfl, .inl ⟨hfound, rfl⟩⟩)
  | keep _ _ hkeep => cases hkeep
  | follow _ hfound _ hends => exact .inr (.inl ⟨_, _, hfound, rfl, hends.walk_eq hfollow⟩)

/-- A walk over a link goes on along its target with one link less. -/
theorem exists_walk_of_link {target : Text} (h : t.walk .follow k dir (.down n :: rest) = .ok r)
    (he : t.lookup (dir ++ [n]) = some (.link target)) : ∃ left, k = left + 1 ∧
      t.walk .follow left (start dir target) (Step.listOfText target ++ rest) = .ok r := by
  rcases walk_follow_down_cases h with
    ⟨hfound, -⟩ | ⟨_, left, hfound, rfl, hwalk⟩ | ⟨-, ⟨hfound, -⟩ | ⟨content, hfound, -⟩⟩
  · cases he.symm.trans hfound
  · cases he.symm.trans hfound
    exact ⟨left, rfl, hwalk⟩
  · cases he.symm.trans hfound
  · cases he.symm.trans hfound

/-- What is found is found by a walk along the whole path, which is short and holds no NUL. -/
theorem find_eq_ok_iff {path : Text} : t.find last path = .ok r ↔
    ('\x00' ∉ path ∧ path ≠ [] ∧ path.utf8Size ≤ 4095) ∧
      t.walk last 40 (start t.workDir path) (Step.listOfText path) = .ok r := by
  unfold find
  split
  · rename_i hnul
    simp [hnul]
  split
  · rename_i hempty
    simp [hempty]
  split
  · rename_i hsize
    simp [Nat.not_le.2 hsize]
  · rename_i hnul hempty hsize
    simp [hnul, hempty, Nat.not_lt.1 hsize]

theorem walk_of_find {path : Text} (h : t.find last path = .ok r) :
    t.walk last 40 (start t.workDir path) (Step.listOfText path) = .ok r :=
  (find_eq_ok_iff.1 h).2

theorem entryAt_eq_ok_iff {path : Text} {e : Entry} :
    t.entryAt last path = .ok (loc, e) ↔ t.find last path = .ok (.entry loc e) := by
  unfold entryAt
  cases t.find last path with
  | error f => simp
  | ok found => cases found <;> simp

/-! ## Ways through directories -/

/-- Whether steps lead from one directory to another through a number of links, so that a walk along
them goes on from there with as many links less. -/
def LeadsTo (t : FileTree) (links : Nat) (dir : Location) (steps : List Step) (loc : Location) :
    Prop :=
  ∀ k rest, t.walk .follow (links + k) dir (steps ++ rest) = t.walk .follow k loc rest

theorem LeadsTo.nil : t.LeadsTo 0 dir [] dir := by
  intro k rest
  rw [Nat.zero_add, List.nil_append]

theorem LeadsTo.walk {links : Nat} (h : t.LeadsTo links dir steps loc) (k : Nat) :
    t.walk .follow (links + k) dir steps = .ok (.entry loc .directory) := by
  have hsteps := h k []
  rwa [List.append_nil, walk_nil] at hsteps

/-- A step that leads on with all links left leads where the steps behind it do. -/
theorem LeadsTo.cons {s : Step} {next : Location} {links : Nat} (h : t.LeadsTo links next steps loc)
    (hnext : ∀ k rest, t.walk .follow k dir (s :: rest) = t.walk .follow k next rest) :
    t.LeadsTo links dir (s :: steps) loc := by
  intro k rest
  rw [List.cons_append, hnext, h]

/-- A link leads where its target and the steps behind it do, through one link more. -/
theorem LeadsTo.link {target : Text} {links : Nat} (hn : n.text.utf8Size ≤ 255)
    (hfound : t.lookup (dir ++ [n]) = some (.link target))
    (h : t.LeadsTo links (start dir target) (Step.listOfText target ++ steps) loc) :
    t.LeadsTo (links + 1) dir (.down n :: steps) loc := by
  have hfollow : LastLink.follow ≠ .write := by decide
  intro k rest
  rw [Nat.add_right_comm, List.cons_append, walk_down hfollow hn, hfound]
  simp only [reduceCtorEq, and_false, if_false, ← List.append_assoc]
  exact h k rest

/-- A walk along `steps ++ rest` that ends well has gone along `steps` to a directory, unless it ends
there and not at a directory. -/
theorem exists_leadsTo_of_walk_append (h : t.walk .follow k dir (steps ++ rest) = .ok r)
    (hend : rest ≠ [] ∨ ∃ loc, r = .entry loc .directory) :
    ∃ links left loc, k = links + left ∧ t.LeadsTo links dir steps loc ∧
      t.walk .follow left loc rest = .ok r := by
  have hfollow : LastLink.follow ≠ .write := by decide
  induction k using Nat.strongRecOn generalizing dir steps with
  | ind k ihLinks =>
    induction steps generalizing dir with
    | nil => exact ⟨0, k, dir, (Nat.zero_add k).symm, .nil, h⟩
    | cons s steps ih =>
      -- Every step but the one through a link leads on with all links left.
      have hstep : ∀ next,
          (∀ k rest, t.walk .follow k dir (s :: rest) = t.walk .follow k next rest) →
          ∃ links left loc, k = links + left ∧ t.LeadsTo links dir (s :: steps) loc ∧
            t.walk .follow left loc rest = .ok r := by
        intro next hnext
        rw [List.cons_append, hnext] at h
        obtain ⟨links, left, loc, hk, hleads, hwalk⟩ := ih h
        exact ⟨links, left, loc, hk, hleads.cons hnext, hwalk⟩
      cases s with
      | stay => exact hstep dir fun _ _ ↦ walk_stay
      | slash => exact hstep dir fun _ _ ↦ walk_slash
      | up => exact hstep dir.dropLast fun _ _ ↦ walk_up
      | down n =>
        rw [List.cons_append] at h
        have hn := utf8Size_le_of_walk_down hfollow h
        rcases walk_follow_down_cases h with
          ⟨hfound, -⟩ | ⟨target, k, hfound, rfl, hwalk⟩ | ⟨hnil, hr⟩
        · refine hstep (dir ++ [n]) fun _ _ ↦ ?_
          rw [walk_down hfollow hn, hfound]
        · rw [← List.append_assoc] at hwalk
          obtain ⟨links, left, loc, rfl, hleads, hwalk⟩ := ihLinks k (Nat.lt_succ_self k) hwalk
          exact ⟨links + 1, left, loc, Nat.add_right_comm links left 1,
            hleads.link hn hfound, hwalk⟩
        · -- Nothing comes behind a file or a free name, and neither is a directory.
          obtain ⟨-, rfl⟩ := List.append_eq_nil_iff.1 hnil
          rcases hend with hrest | ⟨loc, rfl⟩
          · exact absurd rfl hrest
          · rcases hr with ⟨-, hr⟩ | ⟨content, -, hr⟩ <;> cases hr

/-- A walk that ends well also does so with more links left. -/
theorem EndsAt.of_le (h : t.EndsAt last k dir steps r) {more : Nat} (hle : k ≤ more) :
    t.EndsAt last more dir steps r := by
  induction h generalizing more with
  | here => exact .here
  | skip hs _ ih => exact .skip hs (ih hle)
  | up _ ih => exact .up (ih hle)
  | enter hn hfound _ ih => exact .enter hn hfound (ih hle)
  | file hn hfound => exact .file hn hfound
  | vacant hn hfound => exact .vacant hn hfound
  | keep hn hfound hkeep => exact .keep hn hfound hkeep
  | follow hn hfound hfollow _ ih =>
    cases more with
    | zero => contradiction
    | succ more => exact .follow hn hfound hfollow (ih (Nat.le_of_succ_le_succ hle))

theorem walk_of_le (hlast : last ≠ .write) (h : t.walk last k dir steps = .ok r) {more : Nat}
    (hle : k ≤ more) : t.walk last more dir steps = .ok r :=
  ((endsAt_of_walk h).of_le hle).walk_eq hlast

end FileTree

end SolidityImports
