import Mathlib.Data.List.TakeWhile
import SolidityImports.Path.Ancestor

/-! # Below and above a directory

What lies below a directory, by the segments of the paths alone. Main statements: the ancestors of a
path are all the paths that it lies below, each but the first above the one before it; the walk from a
path up to a directory, step by step, comes to an end and goes through them up to that directory; and
it stays below the directory exactly if it starts below it, or has nowhere to go. From the directory
itself every step leads above it. -/

namespace SolidityImports.Path

theorem isWithin_iff {p base : Path} :
    p.isWithin base ↔ p.anchor = base.anchor ∧ base.segments <+: p.segments := by
  unfold isWithin relativeTo?
  rw [← List.isPrefixOf_iff_prefix]
  split
  · rename_i h
    constructor
    · intro _
      exact h
    · intro _
      rfl
  · rename_i h
    constructor
    · intro hnone
      contradiction
    · intro h'
      contradiction

/-- Whether a directory is a path itself or one of those above it, as the two are written. -/
def Encloses (d p : Path) : Prop := d.anchor = p.anchor ∧ d.segments <+: p.segments

instance (d p : Path) : Decidable (d.Encloses p) := inferInstanceAs (Decidable (_ ∧ _))

theorem isWithin_eq (p base : Path) : p.isWithin base = decide (base.Encloses p) := by
  rw [Bool.eq_iff_iff, decide_eq_true_iff, isWithin_iff, Encloses, eq_comm]

/-- Whether a path continues a directory by one segment or more. -/
def IsBelow (p base : Path) : Prop := p.isWithin base ∧ p ≠ base

instance (p base : Path) : Decidable (p.IsBelow base) :=
  inferInstanceAs (Decidable (_ ∧ _))

theorem isBelow_iff {p base : Path} : p.IsBelow base ↔
    p.anchor = base.anchor ∧ base.segments <+: p.segments ∧
      base.segments.length < p.segments.length := by
  unfold IsBelow
  rw [isWithin_iff]
  constructor
  · rintro ⟨⟨hanchor, hprefix⟩, hne⟩
    refine ⟨hanchor, hprefix, Nat.lt_of_le_of_ne hprefix.length_le ?_⟩
    intro hlength
    apply hne
    obtain ⟨anchor, segments⟩ := p
    obtain ⟨baseAnchor, baseSegments⟩ := base
    obtain rfl : baseSegments = segments := hprefix.eq_of_length hlength
    obtain rfl : anchor = baseAnchor := hanchor
    rfl
  · rintro ⟨hanchor, hprefix, hlt⟩
    refine ⟨⟨hanchor, hprefix⟩, ?_⟩
    rintro rfl
    exact Nat.lt_irrefl _ hlt

/-- No two paths lie below each other. -/
theorem IsBelow.asymm {p q : Path} (h : p.IsBelow q) : ¬ q.IsBelow p := by
  intro h'
  obtain ⟨-, -, hpq⟩ := isBelow_iff.1 h
  obtain ⟨-, -, hqp⟩ := isBelow_iff.1 h'
  exact Nat.lt_asymm hpq hqp

theorem isBelow_of_mem_ancestors {p d : Path} (h : d ∈ p.ancestors) : p.IsBelow d := by
  obtain ⟨n, hn, rfl⟩ := List.mem_map.1 h
  have hlt : n < p.segments.length := List.mem_range.1 (List.mem_reverse.1 hn)
  refine isBelow_iff.2 ⟨rfl, List.take_prefix n p.segments, ?_⟩
  rw [List.length_take, Nat.min_eq_left (Nat.le_of_lt hlt)]
  exact hlt

theorem mem_ancestors_of_mem_ancestorsBelow {p base d : Path} (h : d ∈ p.ancestorsBelow base) :
    d ∈ p.ancestors := (List.takeWhile_sublist _).subset h

/-- A walk down the numbers that stops at `stop` stays above it if it starts above it. -/
theorem mem_takeWhile_range_reverse {f : Nat → Path} {stop : Nat} {d : Path} {n : Nat}
    (hn : stop < n) (h : d ∈ ((List.range n).reverse.map f).takeWhile (· ≠ f stop)) :
    ∃ k, stop < k ∧ k < n ∧ d = f k := by
  induction n with
  | zero => omega
  | succ n ih =>
    rw [List.range_succ, List.reverse_append, List.reverse_singleton, List.singleton_append,
      List.map_cons, List.takeWhile_cons] at h
    split at h
    · rename_i hne
      have hstop : n ≠ stop := by
        rintro rfl
        exact of_decide_eq_true hne rfl
      rcases List.mem_cons.1 h with rfl | h
      · exact ⟨n, by omega, by omega, rfl⟩
      · obtain ⟨k, hk, hkn, rfl⟩ := ih (by omega) h
        exact ⟨k, hk, by omega, rfl⟩
    · contradiction

/-- The walk up from below a directory stays below it. -/
theorem isBelow_of_mem_ancestorsBelow {p base d : Path} (hp : p.IsBelow base)
    (hd : d ∈ p.ancestorsBelow base) : d.IsBelow base := by
  obtain ⟨hanchor, hprefix, hlt⟩ := isBelow_iff.1 hp
  have hstop : (⟨p.anchor, p.segments.take base.segments.length⟩ : Path) = base := by
    rw [← List.prefix_iff_eq_take.1 hprefix, hanchor]
  unfold ancestorsBelow ancestors at hd
  rw [← hstop] at hd
  obtain ⟨k, hk, hkp, rfl⟩ := mem_takeWhile_range_reverse
    (f := fun n ↦ ⟨p.anchor, p.segments.take n⟩) hlt hd
  refine isBelow_iff.2 ⟨hanchor, ?_, ?_⟩
  · exact List.prefix_of_prefix_length_le hprefix (List.take_prefix k p.segments) (by
      rw [List.length_take, Nat.min_eq_left (Nat.le_of_lt hkp)]
      exact Nat.le_of_lt hk)
  · rw [List.length_take, Nat.min_eq_left (Nat.le_of_lt hkp)]
    exact hk

/-- A directory does not stop the walk that starts at it. -/
theorem ancestorsBelow_self (p : Path) : p.ancestorsBelow p = p.ancestors := by
  apply List.takeWhile_eq_self_iff.2
  intro d hd
  apply decide_eq_true
  intro heq
  exact (isBelow_of_mem_ancestors hd).2 heq.symm

theorem ancestors_eq_nil_iff {p : Path} : p.ancestors = [] ↔ p.segments = [] := by
  unfold ancestors
  simp

/-- The walk up from a place within a directory stays below it exactly if it starts below it or has
nowhere to go. -/
theorem forall_ancestorsBelow_isBelow_iff {p base : Path} (hp : p.isWithin base) :
    (∀ d ∈ p.ancestorsBelow base, d.IsBelow base) ↔ p ≠ base ∨ p.segments = [] := by
  constructor
  · intro h
    by_cases heq : p = base
    · subst heq
      rw [ancestorsBelow_self] at h
      cases hancestors : p.ancestors with
      | nil => exact .inr (ancestors_eq_nil_iff.1 hancestors)
      | cons d rest =>
        have hmem : d ∈ p.ancestors := hancestors ▸ List.mem_cons_self
        exact absurd (h d hmem) (isBelow_of_mem_ancestors hmem).asymm
    · exact .inl heq
  · rintro (hne | hsegments) d hd
    · exact isBelow_of_mem_ancestorsBelow ⟨hp, hne⟩ hd
    · have hmem := mem_ancestors_of_mem_ancestorsBelow hd
      rw [ancestors_eq_nil_iff.2 hsegments] at hmem
      contradiction

/-! ## The walk up, step by step -/

theorem parent_eq_self_iff {p : Path} : p.parent = p ↔ p.segments = [] := by
  constructor
  · intro h
    have hlength := congrArg (fun q : Path ↦ q.segments.length) h
    simp only [parent, List.length_dropLast] at hlength
    exact List.eq_nil_of_length_eq_zero (by omega)
  · intro h
    exact Path.ext rfl (by simp [parent, h])

theorem length_segments_parent {p : Path} {n : Nat} (h : p.segments.length = n + 1) :
    p.parent.segments.length = n := by
  rw [parent, List.length_dropLast, h, Nat.add_sub_cancel]

/-- The nearest ancestor is the parent, and the others are those of the parent. -/
theorem ancestors_of_ne_nil {p : Path} (h : p.segments ≠ []) :
    p.ancestors = p.parent :: p.parent.ancestors := by
  obtain ⟨k, hk⟩ := Nat.exists_eq_add_one_of_ne_zero (List.length_pos_iff.2 h).ne'
  have hparent : p.parent = ⟨p.anchor, p.segments.take k⟩ := by
    rw [parent, List.dropLast_eq_take, hk, Nat.add_sub_cancel]
  have hrest : p.parent.ancestors =
      (List.range k).reverse.map fun n ↦ ⟨p.anchor, p.segments.take n⟩ := by
    rw [ancestors, length_segments_parent hk]
    apply List.map_congr_left
    intro n hn
    have hlt : n < k := List.mem_range.1 (List.mem_reverse.1 hn)
    rw [hparent, List.take_take, Nat.min_eq_left (Nat.le_of_lt hlt)]
  rw [hrest, hparent, ancestors, hk, List.range_succ, List.reverse_append, List.reverse_singleton,
    List.singleton_append, List.map_cons]

/-- A path lies below its ancestors and nothing else. -/
theorem mem_ancestors_iff {p d : Path} : d ∈ p.ancestors ↔ p.IsBelow d := by
  constructor
  · exact isBelow_of_mem_ancestors
  · intro h
    obtain ⟨hanchor, hprefix, hlt⟩ := isBelow_iff.1 h
    refine List.mem_map.2 ⟨d.segments.length, ?_, ?_⟩
    · exact List.mem_reverse.2 (List.mem_range.2 hlt)
    · rw [← List.prefix_iff_eq_take.1 hprefix, hanchor]

/-- The ancestors come nearest first: each lies below those behind it. -/
theorem pairwise_ancestors (p : Path) : p.ancestors.Pairwise fun d e ↦ d.IsBelow e := by
  induction hlength : p.segments.length generalizing p with
  | zero =>
    rw [ancestors_eq_nil_iff.2 (List.eq_nil_of_length_eq_zero hlength)]
    exact .nil
  | succ n ih =>
    have hne : p.segments ≠ [] := List.ne_nil_of_length_eq_add_one hlength
    rw [ancestors_of_ne_nil hne]
    exact .cons (fun e he ↦ isBelow_of_mem_ancestors he)
      (ih p.parent (length_segments_parent hlength))

theorem nodup_ancestors (p : Path) : p.ancestors.Nodup := by
  refine (pairwise_ancestors p).imp ?_
  rintro d e h rfl
  exact h.2 rfl

/-- The walk from a path to its parent, to the parent of that, and so on, which ends where a path is
its own parent or the next one would be `top`. -/
inductive ClimbsBelow (top : Path) : Path → List Path → Prop
  | stop {p : Path} (h : p.parent = p ∨ p.parent = top) : ClimbsBelow top p []
  | step {p : Path} {ds : List Path} (hne : p.parent ≠ p) (htop : p.parent ≠ top)
    (h : ClimbsBelow top p.parent ds) : ClimbsBelow top p (p.parent :: ds)

theorem ancestorsBelow_eq (p top : Path) : p.ancestorsBelow top =
    if p.parent = p ∨ p.parent = top then [] else p.parent :: p.parent.ancestorsBelow top := by
  by_cases hsegments : p.segments = []
  · rw [if_pos (.inl (parent_eq_self_iff.2 hsegments)), ancestorsBelow,
      ancestors_eq_nil_iff.2 hsegments]
    rfl
  · have hne : p.parent ≠ p := fun h ↦ hsegments (parent_eq_self_iff.1 h)
    rw [ancestorsBelow, ancestors_of_ne_nil hsegments, List.takeWhile_cons]
    by_cases htop : p.parent = top <;> simp [hne, htop, ancestorsBelow]

/-- The walk comes to an end, and goes through the ancestors below `top`. -/
theorem climbsBelow_iff {top p : Path} {ds : List Path} :
    ClimbsBelow top p ds ↔ ds = p.ancestorsBelow top := by
  constructor
  · intro h
    induction h with
    | stop h => rw [ancestorsBelow_eq, if_pos h]
    | step hne htop _ ih => rw [ancestorsBelow_eq, if_neg (not_or.2 ⟨hne, htop⟩), ← ih]
  · rintro rfl
    induction hlength : p.segments.length generalizing p with
    | zero =>
      have hstop : p.parent = p := parent_eq_self_iff.2 (List.eq_nil_of_length_eq_zero hlength)
      rw [ancestorsBelow_eq, if_pos (.inl hstop)]
      exact .stop (.inl hstop)
    | succ n ih =>
      rw [ancestorsBelow_eq]
      split
      · rename_i hstop
        exact .stop hstop
      · rename_i hgoes
        obtain ⟨hne, htop⟩ := not_or.1 hgoes
        exact .step hne htop (ih (length_segments_parent hlength))

example : (ofText (.of "/top/a/../b")).ancestorsBelow (ofText (.of "/top")) =
    [ofText (.of "/top/a/.."), ofText (.of "/top/a")] := by decide

/-- The ancestors below `top` are those before it, or all if it is none of them. -/
theorem ancestorsBelow_cases (p top : Path) :
    p.ancestorsBelow top = p.ancestors ∧ top ∉ p.ancestors ∨
      ∃ above, p.ancestors = p.ancestorsBelow top ++ top :: above := by
  have hsplit : p.ancestorsBelow top ++ p.ancestors.dropWhile (· ≠ top) = p.ancestors :=
    List.takeWhile_append_dropWhile
  cases hrest : p.ancestors.dropWhile (· ≠ top) with
  | nil =>
    rw [hrest, List.append_nil] at hsplit
    refine .inl ⟨hsplit, ?_⟩
    rw [← hsplit]
    intro hmem
    have htop := List.mem_takeWhile_imp hmem
    exact of_decide_eq_true htop rfl
  | cons d above =>
    have hd := List.head?_dropWhile_not (· ≠ top) p.ancestors
    rw [hrest] at hd
    obtain rfl : d = top := by simpa using hd
    rw [hrest] at hsplit
    exact .inr ⟨above, hsplit.symm⟩

end SolidityImports.Path
