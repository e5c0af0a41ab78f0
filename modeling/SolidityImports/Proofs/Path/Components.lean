import Mathlib.Data.List.Infix
import SolidityImports.Path.Ancestor
import SolidityImports.Proofs.Path.Clean

/-! # Components

Paths are compared by their components: the root or a `.` in front, if there is one, and then the
segments. Main statements: what two lists share at their front is their meet in the order of
prefixes; and the path with some of the first components of a text has these components again, except
that a `.` in front is lost to whatever follows it. -/

namespace SolidityImports.Path

/-! ## What lists share at their front -/

/-- To be a prefix of what two lists share is to be a prefix of both. -/
theorem prefix_sharedFront_iff {ds as bs : List Text} :
    ds <+: sharedFront as bs ↔ ds <+: as ∧ ds <+: bs := by
  induction as generalizing ds bs with
  | nil => simp +contextual [sharedFront]
  | cons a as ih =>
    cases bs with
    | nil => simp +contextual [sharedFront]
    | cons b bs =>
      cases ds with
      | nil => simp
      | cons d ds =>
        rw [sharedFront]
        split
        · rename_i hab
          subst hab
          rw [List.cons_prefix_cons, List.cons_prefix_cons, List.cons_prefix_cons, ih]
          tauto
        · rename_i hab
          rw [List.cons_prefix_cons, List.cons_prefix_cons, List.prefix_nil]
          refine iff_of_false (List.cons_ne_nil d ds) ?_
          rintro ⟨⟨rfl, -⟩, rfl, -⟩
          exact hab rfl

/-- Lists with the same prefixes are equal. -/
theorem eq_of_prefix_iff {as bs : List Text} (h : ∀ ds : List Text, ds <+: as ↔ ds <+: bs) :
    as = bs := by
  have hab : as <+: bs := (h as).1 List.prefix_rfl
  have hba : bs <+: as := (h bs).2 List.prefix_rfl
  exact hab.eq_of_length_le hba.length_le

theorem sharedFront_prefix_left (as bs : List Text) : sharedFront as bs <+: as :=
  (prefix_sharedFront_iff.1 List.prefix_rfl).1

theorem sharedFront_comm (as bs : List Text) : sharedFront as bs = sharedFront bs as := by
  apply eq_of_prefix_iff
  intro ds
  rw [prefix_sharedFront_iff, prefix_sharedFront_iff, and_comm]

theorem sharedFront_assoc (as bs cs : List Text) :
    sharedFront (sharedFront as bs) cs = sharedFront as (sharedFront bs cs) := by
  apply eq_of_prefix_iff
  intro ds
  simp only [prefix_sharedFront_iff, and_assoc]

theorem sharedFront_self (as : List Text) : sharedFront as as = as := by
  apply eq_of_prefix_iff
  intro ds
  rw [prefix_sharedFront_iff, and_self]

theorem sharedFront_eq_nil_iff {as bs : List Text} :
    sharedFront as bs = [] ↔ as = [] ∨ bs = [] ∨ as.head? ≠ bs.head? := by
  cases as with
  | nil => simp [sharedFront]
  | cons a as =>
    cases bs with
    | nil => simp [sharedFront]
    | cons b bs =>
      rw [sharedFront]
      split <;> simp_all

/-! ## The components of a text -/

/-- What the components of a text have in front of its segments: the root, or the `.` with which a
relative path starts. -/
def lead (s : Text) : List Text :=
  if s.head? = some '/' then [['/']]
  else if (importSegments s).head? = some ['.'] then [['.']] else []

theorem filter_ne_dot_eq {ws : List Text} (hws : ∀ w ∈ ws, w ≠ [] ∧ '/' ∉ w) :
    ws.filter (· ≠ ['.']) = (ws.filterMap Segment.ofText?).map Segment.text := by
  induction ws with
  | nil => rfl
  | cons w ws ih =>
    obtain ⟨hw, hrest⟩ := List.forall_mem_cons.1 hws
    rcases Segment.eq_dot_or_exists_text hw with rfl | ⟨s, rfl⟩
    · rw [List.filterMap_cons, Segment.ofText?_dot, ← ih hrest]
      rfl
    · rw [List.filterMap_cons, Segment.ofText?_text, List.map_cons, ← ih hrest,
        List.filter_cons_of_pos (by simpa using s.text_ne_dot)]

/-- The components of a text are its lead and its segments. -/
theorem components_eq (s : Text) :
    components s = lead s ++ (ofText s).segments.map Segment.text := by
  have hsegments : (ofText s).segments.map Segment.text =
      (importSegments s).filter (· ≠ ['.']) := by
    rw [filter_ne_dot_eq fun _ ↦ importSegments_slashFree, ← Segment.listOfText_eq]
    rfl
  have hpieces : (s.pieces '/').filter (· ≠ []) = importSegments s := rfl
  rw [hsegments]
  unfold components lead
  simp only [hpieces]
  split
  · rfl
  · cases importSegments s with
    | nil => rfl
    | cons first rest => by_cases hfirst : first = ['.'] <;> simp [hfirst]

theorem components_eq_nil_iff {s : Text} : components s = [] ↔ s = [] := by
  cases s with
  | nil => simp [components, Text.pieces]
  | cons c s =>
    refine iff_of_false ?_ (List.cons_ne_nil c s)
    unfold components
    split
    · exact List.cons_ne_nil _ _
    · rename_i hc
      have hne : c ≠ '/' := fun h ↦ hc (congrArg some h)
      -- The first piece is not empty, since it starts with `c`.
      rw [Text.pieces, if_neg hne]
      cases Text.pieces '/' s <;> simp

theorem lead_cases (s : Text) : s.head? = some '/' ∧ lead s = [['/']] ∨
    s.head? ≠ some '/' ∧ (lead s = [['.']] ∨ lead s = []) := by
  unfold lead
  split
  · rename_i hs
    exact .inl ⟨hs, rfl⟩
  · rename_i hs
    refine .inr ⟨hs, ?_⟩
    split
    · exact .inl rfl
    · exact .inr rfl

/-- A written relative path with segments starts with the first of them. -/
theorem head?_importSegments_text {p : Path} (h : p.anchor = .relative) (hne : p.segments ≠ []) :
    ∃ s : Segment, (importSegments p.text).head? = some s.text := by
  obtain ⟨s, rest, hsplit⟩ := List.exists_cons_of_ne_nil hne
  have hhere : p ≠ here := fun hp ↦ hne (congrArg segments hp)
  have htext : p.text = Text.joinWith ['/'] ((s :: rest).map Segment.text) := by
    rw [text, if_neg hhere, h, hsplit]
    rfl
  have hslash : ∀ w ∈ (s :: rest).map Segment.text, '/' ∉ w := by
    intro w hw
    obtain ⟨s', -, rfl⟩ := List.mem_map.1 hw
    exact s'.slash_not_mem_text
  refine ⟨s, ?_⟩
  rw [importSegments, htext, Text.pieces_joinWith hslash (by simp), List.map_cons,
    List.filter_cons_of_pos (by simpa using s.text_ne_nil), List.head?_cons]

/-- Of the written paths, only `.` itself starts with a `.`. -/
theorem lead_text (p : Path) :
    lead p.text = if p.isRooted then [['/']] else if p.segments = [] then [['.']] else [] := by
  have hhead : p.text.head? = some '/' ↔ p.isRooted := by
    rw [← decide_eq_true_iff (p := p.text.head? = some '/'), ← isRooted_ofText, ofText_text]
  unfold lead
  simp only [hhead]
  split
  · rfl
  · rename_i hrooted
    have hanchor : p.anchor = .relative := by simpa [isRooted] using hrooted
    by_cases hsegments : p.segments = []
    · rw [if_pos hsegments, show p = here from Path.ext hanchor hsegments]
      rfl
    · obtain ⟨s, hs⟩ := head?_importSegments_text hanchor hsegments
      rw [if_neg hsegments, if_neg]
      rw [hs]
      exact fun hdot ↦ s.text_ne_dot (Option.some.inj hdot)

theorem components_text (p : Path) :
    components p.text = lead p.text ++ p.segments.map Segment.text := by
  rw [components_eq, ofText_text]

/-! ## Paths with given components -/

/-- Components without a `.` in front of others. -/
def dropDot : List Text → List Text
  | c :: c' :: cs => if c = ['.'] then c' :: cs else c :: c' :: cs
  | cs => cs

theorem dropDot_of_head?_ne {cs : List Text} (h : cs.head? ≠ some ['.']) : dropDot cs = cs := by
  match cs with
  | [] => rfl
  | [_] => rfl
  | c :: _ :: _ => exact if_neg fun hc ↦ h (congrArg some hc)

/-- The first components of a text hold its lead, unless there are none. -/
theorem exists_eq_lead_append_of_prefix {cs : List Text} {s : Text} (h : cs <+: components s)
    (hne : cs ≠ []) : ∃ segments : List Segment, cs = lead s ++ segments.map Segment.text := by
  have hlead : lead s = [] ∨ ∃ c, lead s = [c] := by
    rcases lead_cases s with ⟨-, hs⟩ | ⟨-, hs | hs⟩
    · exact .inr ⟨_, hs⟩
    · exact .inr ⟨_, hs⟩
    · exact .inl hs
  rw [components_eq] at h
  rcases hlead with hlead | ⟨c, hlead⟩
  · rw [hlead] at h ⊢
    obtain ⟨segments, -, rfl⟩ := List.prefix_map_iff.1 h
    exact ⟨segments, rfl⟩
  · rw [hlead] at h ⊢
    obtain rfl | ⟨rest, rfl, hrest⟩ := List.prefix_cons_iff.1 h
    · contradiction
    · obtain ⟨segments, -, rfl⟩ := List.prefix_map_iff.1 hrest
      exact ⟨segments, rfl⟩

/-- Segments are put behind a path one by one. -/
theorem foldl_join_map_text (p : Path) (segments : List Segment) :
    (segments.map Segment.text).foldl (fun q c ↦ q / ofText c) p =
      ⟨p.anchor, p.segments ++ segments⟩ := by
  have hread : ∀ s : Segment, Segment.listOfText s.text = [s] := by
    intro s
    rw [Segment.listOfText_of_not_mem s.slash_not_mem_text, Segment.ofText?_text]
    rfl
  rw [foldl_join_of_relative]
  · simp [List.flatMap_map, hread]
  · intro w hw hhead
    obtain ⟨s, -, rfl⟩ := List.mem_map.1 hw
    exact s.slash_not_mem_text (List.mem_of_mem_head? hhead)

theorem ofComponents_lead_append (s : Text) (segments : List Segment) :
    ofComponents (lead s ++ segments.map Segment.text) =
      ⟨if s.head? = some '/' then .root else .relative, segments⟩ := by
  unfold ofComponents
  rw [List.foldl_append, foldl_join_map_text]
  rcases lead_cases s with ⟨hs, hlead⟩ | ⟨hs, hlead | hlead⟩
  · rw [hlead, if_pos hs]
    rfl
  · rw [hlead, if_neg hs]
    rfl
  · rw [hlead, if_neg hs]
    rfl

/-- The path with the first components of a text has them again, but for a `.` in front of others. -/
theorem components_text_ofComponents {cs : List Text} {s : Text} (h : cs <+: components s)
    (hne : cs ≠ []) : components (ofComponents cs).text = dropDot cs := by
  obtain ⟨segments, rfl⟩ := exists_eq_lead_append_of_prefix h hne
  rw [ofComponents_lead_append, components_text, lead_text]
  rcases lead_cases s with ⟨hs, hlead⟩ | ⟨hs, hlead | hlead⟩
  · rw [hlead, if_pos hs, dropDot_of_head?_ne (by simp)]
    rfl
  · rw [hlead, if_neg hs]
    cases segments <;> rfl
  · rw [hlead] at hne ⊢
    obtain ⟨segment, segments, rfl⟩ : ∃ x xs, segments = x :: xs := by
      apply List.exists_cons_of_ne_nil
      rintro rfl
      exact hne rfl
    have hhead : segment.text ≠ ['.'] := segment.text_ne_dot
    rw [if_neg hs, dropDot_of_head?_ne (by simpa using hhead)]
    rfl

/-- Reading a path keeps its components, but for a `.` in front of others. -/
theorem components_text_ofText {s : Text} (h : s ≠ []) :
    components (ofText s).text = dropDot (components s) := by
  have hne : components s ≠ [] := fun hnil ↦ h (components_eq_nil_iff.1 hnil)
  have hpath : ofComponents (components s) =
      ⟨if s.head? = some '/' then .root else .relative, (ofText s).segments⟩ := by
    rw [components_eq, ofComponents_lead_append]
  have hrooted : (ofComponents (components s)).isRooted = (ofText s).isRooted := by
    rw [hpath, isRooted_ofText]
    by_cases hs : s.head? = some '/' <;> simp [hs, isRooted]
  rw [← components_text_ofComponents List.prefix_rfl hne, components_text, components_text, lead_text,
    lead_text, hrooted, hpath]

theorem dropDot_prefix_eq_self {cs ds : List Text} (h : dropDot cs = cs) (hds : ds <+: cs) :
    dropDot ds = ds := by
  match ds with
  | [] => rfl
  | [_] => rfl
  | c :: c' :: ds =>
    obtain ⟨rest, rfl⟩ := hds
    refine if_neg ?_
    rintro rfl
    have hlength := congrArg List.length h
    simp [dropDot] at hlength

/-- A written path starts with a `.` only if nothing follows it. -/
theorem dropDot_components_text (p : Path) : dropDot (components p.text) = components p.text := by
  have hne : p.text ≠ [] := by
    intro hnil
    have hp := ofText_text p
    rw [hnil] at hp
    obtain rfl : p = here := hp.symm
    cases hnil
  rw [← components_text_ofText hne, ofText_text]

end SolidityImports.Path
