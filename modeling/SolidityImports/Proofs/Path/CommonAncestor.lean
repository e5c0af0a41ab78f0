import SolidityImports.Proofs.Path.Components

/-! # Common ancestors

The last path that two paths have in common, and that of several paths, which is found by going
through them one by one. Main statements: on rooted paths, the common ancestor is the meet in the order
of ancestors; and several paths, in whatever order and however often each, have the path of the longest
components that they all start with as their common ancestor, except if the first of them starts with a
`.` and the others all start with that `.`, or all with the component behind it. -/

namespace SolidityImports.Path

/-- The path with the given components, if there are any. -/
def ofShared? : List Text → Option Path
  | [] => none
  | cs => some (ofComponents cs)

theorem ofShared?_of_ne_nil {cs : List Text} (h : cs ≠ []) :
    ofShared? cs = some (ofComponents cs) := by
  cases cs with
  | nil => contradiction
  | cons c cs => rfl

theorem ofShared?_eq_none_iff {cs : List Text} : ofShared? cs = none ↔ cs = [] := by
  cases cs <;> simp [ofShared?]

/-- Of two lists of which one is empty, both have to be for their paths to be equal. -/
theorem ofShared?_eq_iff {cs ds : List Text} (h : ¬ (cs ≠ [] ∧ ds ≠ [])) :
    ofShared? cs = ofShared? ds ↔ ¬ (ds ≠ [] ∨ cs ≠ []) := by
  cases cs <;> cases ds <;> simp_all [ofShared?]

theorem commonAncestor?_eq (a b : Text) :
    commonAncestor? a b = ofShared? (sharedFront (components a) (components b)) := by
  unfold commonAncestor?
  cases sharedFront (components a) (components b) <;> rfl

/-! ## Two paths -/

/-- Whether the path `d` is an ancestor of `s` or `s` itself, as their components tell. -/
def IsAtOrAbove (d s : Text) : Prop := components d <+: components s

theorem isRooted_iff_head?_components {s : Text} :
    (ofText s).isRooted ↔ (components s).head? = some ['/'] := by
  rw [isRooted_ofText, decide_eq_true_eq, components_eq]
  rcases lead_cases s with ⟨hs, hlead⟩ | ⟨hs, hlead | hlead⟩
  · simp [hs, hlead]
  · simp [hs, hlead]
  · refine iff_of_false hs ?_
    rw [hlead, List.nil_append, List.head?_map]
    intro h
    obtain ⟨segment, -, hsegment⟩ := Option.map_eq_some_iff.1 h
    exact segment.slash_not_mem_text (hsegment ▸ List.mem_cons_self)

/-- Rooted paths have a common ancestor, with the components that both share at their front. -/
theorem exists_commonAncestor? {a b : Text} (ha : (ofText a).isRooted) (hb : (ofText b).isRooted) :
    ∃ m, commonAncestor? a b = some m ∧ m.isRooted ∧
      components m.text = sharedFront (components a) (components b) := by
  rw [isRooted_iff_head?_components] at ha hb
  obtain ⟨as, has⟩ := List.head?_eq_some_iff.1 ha
  obtain ⟨bs, hbs⟩ := List.head?_eq_some_iff.1 hb
  have hfront : sharedFront (components a) (components b) = ['/'] :: sharedFront as bs := by
    rw [has, hbs]
    rfl
  have hne : sharedFront (components a) (components b) ≠ [] := by simp [hfront]
  have hcomponents := components_text_ofComponents (sharedFront_prefix_left _ (components b)) hne
  rw [dropDot_of_head?_ne (by simp [hfront])] at hcomponents
  refine ⟨ofComponents (sharedFront (components a) (components b)), ?_, ?_, hcomponents⟩
  · rw [commonAncestor?_eq, ofShared?_of_ne_nil hne]
  · rw [← ofText_text (ofComponents _), isRooted_iff_head?_components, hcomponents, hfront]
    rfl

/-- The common ancestor of two paths is missing exactly if one of them has no component or they differ
in the first one, and their order does not matter. On rooted paths it is their meet: it is never
missing, at or above both, and below everything else that is; it is idempotent and associative. -/
theorem commonAncestor?_isMeet (a b : Text) :
    (commonAncestor? a b = none ↔
        components a = [] ∨ components b = [] ∨ (components a).head? ≠ (components b).head?) ∧
      commonAncestor? a b = commonAncestor? b a ∧
      ((ofText a).isRooted → (ofText b).isRooted →
        ∃ m, commonAncestor? a b = some m ∧ m.isRooted ∧
          IsAtOrAbove m.text a ∧ IsAtOrAbove m.text b ∧
          ∀ d, IsAtOrAbove d a → IsAtOrAbove d b → IsAtOrAbove d m.text) ∧
      ((ofText a).isRooted → ∃ m, commonAncestor? a a = some m ∧ components m.text = components a) ∧
      ∀ c, (ofText a).isRooted → (ofText b).isRooted → (ofText c).isRooted →
        ((commonAncestor? a b).bind fun m ↦ commonAncestor? m.text c) =
          (commonAncestor? b c).bind fun m ↦ commonAncestor? a m.text := by
  refine ⟨?_, ?_, ?_, ?_, ?_⟩
  · rw [commonAncestor?_eq, ofShared?_eq_none_iff, sharedFront_eq_nil_iff]
  · rw [commonAncestor?_eq, commonAncestor?_eq, sharedFront_comm]
  · intro ha hb
    obtain ⟨m, hm, hrooted, hcomponents⟩ := exists_commonAncestor? ha hb
    have hmeet : ∀ d, IsAtOrAbove d m.text ↔ IsAtOrAbove d a ∧ IsAtOrAbove d b := by
      intro d
      unfold IsAtOrAbove
      rw [hcomponents, prefix_sharedFront_iff]
    obtain ⟨hma, hmb⟩ := (hmeet m.text).1 List.prefix_rfl
    exact ⟨m, hm, hrooted, hma, hmb, fun d hda hdb ↦ (hmeet d).2 ⟨hda, hdb⟩⟩
  · intro ha
    obtain ⟨m, hm, -, hcomponents⟩ := exists_commonAncestor? ha ha
    rw [sharedFront_self] at hcomponents
    exact ⟨m, hm, hcomponents⟩
  · intro c ha hb hc
    obtain ⟨m, hm, -, hab⟩ := exists_commonAncestor? ha hb
    obtain ⟨m', hm', -, hbc⟩ := exists_commonAncestor? hb hc
    rw [hm, hm', Option.bind_some, Option.bind_some, commonAncestor?_eq, commonAncestor?_eq, hab, hbc,
      sharedFront_assoc]

/-- Two slashes count like one, and a `.` between others does not count. -/
theorem commonAncestor?_neighbours :
    (ofText (.of "//foo/./bar/a.sol")).isRooted ∧ (ofText (.of "/foo/bar/../b.sol")).isRooted ∧
      commonAncestor? (.of "//foo/./bar/a.sol") (.of "/foo/bar/../b.sol") =
        some (ofText (.of "/foo/bar")) ∧
      IsAtOrAbove (.of "/foo/bar") (.of "//foo/./bar/a.sol") ∧
      IsAtOrAbove (.of "/foo/bar") (.of "/foo/bar/../b.sol") ∧
      ((commonAncestor? (.of "//foo/./bar/a.sol") (.of "/foo/bar/../b.sol")).bind
          fun m ↦ commonAncestor? m.text (.of "/foo/c.sol")) =
        (commonAncestor? (.of "/foo/bar/../b.sol") (.of "/foo/c.sol")).bind
          fun m ↦ commonAncestor? (.of "//foo/./bar/a.sol") m.text := by
  have ha : (ofText (.of "//foo/./bar/a.sol")).isRooted := by decide
  have hb : (ofText (.of "/foo/bar/../b.sol")).isRooted := by decide
  have hc : (ofText (.of "/foo/c.sol")).isRooted := by decide
  have hab : commonAncestor? (.of "//foo/./bar/a.sol") (.of "/foo/bar/../b.sol") =
      some (ofText (.of "/foo/bar")) := by decide
  obtain ⟨-, -, hmeet, -, hassoc⟩ :=
    commonAncestor?_isMeet (.of "//foo/./bar/a.sol") (.of "/foo/bar/../b.sol")
  obtain ⟨m, hm, -, hma, hmb, -⟩ := hmeet ha hb
  obtain rfl : ofText (.of "/foo/bar") = m := Option.some.inj (hab.symm.trans hm)
  exact ⟨ha, hb, hab, hma, hmb, hassoc _ ha hb hc⟩

/-! ## Several paths -/

/-- The components at the front of `cs` that several paths share with it. -/
def sharedWith (cs : List Text) (texts : List Text) : List Text :=
  texts.foldl (fun cs s ↦ sharedFront cs (components s)) cs

theorem prefix_sharedWith_iff {ds cs : List Text} {texts : List Text} :
    ds <+: sharedWith cs texts ↔ ds <+: cs ∧ ∀ s ∈ texts, ds <+: components s := by
  unfold sharedWith
  induction texts generalizing cs with
  | nil => simp
  | cons s texts ih => rw [List.foldl_cons, ih, prefix_sharedFront_iff, List.forall_mem_cons, and_assoc]

theorem sharedWith_nil (texts : List Text) : sharedWith [] texts = [] := by
  have hprefix : sharedWith [] texts <+: [] := (prefix_sharedWith_iff.1 List.prefix_rfl).1
  exact List.prefix_nil.1 hprefix

/-- Whether `cs` are the longest components that all of several paths start with. -/
structure IsLongestShared (texts : List Text) (cs : List Text) : Prop where
  shared : ∀ s ∈ texts, cs <+: components s
  longest : ∀ ds : List Text, (∀ s ∈ texts, ds <+: components s) → ds <+: cs

theorem isLongestShared_sharedWith (first : Text) (others : List Text) :
    IsLongestShared (first :: others) (sharedWith (components first) others) where
  shared := by
    rw [List.forall_mem_cons]
    exact prefix_sharedWith_iff.1 List.prefix_rfl
  longest := by
    intro ds hds
    exact prefix_sharedWith_iff.2 (List.forall_mem_cons.1 hds)

/-- Only which paths there are matters, not their order, nor how often each is there. -/
theorem IsLongestShared.eq {texts texts' : List Text} {cs cs' : List Text}
    (h : IsLongestShared texts cs) (h' : IsLongestShared texts' cs')
    (hsame : ∀ s, s ∈ texts ↔ s ∈ texts') : cs = cs' := by
  have hle : cs <+: cs' := h'.longest cs fun s hs ↦ h.shared s ((hsame s).2 hs)
  have hge : cs' <+: cs := h.longest cs' fun s hs ↦ h'.shared s ((hsame s).1 hs)
  exact hle.eq_of_length_le hge.length_le

/-- Going through paths one by one, what is left shares its components with all of them. -/
theorem foldlM_commonAncestor? (p : Path) (s : Text) (texts : List Text) :
    (s :: texts).foldlM (fun p s ↦ commonAncestor? p.text s) p =
      ofShared? (sharedWith (components p.text) (s :: texts)) := by
  induction texts generalizing p s with
  | nil => simp [commonAncestor?_eq, sharedWith]
  | cons s' texts ih =>
    rw [List.foldlM_cons, commonAncestor?_eq, sharedWith, List.foldl_cons]
    by_cases hnil : sharedFront (components p.text) (components s) = []
    · rw [hnil]
      exact (congrArg ofShared? (sharedWith_nil (s' :: texts))).symm
    · -- What is shared with a written path is not changed by writing it again.
      have hprefix := sharedFront_prefix_left (components p.text) (components s)
      have hagain := components_text_ofComponents hprefix hnil
      rw [dropDot_prefix_eq_self (dropDot_components_text p) hprefix] at hagain
      have hrest := ih (ofComponents (sharedFront (components p.text) (components s))) s'
      rw [hagain] at hrest
      rw [ofShared?_of_ne_nil hnil]
      exact hrest

/-- The first of several paths is read, which drops a `.` in front of it. -/
theorem commonAncestorOf?_eq {first : Text} (hfirst : first ≠ []) (second : Text)
    (rest : List Text) : commonAncestorOf? (first :: second :: rest) =
      ofShared? (sharedWith (dropDot (components first)) (second :: rest)) := by
  rw [← components_text_ofText hfirst, ← foldlM_commonAncestor?]
  rfl

/-- Whether reading the first of several paths drops a `.` that decides about their common ancestor:
the others all start with that `.`, or all with the component behind it. -/
def LosesDot (first : Text) (others : List Text) : Prop :=
  (components first).head? = some ['.'] ∧ ∃ c ∈ (components first)[1]?,
    (∀ s ∈ others, (components s).head? = some ['.']) ∨ ∀ s ∈ others, (components s).head? = some c

instance (first : Text) (others : List Text) : Decidable (LosesDot first others) :=
  inferInstanceAs (Decidable (_ ∧ ∃ c ∈ (components first)[1]?, _))

theorem sharedWith_ne_nil_iff {c : Text} {cs : List Text} {others : List Text} :
    sharedWith (c :: cs) others ≠ [] ↔ ∀ s ∈ others, (components s).head? = some c := by
  have hhead : ∀ ds : List Text, [c] <+: ds ↔ ds.head? = some c := by
    intro ds
    rw [List.head?_eq_some_iff]
    exact exists_congr fun rest ↦ eq_comm
  have hprefix : sharedWith (c :: cs) others <+: c :: cs :=
    (prefix_sharedWith_iff.1 List.prefix_rfl).1
  have hstart : sharedWith (c :: cs) others ≠ [] ↔ [c] <+: sharedWith (c :: cs) others := by
    rcases List.prefix_cons_iff.1 hprefix with hnil | ⟨rest, hcons, -⟩
    · simp [hnil]
    · simp [hcons]
  rw [hstart, prefix_sharedWith_iff]
  simp [hhead]

/-- Only the first component of a text can be a `.`. -/
theorem ne_dot_of_components_eq {s c c' : Text} {cs : List Text}
    (h : components s = c :: c' :: cs) : c' ≠ ['.'] := by
  have hsegment : ∀ {w : Text} {segments : List Segment}, w ∈ segments.map Segment.text →
      w ≠ ['.'] := by
    intro w segments hw
    obtain ⟨segment, -, rfl⟩ := List.mem_map.1 hw
    exact segment.text_ne_dot
  rw [components_eq] at h
  rcases lead_cases s with ⟨-, hlead⟩ | ⟨-, hlead | hlead⟩
  all_goals rw [hlead] at h
  · obtain ⟨-, h⟩ := List.cons.inj h
    exact hsegment (h ▸ List.mem_cons_self)
  · obtain ⟨-, h⟩ := List.cons.inj h
    exact hsegment (h ▸ List.mem_cons_self)
  · exact hsegment (h ▸ List.mem_cons_of_mem c List.mem_cons_self)

/-- Dropping the `.` of the first path changes the common ancestor exactly if it decides about it. -/
theorem ofShared?_dropDot_iff (first : Text) {others : List Text} (hothers : others ≠ []) :
    ofShared? (sharedWith (dropDot (components first)) others) =
        ofShared? (sharedWith (components first) others) ↔ ¬ LosesDot first others := by
  unfold LosesDot
  match hcomponents : components first with
  | [] => simp [dropDot]
  | [c] => simp [dropDot]
  | c :: c' :: cs =>
    by_cases hc : c = ['.']
    · subst hc
      have hkept : sharedWith (['.'] :: c' :: cs) others ≠ [] ↔
          ∀ s ∈ others, (components s).head? = some ['.'] := sharedWith_ne_nil_iff
      have hdropped : sharedWith (c' :: cs) others ≠ [] ↔
          ∀ s ∈ others, (components s).head? = some c' := sharedWith_ne_nil_iff
      have hnotBoth : ¬ (sharedWith (c' :: cs) others ≠ [] ∧
          sharedWith (['.'] :: c' :: cs) others ≠ []) := by
        rw [hkept, hdropped]
        rintro ⟨hnext, hdot⟩
        obtain ⟨s, others, rfl⟩ := List.exists_cons_of_ne_nil hothers
        have heq := (hnext s List.mem_cons_self).symm.trans (hdot s List.mem_cons_self)
        exact ne_dot_of_components_eq hcomponents (Option.some.inj heq)
      have hloses := not_congr (or_congr hkept hdropped)
      rw [show dropDot (['.'] :: c' :: cs) = c' :: cs from rfl, ofShared?_eq_iff hnotBoth, hloses]
      simp
    · rw [dropDot_of_head?_ne (by simpa using hc)]
      simp [hc]

/-- Of several paths, given in whatever order and however often each, the common ancestor is the path
of the longest components that all of them start with, or missing if there are none, exactly if reading
the first one drops no `.` that decides about it. For two paths on their own, this is always so. -/
theorem commonAncestorOf?_eq_longest_iff {texts : List Text} (hne : texts ≠ [])
    (hnonempty : ∀ s ∈ texts, s ≠ []) :
    ∃ cs, IsLongestShared texts cs ∧
      (∀ a b, (∀ s, s ∈ [a, b] ↔ s ∈ texts) → commonAncestor? a b = ofShared? cs) ∧
      ∀ first second rest, (∀ s, s ∈ first :: second :: rest ↔ s ∈ texts) →
        (commonAncestorOf? (first :: second :: rest) = ofShared? cs ↔
          ¬ LosesDot first (second :: rest)) := by
  obtain ⟨s, others, rfl⟩ := List.exists_cons_of_ne_nil hne
  have hlongest := isLongestShared_sharedWith s others
  refine ⟨_, hlongest, ?_, ?_⟩
  · intro a b hsame
    rw [commonAncestor?_eq, ← (isLongestShared_sharedWith a [b]).eq hlongest hsame]
    rfl
  · intro first second rest hsame
    have hfirst : first ≠ [] := hnonempty first ((hsame first).1 List.mem_cons_self)
    rw [commonAncestorOf?_eq hfirst,
      ← (isLongestShared_sharedWith first (second :: rest)).eq hlongest hsame]
    exact ofShared?_dropDot_iff first (List.cons_ne_nil second rest)

/-- Neither a path that is given twice nor the order of the paths changes their common ancestor. -/
theorem commonAncestorOf?_repeated :
    ¬ LosesDot (.of "/foo/./b") [.of "/foo/a", .of "/foo/./b"] ∧
      commonAncestorOf? [.of "/foo/./b", .of "/foo/a", .of "/foo/./b"] =
        some (ofText (.of "/foo")) ∧
      ∃ cs, IsLongestShared [.of "/foo/a", .of "/foo/./b"] cs ∧
        commonAncestorOf? [.of "/foo/./b", .of "/foo/a", .of "/foo/./b"] = ofShared? cs := by
  have hkeeps : ¬ LosesDot (.of "/foo/./b") [.of "/foo/a", .of "/foo/./b"] := by decide
  have hne : ([.of "/foo/a", .of "/foo/./b"] : List Text) ≠ [] := by decide
  have hnonempty : ∀ s ∈ ([.of "/foo/a", .of "/foo/./b"] : List Text), s ≠ [] := by decide
  obtain ⟨cs, hlongest, -, hall⟩ := commonAncestorOf?_eq_longest_iff hne hnonempty
  refine ⟨hkeeps, by decide, cs, hlongest, (hall _ _ _ ?_).2 hkeeps⟩
  intro s
  simp only [List.mem_cons, List.not_mem_nil, or_false]
  tauto

/-- Two paths that start with a `.` and the same name have no common ancestor as a list, though they
share the `.` and the name, and have one as a pair; and with the `.` in front of one path alone, the
order of the two decides. -/
theorem commonAncestorOf?_dottedSiblings :
    IsLongestShared [.of "./a/b", .of "./a/c"] [.of ".", .of "a"] ∧
      commonAncestorOf? [.of "./a/b", .of "./a/c"] = none ∧
      commonAncestor? (.of "./a/b") (.of "./a/c") = some (ofText (.of "a")) ∧
      commonAncestorOf? [.of "./a", .of "a"] = some (ofText (.of "a")) ∧
      commonAncestorOf? [.of "a", .of "./a"] = none := by
  have hlongest := isLongestShared_sharedWith (.of "./a/b") [.of "./a/c"]
  rw [show sharedWith (components (.of "./a/b")) [.of "./a/c"] = [.of ".", .of "a"] by decide]
    at hlongest
  exact ⟨hlongest, by decide, by decide, by decide, by decide⟩

end SolidityImports.Path
