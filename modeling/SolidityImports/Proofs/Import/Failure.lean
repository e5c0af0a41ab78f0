import SolidityImports.Proofs.Import.FirstExisting

/-! # How resolving fails

An import that is found nowhere should be reported as such, with the places that were tried. The
hint to a name in another case is looked for after that, in the directories of these places, and a
directory whose path holds a NUL character cannot be listed. Main statement: resolving answers, with
a resolution or the report, exactly if this search does not come to such a directory. -/

namespace SolidityImports

/-- Whether resolving an import has led to an answer: a resolution, or the report that the import was
found nowhere. -/
def IsAnswer : Except Error Resolution → Prop
  | .ok _ | .error (.importNotFound ..) => True
  | .error _ => False

instance (run : Except Error Resolution) : Decidable (IsAnswer run) := by
  unfold IsAnswer
  split <;> infer_instance

namespace FileTree

variable {t : FileTree} {r : Resolver} {source : Path} {importPath : Text} {root? : Option Path}

/-! ## The search for a hint -/

/-- Whether the search for a hint beside one place after the other comes to a directory whose path
holds a NUL character: there is no hint beside any place before. -/
def HintSearchMeetsNul (t : FileTree) (places : List Path) : Prop :=
  ∃ before p after, places = before ++ p :: after ∧
    (∀ q ∈ before, t.caseVariant? q = .ok none) ∧ ¬ p.parent.NulFree

theorem hintSearchMeetsNul_cons {p : Path} {rest : List Path} :
    t.HintSearchMeetsNul (p :: rest) ↔
      ¬ p.parent.NulFree ∨ t.caseVariant? p = .ok none ∧ t.HintSearchMeetsNul rest :=
  exists_split_cons_iff

theorem firstHint_eq_nul_iff {attempts : List Attempt} :
    notFound.firstHint t attempts = .error .nulInPath ↔
      t.HintSearchMeetsNul (attempts.map (·.candidate)) := by
  induction attempts with
  | nil =>
    constructor
    · intro h
      cases h
    · rintro ⟨before, p, after, hsplit, -⟩
      simp at hsplit
  | cons a rest ih =>
    rw [List.map_cons, hintSearchMeetsNul_cons, ← caseVariant?_eq_nul_iff (t := t),
      notFound.firstHint]
    cases hvariant : t.caseVariant? a.candidate with
    | error e =>
      obtain ⟨rfl, -⟩ := caseVariant?_eq_error hvariant
      simp
    | ok found =>
      cases found with
      | none => simpa using ih
      | some hint => simp

/-! ## Runs -/

/-- A run fails for a NUL character exactly if no candidate exists and the search for a hint meets
that character. -/
theorem resolveImport_eq_nul_iff (ht : t.NulFree) :
    t.resolveImport r source importPath root? = .error .nulInPath ↔
      t.firstExisting (r.candidates source importPath root?) = none ∧
        t.HintSearchMeetsNul ((r.candidates source importPath root?).map (·.path)) := by
  cases hfirst : t.firstExisting (r.candidates source importPath root?) with
  | some c => simp [resolveImport_of_firstExisting ht hfirst]
  | none =>
    rw [resolveImport_eq, hfirst]
    have hplaces : (r.candidates source importPath root?).map (·.path) =
        ((r.candidates source importPath root?).map (·.attempt)).map (·.candidate) := by
      rw [List.map_map]
      rfl
    rw [hplaces, ← firstHint_eq_nul_iff]
    simp only [notFound, true_and]
    cases notFound.firstHint t ((r.candidates source importPath root?).map (·.attempt)) with
    | error e => simp
    | ok hint => simp

theorem isAnswer_resolveImport_iff :
    IsAnswer (t.resolveImport r source importPath root?) ↔
      t.resolveImport r source importPath root? ≠ .error .nulInPath := by
  rcases resolveImport_cases t r source importPath root? with ⟨c, -, canonical, hrun⟩ | ⟨hint, hrun⟩ |
    hrun
  · simp [hrun, IsAnswer]
  · simp [hrun, IsAnswer]
  · simp [hrun, IsAnswer]

theorem exists_resolvePath_iff :
    (∃ found?, t.resolvePath r source importPath root? = .ok found?) ↔
      t.resolveImport r source importPath root? ≠ .error .nulInPath := by
  unfold resolvePath
  rcases resolveImport_cases t r source importPath root? with ⟨c, -, canonical, hrun⟩ | ⟨hint, hrun⟩ |
    hrun
  · simp [hrun]
  · simp [hrun]
  · simp [hrun]

/-- Resolving an import answers, and its path is found or known to be missing, exactly if a candidate
exists or the search for a hint beside the candidates meets no NUL character. -/
theorem answers_iff_hint_search_meets_no_nul (ht : t.NulFree) :
    (IsAnswer (t.resolveImport r source importPath root?) ↔
        (t.firstExisting (r.candidates source importPath root?) = none →
          ¬ t.HintSearchMeetsNul ((r.candidates source importPath root?).map (·.path)))) ∧
      ((∃ found?, t.resolvePath r source importPath root? = .ok found?) ↔
        (t.firstExisting (r.candidates source importPath root?) = none →
          ¬ t.HintSearchMeetsNul ((r.candidates source importPath root?).map (·.path)))) := by
  rw [isAnswer_resolveImport_iff, exists_resolvePath_iff, ne_eq, resolveImport_eq_nul_iff ht, not_and]
  exact ⟨Iff.rfl, Iff.rfl⟩

/-- A NUL character in the name of an import alone is no obstacle. -/
theorem isAnswer_nulInName :
    linkedLibrary.NulFree ∧
      IsAnswer (linkedLibrary.resolveImport ⟨none, [.ofText (.of "lib")]⟩ (.ofText (.of "Main.sol"))
        (.of "./A\x00.sol") none) := by
  have ht : linkedLibrary.NulFree := by decide
  refine ⟨ht, (answers_iff_hint_search_meets_no_nul ht).1.2 ?_⟩
  rintro - ⟨before, p, after, hsplit, -, hnul⟩
  have hplaces : ∀ q ∈ ((⟨none, [.ofText (.of "lib")]⟩ : Resolver).candidates
      (.ofText (.of "Main.sol")) (.of "./A\x00.sol") none).map (·.path), q.parent.NulFree := by
    decide
  rw [hsplit] at hplaces
  exact hnul (hplaces p (List.mem_append_right before List.mem_cons_self))

/-- A NUL character in the directory of an import keeps it from being reported as missing. -/
theorem not_isAnswer_nulInDirectory :
    linkedLibrary.NulFree ∧
      ¬ IsAnswer (linkedLibrary.resolveImport ⟨none, [.ofText (.of "lib")]⟩
        (.ofText (.of "Main.sol")) (.of "./a\x00b/C.sol") none) ∧
      ∀ found?, linkedLibrary.resolvePath ⟨none, [.ofText (.of "lib")]⟩ (.ofText (.of "Main.sol"))
        (.of "./a\x00b/C.sol") none ≠ .ok found? := by
  have hrun : ¬ IsAnswer (linkedLibrary.resolveImport ⟨none, [.ofText (.of "lib")]⟩
      (.ofText (.of "Main.sol")) (.of "./a\x00b/C.sol") none) := by
    decide +kernel
  refine ⟨by decide, hrun, ?_⟩
  intro found? hfound
  exact hrun (isAnswer_resolveImport_iff.2 (exists_resolvePath_iff.1 ⟨found?, hfound⟩))

end FileTree

end SolidityImports
