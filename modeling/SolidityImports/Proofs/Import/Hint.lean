import SolidityImports.Proofs.FileTree.Stat
import SolidityImports.Proofs.Import.FirstExisting
import SolidityImports.Proofs.Text.Encoding

/-! # Hints to names in another case

Beside a missing file there may be one whose name differs in the case of ASCII letters only. Main
statement: of all these names the smallest one is found; and an import that is found nowhere is
reported with the first such file beside one of the places that were tried. -/

namespace SolidityImports

namespace FileTree

variable {t : FileTree} {missing p q : Path} {n m : FileName} {dir : Location} {e : Entry}

/-! ## The names beside a missing file -/

/-- Whether a name beside a missing file is that of a file, and differs from the missing one in the
case of ASCII letters only. -/
structure IsCaseVariant (t : FileTree) (missing : Path) (n : FileName) : Prop where
  ne : n.text ≠ missing.lastText
  /-- The bytes of both names agree in lowercase. -/
  lower : n.text.utf8.lower = missing.lastText.utf8.lower
  /-- The name is that of a file in the directory, or of a link there that leads to a file. -/
  leads : ∃ dir, t.stat missing.parent.text = .ok (dir, .directory) ∧
    ((∃ content, t.lookup (dir ++ [n]) = some (.file content)) ∨
      (∃ target, t.lookup (dir ++ [n]) = some (.link target)) ∧
        t.leadsToFile (missing.parent.child n).text)

theorem isFileAt_iff : t.isFileAt p e ↔
    (∃ content, e = .file content) ∨ (∃ target, e = .link target) ∧ t.leadsToFile p.text := by
  cases e <;> simp [isFileAt]

theorem differsInCase_iff {a b : Text} :
    differsInCase a b ↔ a ≠ b ∧ a.utf8.lower = b.utf8.lower := by
  simp [differsInCase, Text.map_toLower_eq_iff]

/-- In a directory that can be listed, the search looks for the names in another case. -/
theorem isCaseVariant_iff (hdir : t.stat missing.parent.text = .ok (dir, .directory)) :
    t.IsCaseVariant missing n ↔ ∃ e, (n, e) ∈ t.children dir ∧
      differsInCase n.text missing.lastText ∧ t.isFileAt (missing.parent.child n) e := by
  simp only [mem_children_iff, differsInCase_iff, isFileAt_iff]
  constructor
  · rintro ⟨hne, hlower, dir', hdir', hfile⟩
    obtain rfl := eq_of_stat_directory hdir hdir'
    rcases hfile with ⟨content, hfile⟩ | ⟨⟨target, hlink⟩, hfile⟩
    · exact ⟨_, hfile, ⟨hne, hlower⟩, .inl ⟨content, rfl⟩⟩
    · exact ⟨_, hlink, ⟨hne, hlower⟩, .inr ⟨⟨target, rfl⟩, hfile⟩⟩
  · rintro ⟨e, hfound, ⟨hne, hlower⟩, ⟨content, rfl⟩ | ⟨⟨target, rfl⟩, hfile⟩⟩
    · exact ⟨hne, hlower, dir, hdir, .inl ⟨content, hfound⟩⟩
    · exact ⟨hne, hlower, dir, hdir, .inr ⟨⟨target, hfound⟩, hfile⟩⟩

/-! ## The name that is found -/

/-- The search has found the smallest of the names in another case. -/
theorem exists_isCaseVariant_of_caseVariant? (h : t.caseVariant? missing = .ok (some q)) :
    ∃ n, t.IsCaseVariant missing n ∧ (∀ m, t.IsCaseVariant missing m → n.text ≤ m.text) ∧
      q = missing.parent.child n := by
  unfold caseVariant? at h
  split at h
  · cases h
  split at h
  · cases h
  · cases h
  rename_i entries hlist
  obtain ⟨dir, hdir, rfl⟩ := list_eq_ok_iff.1 hlist
  obtain ⟨front, ⟨n, e⟩, rest, hsplit, hfound, hfront⟩ :=
    List.findSome?_eq_some_iff.1 (Except.ok.inj h)
  simp only [Option.ite_none_right_eq_some, Option.some.injEq, Bool.and_eq_true] at hfound
  obtain ⟨hn, rfl⟩ := hfound
  refine ⟨n, (isCaseVariant_iff hdir).2 ⟨e, hsplit ▸ by simp, hn⟩, fun m hm ↦ ?_, rfl⟩
  obtain ⟨e', hmem, hm⟩ := (isCaseVariant_iff hdir).1 hm
  have hsorted := t.pairwise_children dir
  rw [hsplit] at hmem hsorted
  rcases List.mem_append.1 hmem with hmem | hmem
  · have hnone := hfront _ hmem
    simp [hm] at hnone
  · rcases List.mem_cons.1 hmem with heq | hmem
    · cases heq
      exact le_refl _
    · exact List.rel_of_pairwise_cons (List.pairwise_append.1 hsorted).2.1 hmem

/-- The search finds nothing if there is no name to look for, no directory to look in, or no such
name in it. -/
theorem caseVariant?_eq_none_iff (hp : missing.NulFree) : t.caseVariant? missing = .ok none ↔
    missing.lastText = [] ∨ (∀ dir, t.stat missing.parent.text ≠ .ok (dir, .directory)) ∨
      ∀ n, ¬ t.IsCaseVariant missing n := by
  rw [Path.lastText_eq_nil_iff, caseVariant?]
  by_cases hsegments : missing.segments = []
  · simp [hsegments]
  rw [if_neg hsegments]
  cases hlist : t.list missing.parent.text with
  | error f =>
    have hdir : ∀ dir, t.stat missing.parent.text ≠ .ok (dir, .directory) := by
      intro dir hdir
      rw [list_eq_ok_iff.2 ⟨dir, hdir, rfl⟩] at hlist
      cases hlist
    have hnul : f ≠ .nul := by
      rintro rfl
      exact Path.nulFree_iff.1 hp.parent (list_eq_nul_iff.1 hlist)
    refine iff_of_true ?_ (.inr (.inl hdir))
    cases f with
    | nul => exact absurd rfl hnul
    | _ => rfl
  | ok entries =>
    obtain ⟨dir, hdir, rfl⟩ := list_eq_ok_iff.1 hlist
    have hlisted : ¬ ∀ dir, t.stat missing.parent.text ≠ .ok (dir, .directory) :=
      fun h ↦ h dir hdir
    simp only [Except.ok.injEq, List.findSome?_eq_none_iff, hsegments, hlisted, false_or,
      isCaseVariant_iff hdir, not_exists, not_and, ite_eq_right_iff, reduceCtorEq, imp_false,
      Bool.and_eq_true, Prod.forall]

theorem IsCaseVariant.lastText_ne_nil (h : t.IsCaseVariant missing n) : missing.lastText ≠ [] := by
  intro hnil
  have hlower := h.lower
  rw [hnil, ← Text.map_toLower_eq_iff, List.map_nil, List.map_eq_nil_iff] at hlower
  exact n.valid.1 hlower

theorem caseVariant?_eq_some_iff (hp : missing.NulFree) : t.caseVariant? missing = .ok (some q) ↔
    ∃ n, t.IsCaseVariant missing n ∧ (∀ m, t.IsCaseVariant missing m → n.text ≤ m.text) ∧
      q = missing.parent.child n := by
  refine ⟨exists_isCaseVariant_of_caseVariant?, ?_⟩
  rintro ⟨n, hn, hleast, rfl⟩
  obtain ⟨dir, hdir, -⟩ := hn.leads
  cases hfound : t.hint? missing with
  | none =>
    have hnone : t.caseVariant? missing = .ok none := by rw [caseVariant?_eq t hp, hfound]
    rcases (caseVariant?_eq_none_iff hp).1 hnone with hname | hlist | hvariant
    · exact absurd hname hn.lastText_ne_nil
    · exact absurd hdir (hlist dir)
    · exact absurd hn (hvariant n)
  | some q =>
    have hsome : t.caseVariant? missing = .ok (some q) := by rw [caseVariant?_eq t hp, hfound]
    obtain ⟨m, hm, hleast', rfl⟩ := exists_isCaseVariant_of_caseVariant? hsome
    have heq : n.text = m.text := le_antisymm (hleast m hm) (hleast' n hn)
    rw [hsome, FileName.text_injective heq]

/-! ## The hint of a failing import -/

variable {r : Resolver} {source : Path} {importPath : Text} {root? : Option Path} {err : Error}

/-- An import that fails is found nowhere, and its hint is the first one beside an attempt. -/
theorem exists_findSome?_hint?_of_resolveImport (ht : t.NulFree) (hr : r.NulFree)
    (hsource : source.NulFree) (himport : '\x00' ∉ importPath) (hroot : ∀ p ∈ root?, p.NulFree)
    (h : t.resolveImport r source importPath root? = .error err) :
    ∃ attempts : List Attempt, (∀ a ∈ attempts, a.candidate.NulFree) ∧
      err = .importNotFound importPath source attempts
        (attempts.findSome? fun a ↦ t.hint? a.candidate) := by
  have hattempts : ∀ a ∈ (r.candidates source importPath root?).map (·.attempt),
      a.candidate.NulFree := by
    intro a ha
    obtain ⟨c, hc, rfl⟩ := List.mem_map.1 ha
    exact Resolver.candidates_nulFree hr hsource himport hroot c hc
  refine ⟨_, hattempts, ?_⟩
  cases hfirst : t.firstExisting (r.candidates source importPath root?) with
  | some c => simp [resolveImport_of_firstExisting ht hfirst] at h
  | none =>
    rw [resolveImport_eq, hfirst] at h
    rw [← notFound_eq importPath source hattempts]
    exact (Except.error.inj h).symm

/-- Of the names in another case beside a missing file the smallest one is found, or none if there is
none; and an import that is found nowhere comes with what is found beside the first attempt that has
something beside it. -/
theorem caseVariant?_least_hint_first (ht : t.NulFree) :
    (∀ p : Path, p.NulFree → ∃ found?, t.caseVariant? p = .ok found? ∧
      (∀ q, found? = some q ↔ ∃ n, t.IsCaseVariant p n ∧
        (∀ m, t.IsCaseVariant p m → n.text ≤ m.text) ∧ q = p.parent.child n) ∧
      (found? = none ↔ p.lastText = [] ∨
        (∀ dir, t.stat p.parent.text ≠ .ok (dir, .directory)) ∨ ∀ n, ¬ t.IsCaseVariant p n)) ∧
    ∀ {r : Resolver} {source : Path} {importPath : Text} {root? : Option Path} {err : Error},
      r.NulFree → source.NulFree → '\x00' ∉ importPath → (∀ p ∈ root?, p.NulFree) →
      t.resolveImport r source importPath root? = .error err →
      ∃ attempts hint?, err = .importNotFound importPath source attempts hint? ∧
        (∀ q, hint? = some q ↔ ∃ front a rest, attempts = front ++ a :: rest ∧
          t.caseVariant? a.candidate = .ok (some q) ∧
          ∀ b ∈ front, t.caseVariant? b.candidate = .ok none) ∧
        (hint? = none ↔ ∀ a ∈ attempts, t.caseVariant? a.candidate = .ok none) := by
  constructor
  · intro p hp
    have hsome : ∀ q, t.caseVariant? p = .ok (some q) ↔ _ := fun q ↦ caseVariant?_eq_some_iff hp
    have hnone : t.caseVariant? p = .ok none ↔ _ := caseVariant?_eq_none_iff hp
    simp only [caseVariant?_eq t hp, Except.ok.injEq] at hsome hnone
    exact ⟨t.hint? p, caseVariant?_eq t hp, hsome, hnone⟩
  · intro r source importPath root? err hr hsource himport hroot h
    obtain ⟨attempts, hfree, rfl⟩ :=
      exists_findSome?_hint?_of_resolveImport ht hr hsource himport hroot h
    have hvariant : ∀ a ∈ attempts, ∀ found?,
        t.caseVariant? a.candidate = .ok found? ↔ t.hint? a.candidate = found? := by
      intro a ha found?
      rw [caseVariant?_eq t (hfree a ha), Except.ok.injEq]
    refine ⟨attempts, _, rfl, fun q ↦ ?_, ?_⟩
    · rw [List.findSome?_eq_some_iff]
      constructor
      · rintro ⟨front, a, rest, rfl, ha, hfront⟩
        exact ⟨front, a, rest, rfl, (hvariant a (by simp) _).2 ha,
          fun b hb ↦ (hvariant b (by simp [hb]) _).2 (hfront b hb)⟩
      · rintro ⟨front, a, rest, rfl, ha, hfront⟩
        exact ⟨front, a, rest, rfl, (hvariant a (by simp) _).1 ha,
          fun b hb ↦ (hvariant b (by simp [hb]) _).1 (hfront b hb)⟩
    · rw [List.findSome?_eq_none_iff]
      exact forall₂_congr fun a ha ↦ ((hvariant a ha none).symm)

/-- Four names in other cases: of a directory, of a link to nothing, of a link to a file, and of a
file. -/
def tokenNames : FileTree where
  entries := [([⟨.of "TOKEN.sol", by decide⟩], .directory),
    ([⟨.of "ToKen.sol", by decide⟩], .link (.of "gone")),
    ([⟨.of "Token.sol", by decide⟩], .link (.of "tOKEN.sol")),
    ([⟨.of "tOKEN.sol", by decide⟩], .file [])]
  distinct := by decide
  workDir := []

/-- One of these names is found, and is the hint to the missing file. -/
theorem caseVariant?_tokenNames :
    tokenNames.NulFree ∧
      (∃ n, tokenNames.IsCaseVariant (.ofText (.of "token.sol")) n ∧
        (∀ m, tokenNames.IsCaseVariant (.ofText (.of "token.sol")) m → n.text ≤ m.text) ∧
        tokenNames.caseVariant? (.ofText (.of "token.sol")) =
          .ok (some ((Path.ofText (.of "token.sol")).parent.child n))) ∧
      ∃ attempts q, tokenNames.resolveImport ⟨none, []⟩ (.ofText (.of "Main.sol"))
        (.of "./token.sol") none = .error (.importNotFound (.of "./token.sol")
          (.ofText (.of "Main.sol")) attempts (some q)) := by
  have ht : tokenNames.NulFree := by decide
  have hvariant : tokenNames.IsCaseVariant (.ofText (.of "token.sol"))
      ⟨.of "Token.sol", by decide⟩ :=
    ⟨by decide, by decide +kernel, [], rfl, .inr ⟨⟨.of "tOKEN.sol", rfl⟩, by decide +kernel⟩⟩
  obtain ⟨found?, hfound, hsome, hnone⟩ :=
    (caseVariant?_least_hint_first ht).1 (.ofText (.of "token.sol")) (by decide)
  obtain ⟨q, rfl⟩ : ∃ q, found? = some q := by
    refine Option.ne_none_iff_exists'.1 fun hnothing ↦ ?_
    obtain ⟨dir, hdir, -⟩ := hvariant.leads
    rcases hnone.1 hnothing with hname | hlist | hnovariant
    · exact hvariant.lastText_ne_nil hname
    · exact hlist dir hdir
    · exact hnovariant _ hvariant
  obtain ⟨n, hn, hleast, rfl⟩ := (hsome q).1 rfl
  refine ⟨ht, ⟨n, hn, hleast, hfound⟩, ?_⟩
  have hfirst : tokenNames.firstExisting (Resolver.candidates ⟨none, []⟩ (.ofText (.of "Main.sol"))
      (.of "./token.sol") none) = none := by
    decide +kernel
  have hattempts : (Resolver.candidates ⟨none, []⟩ (.ofText (.of "Main.sol")) (.of "./token.sol")
      none).map (·.attempt) = [⟨.of "relative", .ofText (.of "token.sol")⟩] := by
    decide +kernel
  have hrun := resolveImport_eq tokenNames ⟨none, []⟩ (.ofText (.of "Main.sol"))
    (.of "./token.sol") none
  rw [hfirst, hattempts] at hrun
  dsimp only at hrun
  rw [notFound_eq _ _ (by decide)] at hrun
  obtain ⟨attempts, hint?, herr, -, hhint⟩ := (caseVariant?_least_hint_first ht).2 (by decide)
    (by decide) (by decide) (by decide) hrun
  obtain ⟨-, -, rfl, hhint?⟩ := Error.importNotFound.inj herr
  rw [hhint?] at hrun
  obtain ⟨q, rfl⟩ : ∃ q, hint? = some q := by
    refine Option.ne_none_iff_exists'.1 fun hnothing ↦ ?_
    have hbeside := hhint.1 hnothing _ (List.mem_singleton.2 rfl)
    cases hfound.symm.trans hbeside
  exact ⟨_, q, hrun⟩

end FileTree

end SolidityImports
