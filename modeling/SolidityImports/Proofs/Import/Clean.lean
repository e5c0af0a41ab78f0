import SolidityImports.Proofs.Import.FirstExisting
import SolidityImports.Proofs.Path.Clean

/-! # Clean resolutions

The path that an import resolves to should be clean. Three of the tiers clean what they look for; the
library tier takes a root and an import as they are written. Main statement: a library import resolves
to a clean path exactly if its own path is clean and, unless it starts at a root, so is the library root
that it was found below; every other import always does. -/

namespace SolidityImports

/-! ## Places below library roots -/

theorem mem_libraryCandidates_iff {roots : List Path} {importPath : Text} {p : Path} :
    p ∈ libraryCandidates roots importPath ↔
      ∃ root ∈ roots, p ∈ libraryCandidates [root] importPath := by
  unfold libraryCandidates
  split
  · simp
  · cases importSegments importPath with
    | nil => simp
    | cons first rest => simp only [List.mem_flatMap, List.flatMap_singleton]

/-- An import that is looked for below library roots is relative and starts with a name. -/
theorem exists_ofText_eq {importPath first : Text} {rest : List Text}
    (hrooted : isRootedImport importPath = false) (hrelative : isRelativeImport importPath = false)
    (hsegments : importSegments importPath = first :: rest) :
    ∃ n : FileName, first = n.text ∧
      Path.ofText importPath = ⟨.relative, .name n :: rest.filterMap Segment.ofText?⟩ := by
  have hfirst : first ∈ importSegments importPath := hsegments ▸ List.mem_cons_self
  have hdots : isDots first = false := by
    simpa [isRelativeImport, hrooted, hsegments] using hrelative
  obtain ⟨n, rfl⟩ : ∃ n : FileName, first = n.text := by
    rcases Segment.eq_dot_or_exists_text (importSegments_slashFree hfirst) with rfl | ⟨s, rfl⟩
    · contradiction
    · cases s with
      | up => contradiction
      | name n => exact ⟨n, rfl⟩
  have hanchor : (Path.ofText importPath).anchor = .relative := by
    simpa [isRootedImport, Path.isRooted] using hrooted
  have hread : Segment.listOfText importPath = .name n :: rest.filterMap Segment.ofText? := by
    have hname : Segment.ofText? n.text = some (.name n) := Segment.ofText?_text (.name n)
    rw [Segment.listOfText_eq, hsegments, List.filterMap_cons, hname]
  exact ⟨n, rfl, Path.ext hanchor hread⟩

/-- Below a library root, the segments of an import follow those of the root, with or without the
directory of the sources behind the first one. -/
theorem exists_eq_of_mem_libraryCandidates {root p : Path} {importPath : Text}
    (h : p ∈ libraryCandidates [root] importPath) :
    ∃ n segments, Path.ofText importPath = ⟨.relative, .name n :: segments⟩ ∧
      (p = ⟨root.anchor, root.segments ++ .name n :: segments⟩ ∨
        p = ⟨root.anchor, root.segments ++ .name n :: (sourceDirectory.segments ++ segments)⟩) := by
  unfold libraryCandidates at h
  split at h
  · contradiction
  rename_i hplain
  obtain ⟨hrooted, hrelative⟩ : isRootedImport importPath = false ∧
      isRelativeImport importPath = false := by simpa using hplain
  split at h
  · contradiction
  rename_i first rest hsegments
  obtain ⟨n, rfl, hread⟩ := exists_ofText_eq hrooted hrelative hsegments
  refine ⟨n, _, hread, ?_⟩
  rw [List.flatMap_singleton, List.mem_pair] at h
  rcases h with rfl | rfl
  · left
    rw [hread, Path.join_of_relative root rfl]
  · right
    have hslash : ∀ s ∈ rest, '/' ∉ s := by
      intro s hs
      have hwritten : s ∈ importSegments importPath := hsegments ▸ List.mem_cons_of_mem _ hs
      exact (importSegments_slashFree hwritten).2
    have hhead : ∀ s ∈ rest, s.head? ≠ some '/' := by
      intro s hs hhead
      exact hslash s hs (List.mem_of_mem_head? hhead)
    have hrest : rest.flatMap Segment.listOfText = rest.filterMap Segment.ofText? := by
      rw [List.filterMap_eq_flatMap_toList]
      exact List.flatMap_congr fun s hs ↦ Segment.listOfText_of_not_mem (hslash s hs)
    have hname : Path.ofText n.text = ⟨.relative, [.name n]⟩ :=
      Path.ofText_text ⟨.relative, [.name n]⟩
    have hsource : sourceDirectory.anchor = .relative := by decide
    rw [Path.foldl_join_of_relative _ hhead, hrest, hname, Path.join_of_relative root rfl,
      Path.join_of_relative _ hsource]
    simp

/-- Both places below a library root are clean exactly if the root and the import are. -/
theorem isClean_iff_of_mem_libraryCandidates {root p : Path} {importPath : Text}
    (h : p ∈ libraryCandidates [root] importPath) :
    p.IsClean ↔ root.IsClean ∧ (Path.ofText importPath).IsClean := by
  obtain ⟨n, segments, hread, hp⟩ := exists_eq_of_mem_libraryCandidates h
  have himport : (Path.ofText importPath).IsClean ↔
      (.name n :: segments).IsChain Segment.StaysBefore := by
    rw [hread]
    exact and_iff_right Anchor.noConfusion
  rw [himport]
  rcases hp with rfl | rfl
  · exact Path.isClean_append_name_iff
  · have hsource : sourceDirectory.segments = [.name ⟨.of "src", by decide⟩] := by decide
    -- Two names in front of the rest are as good as one.
    rw [Path.isClean_append_name_iff, hsource, List.singleton_append,
      Segment.isChain_staysBefore_name, Segment.isChain_staysBefore_name,
      Segment.isChain_staysBefore_name]
    simp

namespace FileTree

variable {t : FileTree} {r : Resolver} {source : Path} {importPath : Text} {root? : Option Path}

/-- What the other tiers look for has been cleaned. -/
theorem clean_path_of_mem_candidates {c : Candidate}
    (hc : c ∈ r.candidates source importPath root?) (htier : c.tier ≠ .library) :
    c.path.clean = c.path := by
  rcases Resolver.mem_candidates_iff.1 hc with ⟨-, rfl⟩ | ⟨-, hc | hc | hc⟩
  · exact Path.clean_clean _
  · exact absurd (Resolver.tier_of_mem_libraryTier hc).1 htier
  · obtain ⟨_, -, directory, -, rfl⟩ := Resolver.mem_aboveTier hc
    exact Path.clean_clean _
  · obtain ⟨root, -, rfl⟩ := List.mem_map.1 hc
    exact Path.clean_clean _

/-- A library candidate is the import itself, if that starts at a root, or lies below a library
root. -/
theorem path_of_mem_candidates_library {c : Candidate}
    (hc : c ∈ r.candidates source importPath root?) (htier : c.tier = .library) :
    isRootedImport importPath ∧ c.path = .ofText importPath ∨
      isRootedImport importPath = false ∧
        ∃ root ∈ Resolver.libraryRoots r.libraries (root? <|> r.projectRoot),
          c.path ∈ libraryCandidates [root] importPath := by
  rcases Resolver.mem_candidates_iff.1 hc with ⟨-, rfl⟩ | ⟨hrelative, hc | hc | hc⟩
  · contradiction
  · cases hrooted : isRootedImport importPath with
    | true =>
      rw [Resolver.libraryTier_of_rooted _ hrooted] at hc
      obtain rfl := List.mem_singleton.1 hc
      exact .inl ⟨rfl, rfl⟩
    | false =>
      have hplace := List.mem_map_of_mem (f := (·.path)) hc
      rw [← libraryCandidates_eq hrooted hrelative] at hplace
      exact .inr ⟨rfl, mem_libraryCandidates_iff.1 hplace⟩
  · rw [Resolver.tier_of_mem_aboveTier hc] at htier
    contradiction
  · rw [(Resolver.tier_of_mem_rootTier hc).1] at htier
    contradiction

/-- An import that is found resolves to a clean path exactly if it is found by another tier than the
library, or both the import and, unless the import starts at a root, the library root that it is
found below are clean themselves. No `..` in a clean path takes back a name. -/
theorem clean_path_of_resolveImport_iff {found : Resolution}
    (h : t.resolveImport r source importPath root? = .ok found) :
    (found.path.clean = found.path ↔
      (found.kind = .library → (Path.ofText importPath).clean = .ofText importPath ∧
        (isRootedImport importPath = false →
          ∃ root ∈ Resolver.libraryRoots r.libraries (root? <|> r.projectRoot),
            root.clean = root ∧ found.path ∈ libraryCandidates [root] importPath))) ∧
      (found.path.clean = found.path →
        ∀ front n back, found.path.segments ≠ front ++ .name n :: .up :: back) := by
  have hc := mem_of_firstExisting (firstExisting_of_resolveImport h)
  constructor
  · by_cases hkind : found.kind = .library
    · simp only [hkind, true_implies]
      rcases path_of_mem_candidates_library hc hkind with
        ⟨hrooted, hpath⟩ | ⟨hrooted, root, hroot, hpath⟩
      · rw [show found.path = .ofText importPath from hpath]
        simp [hrooted]
      · have hiff : ∀ {root}, found.path ∈ libraryCandidates [root] importPath →
            (found.path.clean = found.path ↔
              root.clean = root ∧ (Path.ofText importPath).clean = .ofText importPath) := by
          intro root hpath
          simp only [Path.clean_eq_self_iff]
          exact isClean_iff_of_mem_libraryCandidates hpath
        constructor
        · intro hclean
          obtain ⟨hrootClean, himport⟩ := (hiff hpath).1 hclean
          exact ⟨himport, fun _ ↦ ⟨root, hroot, hrootClean, hpath⟩⟩
        · rintro ⟨himport, hbelow⟩
          obtain ⟨root', -, hrootClean, hpath'⟩ := hbelow hrooted
          exact (hiff hpath').2 ⟨hrootClean, himport⟩
    · have hclean : found.path.clean = found.path := clean_path_of_mem_candidates hc hkind
      exact ⟨fun _ hlibrary ↦ absurd hlibrary hkind, fun _ ↦ hclean⟩
  · intro hclean front n back heq
    obtain ⟨-, hchain⟩ := Path.clean_eq_self_iff.1 hclean
    have hstays := List.isChain_iff_forall_rel_of_append_cons_cons.1 hchain heq
    cases hstays rfl

/-- A link on the way to a library takes nothing from the clean path of its import. -/
theorem clean_path_linkedLibrary :
    linkedLibrary.resolveImport ⟨some (.ofText (.of "/w")), [.ofText (.of "lib")]⟩
        (.ofText (.of "src/Main.sol")) (.of "token/A.sol") none =
      .ok ⟨.of "token/A.sol", .ofText (.of "/w/lib/token/src/A.sol"),
        .ofText (.of "/w/lib/erc/src/A.sol"), .library, none⟩ ∧
      (Path.ofText (.of "/w/lib/token/src/A.sol")).clean =
        .ofText (.of "/w/lib/token/src/A.sol") := by
  have hrun : linkedLibrary.resolveImport ⟨some (.ofText (.of "/w")), [.ofText (.of "lib")]⟩
      (.ofText (.of "src/Main.sol")) (.of "token/A.sol") none =
        .ok ⟨.of "token/A.sol", .ofText (.of "/w/lib/token/src/A.sol"),
          .ofText (.of "/w/lib/erc/src/A.sol"), .library, none⟩ :=
    eq_ok_of_toOption (by decide +kernel)
  refine ⟨hrun, (clean_path_of_resolveImport_iff hrun).1.2 fun _ ↦ ⟨by decide, fun _ ↦ ?_⟩⟩
  exact ⟨.ofText (.of "/w/lib"), by decide, by decide, by decide⟩

/-- A library import keeps a name that a `..` takes back. -/
theorem clean_path_ne_stepBack :
    linkedLibrary.resolveImport ⟨none, [.ofText (.of "lib")]⟩ (.ofText (.of "Main.sol"))
        (.of "erc/../erc/src/A.sol") none =
      .ok ⟨.of "erc/../erc/src/A.sol", .ofText (.of "lib/erc/../erc/src/A.sol"),
        .ofText (.of "/w/lib/erc/src/A.sol"), .library, none⟩ ∧
      (Path.ofText (.of "lib/erc/../erc/src/A.sol")).clean = .ofText (.of "lib/erc/src/A.sol") ∧
      (Path.ofText (.of "lib/erc/../erc/src/A.sol")).clean ≠
        .ofText (.of "lib/erc/../erc/src/A.sol") :=
  ⟨eq_ok_of_toOption (by decide +kernel), by decide, by decide⟩

end FileTree

end SolidityImports
