import SolidityImports.Proofs.FileTree.Lawful
import SolidityImports.Proofs.Import.Candidate

/-! # The first existing candidate

Each tier is searched in its own way, and each of them searches its part of the candidates. Main
statement: an import resolves to the first of its candidates that exists, and if none of them does,
the error names them all, in order. -/

namespace SolidityImports

/-- A list is split at an element behind others either at its first element or behind it. -/
theorem exists_split_cons_iff {α : Type} {P Q : α → Prop} {x : α} {xs : List α} :
    (∃ before y after, x :: xs = before ++ y :: after ∧ (∀ z ∈ before, P z) ∧ Q y) ↔
      Q x ∨ P x ∧ ∃ before y after, xs = before ++ y :: after ∧ (∀ z ∈ before, P z) ∧ Q y := by
  constructor
  · rintro ⟨before, y, after, hsplit, hbefore, hy⟩
    cases before with
    | nil =>
      obtain ⟨rfl, -⟩ := List.cons.inj hsplit
      exact .inl hy
    | cons z before =>
      obtain ⟨rfl, rfl⟩ := List.cons.inj hsplit
      obtain ⟨hx, hrest⟩ := List.forall_mem_cons.1 hbefore
      exact .inr ⟨hx, before, y, after, rfl, hrest, hy⟩
  · rintro (hx | ⟨hx, before, y, after, rfl, hbefore, hy⟩)
    · exact ⟨[], x, xs, rfl, by simp, hx⟩
    · exact ⟨x :: before, y, after, rfl, List.forall_mem_cons.2 ⟨hx, hbefore⟩, hy⟩

namespace FileTree

variable {t : FileTree}

/-- The first of several candidates that exists. -/
def firstExisting (t : FileTree) (cs : List Candidate) : Option Candidate :=
  cs.find? fun c ↦ t.leadsSomewhere c.path.text

theorem firstExisting_append (cs ds : List Candidate) :
    t.firstExisting (cs ++ ds) = (t.firstExisting cs).or (t.firstExisting ds) :=
  List.find?_append

theorem mem_of_firstExisting {cs : List Candidate} {c : Candidate}
    (h : t.firstExisting cs = some c) : c ∈ cs := List.mem_of_find?_eq_some h

theorem leadsSomewhere_of_firstExisting {cs : List Candidate} {c : Candidate}
    (h : t.firstExisting cs = some c) : t.leadsSomewhere c.path.text := by
  have hc := List.find?_some h
  exact hc

theorem firstExisting_eq_none_iff {cs : List Candidate} :
    t.firstExisting cs = none ↔ ∀ c ∈ cs, t.leadsSomewhere c.path.text = false := by
  rw [firstExisting, List.find?_eq_none]
  simp only [Bool.not_eq_true]

theorem find?_paths (cs : List Candidate) :
    (cs.map (·.path)).find? (fun p ↦ t.leadsSomewhere p.text) =
      (t.firstExisting cs).map (·.path) := by
  rw [List.find?_map]
  rfl

/-! ## The tiers -/

theorem normalize_of_leadsSomewhere {directory : Path} {importPath : Text}
    (h : t.leadsSomewhere (directory / .ofText importPath).clean.text) :
    t.normalize directory importPath = .ok (directory / .ofText importPath).clean := by
  unfold leadsSomewhere at h
  cases hstat : t.stat (directory / .ofText importPath).clean.text with
  | ok found => simp only [normalize, hstat]
  | error f =>
    rw [hstat] at h
    contradiction

theorem normalize_of_not_leadsSomewhere {directory : Path} {importPath : Text}
    (h : t.leadsSomewhere (directory / .ofText importPath).clean.text = false) :
    ∃ e, t.normalize directory importPath = .error e := by
  unfold leadsSomewhere at h
  cases hstat : t.stat (directory / .ofText importPath).clean.text with
  | ok found =>
    rw [hstat] at h
    contradiction
  | error f =>
    refine ⟨.file f.reason (directory / .ofText importPath), ?_⟩
    simp only [normalize, hstat]

/-- A library import is searched in the places of its tier. A rooted one is its only place. -/
theorem resolveLibrary_eq {roots : List Path} {importPath : Text}
    (hrelative : isRelativeImport importPath = false) :
    t.resolveLibrary roots importPath =
      if isRootedImport importPath then some (.ofText importPath)
      else (t.firstExisting (Resolver.libraryTier roots importPath)).map (·.path) := by
  unfold resolveLibrary
  cases hrooted : isRootedImport importPath with
  | true => rfl
  | false =>
    rw [libraryCandidates_eq hrooted hrelative]
    exact find?_paths _

theorem searchLibraries_of_some {roots : List Path} {importPath : Text} {c : Candidate}
    (hrelative : isRelativeImport importPath = false)
    (h : t.firstExisting (Resolver.libraryTier roots importPath) = some c) :
    t.searchLibraries roots importPath = .ok c.path := by
  have hc := leadsSomewhere_of_firstExisting h
  unfold searchLibraries
  rw [resolveLibrary_eq hrelative]
  cases hrooted : isRootedImport importPath with
  | true =>
    have hmem := mem_of_firstExisting h
    rw [Resolver.libraryTier_of_rooted roots hrooted] at hmem
    obtain rfl := List.mem_singleton.1 hmem
    exact if_pos hc
  | false =>
    rw [h]
    exact if_pos hc

theorem searchLibraries_of_none {roots : List Path} {importPath : Text}
    (hrelative : isRelativeImport importPath = false)
    (h : t.firstExisting (Resolver.libraryTier roots importPath) = none) :
    t.searchLibraries roots importPath =
      .error ((Resolver.libraryTier roots importPath).map (·.path)) := by
  unfold searchLibraries
  rw [resolveLibrary_eq hrelative]
  cases hrooted : isRootedImport importPath with
  | true =>
    have htier := Resolver.libraryTier_of_rooted roots hrooted
    rw [htier, firstExisting_eq_none_iff] at h
    have hmissing := h ⟨.library, .ofText importPath, none⟩ List.mem_cons_self
    rw [htier]
    simp [libraryCandidates, hrooted, hmissing]
  | false =>
    rw [h, libraryCandidates_eq hrooted hrelative]
    rfl

/-- Looking in one directory after the other is searching their candidates. -/
theorem resolveAmong_eq (directories : List Path) (importPath : Text) :
    t.resolveAmong directories importPath =
      (directories.find? fun d ↦ t.leadsSomewhere (d / .ofText importPath).clean.text).map
        fun d ↦ (d, (d / .ofText importPath).clean) := by
  unfold resolveAmong
  induction directories with
  | nil => rfl
  | cons d directories ih =>
    rw [List.findSome?_cons, List.find?_cons]
    cases hd : t.leadsSomewhere (d / .ofText importPath).clean.text with
    | true =>
      rw [normalize_of_leadsSomewhere hd]
      rfl
    | false =>
      obtain ⟨e, he⟩ := normalize_of_not_leadsSomewhere hd
      rw [he]
      exact ih

theorem searchAbove_of_some {base : Option Path} {cwd : Path} {importPath : Text} {c : Candidate}
    (h : t.firstExisting (Resolver.aboveTier base cwd importPath) = some c) :
    ∃ directory, c.tier = .absolute ∧ c.above = some directory ∧
      t.searchAbove base cwd importPath = .ok (directory, c.path) := by
  cases base with
  | none => cases h
  | some base =>
    have hfind : ((cwd.ancestorsBelow base).find? fun d ↦
        t.leadsSomewhere (d / .ofText importPath).clean.text).map
          (fun d ↦ (⟨.absolute, (d / .ofText importPath).clean, some d⟩ : Candidate)) = some c := by
      rw [← h, firstExisting, Resolver.aboveTier, Option.toList_some, List.flatMap_singleton,
        List.find?_map]
      rfl
    obtain ⟨directory, hdirectory, rfl⟩ := Option.map_eq_some_iff.1 hfind
    refine ⟨directory, rfl, rfl, ?_⟩
    simp only [searchAbove, resolveAbove, resolveAmong_eq, hdirectory]
    rfl

theorem searchAbove_of_none {base : Option Path} {cwd : Path} {importPath : Text}
    (h : t.firstExisting (Resolver.aboveTier base cwd importPath) = none) :
    t.searchAbove base cwd importPath =
      .error ((Resolver.aboveTier base cwd importPath).map (·.path)) := by
  cases base with
  | none => rfl
  | some base =>
    rw [Resolver.aboveTier, Option.toList_some, List.flatMap_singleton] at h ⊢
    have hfind : (cwd.ancestorsBelow base).find? (fun d ↦
        t.leadsSomewhere (d / .ofText importPath).clean.text) = none := by
      rw [firstExisting, List.find?_map] at h
      exact Option.map_eq_none_iff.1 h
    simp only [searchAbove, resolveAbove, resolveAmong_eq, hfind, List.map_map]
    rfl

theorem searchRoot_of_some {root : Option Path} {importPath : Text} {c : Candidate}
    (h : t.firstExisting (Resolver.rootTier root importPath) = some c) :
    t.searchRoot root importPath = .ok c.path := by
  have hc := leadsSomewhere_of_firstExisting h
  obtain ⟨top, htop, rfl⟩ := List.mem_map.1 (mem_of_firstExisting h)
  obtain rfl := Option.mem_toList.1 htop
  simp only [searchRoot, normalize_of_leadsSomewhere hc]

theorem searchRoot_of_none {root : Option Path} {importPath : Text}
    (h : t.firstExisting (Resolver.rootTier root importPath) = none) :
    t.searchRoot root importPath = .error ((Resolver.rootTier root importPath).map (·.path)) := by
  cases root with
  | none => rfl
  | some root =>
    rw [firstExisting_eq_none_iff] at h
    have hmissing := h ⟨.root, (root / .ofText importPath).clean, none⟩ List.mem_cons_self
    obtain ⟨e, he⟩ := normalize_of_not_leadsSomewhere hmissing
    simp only [searchRoot, he]
    rfl

/-! ## All tiers -/

variable {r : Resolver} {source : Path} {importPath : Text} {root? : Option Path}

theorem resolveRelative_eq (importPath : Text) (source : Path) :
    t.resolveRelative importPath source =
      match t.firstExisting [⟨.relative, (source.parent / .ofText importPath).clean, none⟩] with
      | some c => t.resolution importPath c.tier c.path c.above
      | none => .error (t.notFound importPath source
          [⟨Tier.relative.text, (source.parent / .ofText importPath).clean⟩]) := by
  cases h : t.leadsSomewhere (source.parent / .ofText importPath).clean.text with
  | true =>
    simp only [resolveRelative, normalize_of_leadsSomewhere h, firstExisting, List.find?_cons, h]
  | false =>
    obtain ⟨e, he⟩ := normalize_of_not_leadsSomewhere h
    simp only [resolveRelative, he, firstExisting, List.find?_cons, h]
    rfl

/-- Resolving an import is searching its candidates, whatever the paths hold. -/
theorem resolveImport_eq (t : FileTree) (r : Resolver) (source : Path) (importPath : Text)
    (root? : Option Path) :
    t.resolveImport r source importPath root? =
      match t.firstExisting (r.candidates source importPath root?) with
      | some c => t.resolution importPath c.tier c.path c.above
      | none => .error (t.notFound importPath source
          ((r.candidates source importPath root?).map (·.attempt))) := by
  unfold resolveImport
  rw [Resolver.candidates_eq]
  cases hrelative : isRelativeImport importPath with
  | true => exact resolveRelative_eq importPath source
  | false =>
    simp only [Bool.false_eq_true, if_false, firstExisting_append]
    generalize (root? <|> r.projectRoot) = root
    generalize Resolver.libraryRoots r.libraries root = roots
    generalize Resolver.ancestorBase root roots source.parent = base
    cases hlibrary : t.firstExisting (Resolver.libraryTier roots importPath) with
    | some c =>
      obtain ⟨htier, habove⟩ := Resolver.tier_of_mem_libraryTier (mem_of_firstExisting hlibrary)
      simp only [searchLibraries_of_some hrelative hlibrary, Option.some_or, htier, habove]
    | none =>
      simp only [searchLibraries_of_none hrelative hlibrary, Option.none_or]
      cases habove : t.firstExisting (Resolver.aboveTier base source.parent importPath) with
      | some c =>
        obtain ⟨directory, htier, hdirectory, hsearch⟩ := searchAbove_of_some habove
        simp only [hsearch, Option.some_or, htier, hdirectory]
      | none =>
        simp only [searchAbove_of_none habove, Option.none_or]
        cases htop : t.firstExisting
            (Resolver.rootTier (root.filter source.parent.isWithin) importPath) with
        | some c =>
          obtain ⟨htier, hnone⟩ := Resolver.tier_of_mem_rootTier (mem_of_firstExisting htop)
          simp only [searchRoot_of_some htop, htier, hnone]
        | none =>
          simp only [searchRoot_of_none htop, List.map_append,
            Resolver.attemptsOf_eq fun c hc ↦ (Resolver.tier_of_mem_libraryTier hc).1,
            Resolver.attemptsOf_eq fun c hc ↦ (Resolver.tier_of_mem_rootTier hc).1,
            Resolver.attemptsOf_eq fun c hc ↦ Resolver.tier_of_mem_aboveTier hc]

/-! ## What is reported -/

/-- The search for a hint ends with the first attempt that has one. -/
theorem firstHint_eq {attempts : List Attempt} (h : ∀ a ∈ attempts, a.candidate.NulFree) :
    notFound.firstHint t attempts = .ok (attempts.findSome? fun a ↦ t.hint? a.candidate) := by
  induction attempts with
  | nil => rfl
  | cons a rest ih =>
    have ha : a.candidate.NulFree := h a List.mem_cons_self
    rw [notFound.firstHint, caseVariant?_eq t ha, List.findSome?_cons]
    cases t.hint? a.candidate with
    | none =>
      apply ih
      intro b hb
      exact h b (List.mem_cons_of_mem a hb)
    | some hint => rfl

theorem notFound_eq (importPath : Text) (source : Path) {attempts : List Attempt}
    (h : ∀ a ∈ attempts, a.candidate.NulFree) :
    t.notFound importPath source attempts =
      .importNotFound importPath source attempts
        (attempts.findSome? fun a ↦ t.hint? a.candidate) := by
  simp only [notFound, firstHint_eq h]

theorem resolution_eq (ht : t.NulFree) (importPath : Text) (kind : Tier) {path : Path}
    (hpath : path.NulFree) (includePath : Option Path) :
    t.resolution importPath kind path includePath =
      .ok ⟨importPath, path, t.canonicalOrSelf path, kind, includePath⟩ := by
  unfold resolution
  rw [canonicalized_eq ht hpath]
  rfl

theorem canonicalized_cases (t : FileTree) (p : Path) :
    (∃ c, t.canonicalized p = .ok c) ∨ t.canonicalized p = .error .nulInPath := by
  unfold canonicalized canonicalize
  cases t.canonical p with
  | ok c => exact .inl ⟨c, rfl⟩
  | error f =>
    cases f with
    | loop link => exact .inl ⟨p, rfl⟩
    | fault f => cases f <;> first | exact .inl ⟨p, rfl⟩ | exact .inr rfl

theorem resolution_cases (t : FileTree) (importPath : Text) (kind : Tier) (path : Path)
    (includePath : Option Path) :
    (∃ c, t.resolution importPath kind path includePath =
        .ok ⟨importPath, path, c, kind, includePath⟩) ∨
      t.resolution importPath kind path includePath = .error .nulInPath := by
  unfold resolution
  rcases canonicalized_cases t path with ⟨c, hc⟩ | hnul
  · left
    rw [hc]
    exact ⟨c, rfl⟩
  · right
    rw [hnul]
    rfl

theorem firstHint_eq_error {attempts : List Attempt} {e : Error}
    (h : notFound.firstHint t attempts = .error e) : e = .nulInPath := by
  induction attempts with
  | nil => cases h
  | cons a rest ih =>
    rw [notFound.firstHint] at h
    cases hvariant : t.caseVariant? a.candidate with
    | error e' =>
      rw [hvariant] at h
      obtain rfl := Except.error.inj h
      exact (caseVariant?_eq_error hvariant).1
    | ok found =>
      rw [hvariant] at h
      cases found with
      | none => exact ih h
      | some hint => cases h

theorem notFound_cases (t : FileTree) (importPath : Text) (source : Path)
    (attempts : List Attempt) :
    (∃ hint, t.notFound importPath source attempts =
        .importNotFound importPath source attempts hint) ∨
      t.notFound importPath source attempts = .nulInPath := by
  unfold notFound
  cases hhint : notFound.firstHint t attempts with
  | ok hint => exact .inl ⟨hint, rfl⟩
  | error e => exact .inr (firstHint_eq_error hhint)

/-- A run ends at the first existing candidate, or with all candidates as its attempts, or for a NUL
character. -/
theorem resolveImport_cases (t : FileTree) (r : Resolver) (source : Path) (importPath : Text)
    (root? : Option Path) :
    (∃ c, t.firstExisting (r.candidates source importPath root?) = some c ∧ ∃ canonical,
        t.resolveImport r source importPath root? =
          .ok ⟨importPath, c.path, canonical, c.tier, c.above⟩) ∨
      (∃ hint, t.resolveImport r source importPath root? =
        .error (.importNotFound importPath source
          ((r.candidates source importPath root?).map (·.attempt)) hint)) ∨
      t.resolveImport r source importPath root? = .error .nulInPath := by
  rw [resolveImport_eq]
  cases hfirst : t.firstExisting (r.candidates source importPath root?) with
  | some c =>
    rcases resolution_cases t importPath c.tier c.path c.above with ⟨canonical, hc⟩ | hnul
    · exact .inl ⟨c, rfl, canonical, hc⟩
    · exact .inr (.inr hnul)
  | none =>
    rcases notFound_cases t importPath source
      ((r.candidates source importPath root?).map (·.attempt)) with ⟨hint, hhint⟩ | hnul
    · exact .inr (.inl ⟨hint, congrArg Except.error hhint⟩)
    · exact .inr (.inr (congrArg Except.error hnul))

/-- What an import resolves to is the first of its candidates that exists. -/
theorem firstExisting_of_resolveImport {found : Resolution}
    (h : t.resolveImport r source importPath root? = .ok found) :
    t.firstExisting (r.candidates source importPath root?) =
      some ⟨found.kind, found.path, found.includePath⟩ := by
  rcases resolveImport_cases t r source importPath root? with
    ⟨c, hfirst, canonical, hrun⟩ | ⟨hint, hrun⟩ | hrun
  · obtain rfl := Except.ok.inj (hrun.symm.trans h)
    exact hfirst
  · cases hrun.symm.trans h
  · cases hrun.symm.trans h

/-- An import that has a candidate that exists is resolved, whatever other candidates hold. -/
theorem resolveImport_of_firstExisting (ht : t.NulFree) {c : Candidate}
    (h : t.firstExisting (r.candidates source importPath root?) = some c) :
    t.resolveImport r source importPath root? =
      .ok ⟨importPath, c.path, t.canonicalOrSelf c.path, c.tier, c.above⟩ := by
  have hfree := nulFree_of_leadsSomewhere (leadsSomewhere_of_firstExisting h)
  rw [resolveImport_eq, h]
  exact resolution_eq ht importPath c.tier hfree c.above

/-- Without NUL characters, an import resolves to the first of its candidates that exists; if there
is none, the error names all candidates, in order, with the first hint beside one of them. -/
theorem resolveImport_eq_first_candidate (ht : t.NulFree) (hr : r.NulFree)
    (hsource : source.NulFree) (himport : '\x00' ∉ importPath) (hroot : ∀ p ∈ root?, p.NulFree) :
    t.resolveImport r source importPath root? =
      match t.firstExisting (r.candidates source importPath root?) with
      | some c => .ok ⟨importPath, c.path, t.canonicalOrSelf c.path, c.tier, c.above⟩
      | none => .error (.importNotFound importPath source
          ((r.candidates source importPath root?).map (·.attempt))
          ((r.candidates source importPath root?).findSome? fun c ↦ t.hint? c.path)) := by
  have hcandidates := Resolver.candidates_nulFree hr hsource himport hroot
  rw [resolveImport_eq]
  cases hfirst : t.firstExisting (r.candidates source importPath root?) with
  | some c =>
    exact resolution_eq ht importPath c.tier (hcandidates c (mem_of_firstExisting hfirst)) c.above
  | none =>
    have hattempts : ∀ a ∈ (r.candidates source importPath root?).map (·.attempt),
        a.candidate.NulFree := by
      intro a ha
      obtain ⟨c, hc, rfl⟩ := List.mem_map.1 ha
      exact hcandidates c hc
    simp only [notFound_eq importPath source hattempts, List.findSome?_map]
    rfl

theorem eq_ok_of_toOption {ε α : Type} {x : Except ε α} {a : α} (h : x.toOption = some a) :
    x = .ok a := by
  cases x with
  | error e => contradiction
  | ok b => exact congrArg Except.ok (Option.some.inj h)

/-- A resolver for the tree with a linked library. -/
def linkedLibraryResolver : Resolver := ⟨some (.ofText (.of "/w")), [.ofText (.of "lib")]⟩

/-- The second candidate of a library root wins through a link, which its canonical form avoids.
From inside the library, an import is found above its source, and one that is written from the
project's root is found there last. What is found nowhere has been looked for in all of these. -/
theorem resolveImport_linkedLibrary :
    linkedLibrary.NulFree ∧
      linkedLibrary.resolveImport linkedLibraryResolver (.ofText (.of "src/Main.sol"))
          (.of "token/A.sol") none =
        .ok ⟨.of "token/A.sol", .ofText (.of "/w/lib/token/src/A.sol"),
          .ofText (.of "/w/lib/erc/src/A.sol"), .library, none⟩ ∧
      linkedLibrary.resolveImport linkedLibraryResolver (.ofText (.of "/w/lib/erc/src/B.sol"))
          (.of "src/A.sol") none =
        .ok ⟨.of "src/A.sol", .ofText (.of "/w/lib/erc/src/A.sol"),
          .ofText (.of "/w/lib/erc/src/A.sol"), .absolute, some (.ofText (.of "/w/lib/erc"))⟩ ∧
      linkedLibrary.resolveImport linkedLibraryResolver (.ofText (.of "/w/lib/erc/src/B.sol"))
          (.of "lib/token/src/A.sol") none =
        .ok ⟨.of "lib/token/src/A.sol", .ofText (.of "/w/lib/token/src/A.sol"),
          .ofText (.of "/w/lib/erc/src/A.sol"), .root, none⟩ ∧
      linkedLibrary.resolveImport linkedLibraryResolver (.ofText (.of "/w/lib/erc/src/B.sol"))
          (.of "erc/a.sol") none =
        .error (.importNotFound (.of "erc/a.sol") (.ofText (.of "/w/lib/erc/src/B.sol"))
          [⟨.of "library", .ofText (.of "/w/lib/erc/a.sol")⟩,
            ⟨.of "library", .ofText (.of "/w/lib/erc/src/a.sol")⟩,
            ⟨.of "absolute", .ofText (.of "/w/lib/erc/erc/a.sol")⟩,
            ⟨.of "root", .ofText (.of "/w/erc/a.sol")⟩]
          (some (.ofText (.of "/w/lib/erc/src/A.sol")))) := by
  have ht : linkedLibrary.NulFree := by decide
  have hr : linkedLibraryResolver.NulFree := by decide
  refine ⟨ht, ?_, ?_, ?_, ?_⟩
  · rw [resolveImport_eq_first_candidate ht hr (by decide) (by decide) (by simp)]
    exact eq_ok_of_toOption (by decide +kernel)
  · rw [resolveImport_eq_first_candidate ht hr (by decide) (by decide) (by simp)]
    exact eq_ok_of_toOption (by decide +kernel)
  · rw [resolveImport_eq_first_candidate ht hr (by decide) (by decide) (by simp)]
    exact eq_ok_of_toOption (by decide +kernel)
  · have hfirst : linkedLibrary.firstExisting (linkedLibraryResolver.candidates
        (.ofText (.of "/w/lib/erc/src/B.sol")) (.of "erc/a.sol") none) = none := by
      decide +kernel
    rw [resolveImport_eq_first_candidate ht hr (by decide) (by decide) (by simp), hfirst]
    decide +kernel

end FileTree

end SolidityImports
