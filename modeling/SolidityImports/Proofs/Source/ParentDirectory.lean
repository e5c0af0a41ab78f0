import SolidityImports.Proofs.FileTree.Extension
import SolidityImports.Proofs.Source.Failure

/-! # The directory of a file

Before a file is written the directory that it goes to is made, with all above it. Main statement: if
that succeeds the directory is there, and making it again changes nothing; and whether it succeeds or
not, nothing is lost of what was there, and nothing is new but directories that were made at the path of
that directory or at one of its ancestors. -/

namespace SolidityImports.FileTree

variable {t t' : FileTree} {p : Path}

/-- Where the directory is there already, nothing is changed. -/
theorem createParent_again (h : t'.leadsToDirectory p.parent.text) :
    t'.createParent p = (t', .ok ()) := by
  rw [createParent, ensureDirectory_eq_self h]

/-- If the path holds no NUL character, there is one way alone for this to fail. -/
theorem createParent_cases (hp : p.NulFree) {made : Except Error Unit}
    (h : t.createParent p = (t', made)) :
    t.ensureDirectory p.parent = (t', none) ∧ made = .ok () ∨
      ∃ failure, t.ensureDirectory p.parent = (t', some failure) ∧
        made = .error (.noParent p.parent failure) := by
  unfold createParent at h
  split at h
  · rename_i hmade
    cases h
    exact .inl ⟨hmade, rfl⟩
  · rename_i middle place hmade
    exact absurd rfl (ensureDirectory_fault_ne_nul hp.parent (congrArg Prod.snd hmade))
  · rename_i middle failure _ hmade
    cases h
    exact .inr ⟨failure, hmade, rfl⟩

/-- The directory of a file is made, or an error names it; what stood anywhere before stands there still,
and what is new is a directory that was made at its path or at an ancestor of that. -/
theorem createParent_adds_directories (hp : p.NulFree) {made : Except Error Unit}
    (h : t.createParent p = (t', made)) :
    (made = .ok () → t'.leadsToDirectory p.parent.text ∧ t'.createParent p = (t', .ok ())) ∧
      (∀ err, made = .error err → ∃ failure, err = .noParent p.parent failure) ∧
      t.ExtendsTo t' ∧
      ∀ loc e, t.lookup loc = none → t'.lookup loc = some e →
        e = .directory ∧ ∃ q, IsMadeAt (p.parent :: p.parent.ancestors) t t' loc q := by
  have hmakes := makesSomeOf_ensureDirectory t p.parent
  obtain ⟨hmade, rfl⟩ | ⟨failure, hmade, rfl⟩ := createParent_cases hp h
  · rw [hmade] at hmakes
    have hthere := leadsToDirectory_of_ensureDirectory hmade
    exact ⟨fun _ ↦ ⟨hthere, createParent_again hthere⟩, nofun, hmakes.extendsTo,
      fun _ _ ↦ hmakes.exists_isMadeAt⟩
  · rw [hmade] at hmakes
    refine ⟨nofun, ?_, hmakes.extendsTo, fun _ _ ↦ hmakes.exists_isMadeAt⟩
    rintro err ⟨⟩
    exact ⟨failure, rfl⟩

/-- Before a `..` a directory is made, also if a file is in the way further on. -/
theorem createParent_linkBesideFile :
    (Path.ofText (.of "out/../sub/A.json")).NulFree ∧
      (∃ t', linkBesideFile.createParent (.ofText (.of "out/../sub/A.json")) = (t', .ok ()) ∧
        t'.createParent (.ofText (.of "out/../sub/A.json")) = (t', .ok ())) ∧
      (Path.ofText (.of "out/../a/sub/A.json")).NulFree ∧
      ∃ t', linkBesideFile.createParent (.ofText (.of "out/../a/sub/A.json")) =
          (t', .error (.noParent (.ofText (.of "out/../a/sub"))
            ⟨.occupied, .ofText (.of "out/../a")⟩)) ∧
        linkBesideFile.ExtendsTo t' ∧
        ∃ q, IsMadeAt (Path.ofText (.of "out/../a/sub") ::
          (Path.ofText (.of "out/../a/sub")).ancestors) linkBesideFile t'
          [⟨.of "w", by decide⟩, ⟨.of "out", by decide⟩] q := by
  have hsub : (Path.ofText (.of "out/../sub/A.json")).NulFree := by decide
  have hfile : (Path.ofText (.of "out/../a/sub/A.json")).NulFree := by decide
  have hmade : linkBesideFile.createParent (.ofText (.of "out/../sub/A.json")) = (_, .ok ()) :=
    Prod.ext rfl (by decide +kernel)
  have hstopped : linkBesideFile.createParent (.ofText (.of "out/../a/sub/A.json")) =
      (_, .error (.noParent (.ofText (.of "out/../a/sub"))
        ⟨.occupied, .ofText (.of "out/../a")⟩)) := Prod.ext rfl (by decide +kernel)
  obtain ⟨hthere, -⟩ := createParent_adds_directories hsub hmade
  obtain ⟨-, -, hextends, hnew⟩ := createParent_adds_directories hfile hstopped
  exact ⟨hsub, ⟨_, hmade, (hthere rfl).2⟩, hfile, _, hstopped, hextends,
    (hnew _ .directory (by decide +kernel) (by decide +kernel)).2⟩

end SolidityImports.FileTree
