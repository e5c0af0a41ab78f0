import SolidityImports.Json.File
import SolidityImports.Proofs.FileTree.Growth
import SolidityImports.Proofs.Text.Encoding

/-! # How operations on files fail

An operation that fails should say so in an error of the library. Two errors are none: a path that
holds a NUL character cannot be handed to the system, and bytes that are no UTF-8 cannot be decoded.
Main statement: for each operation, when it ends in one of these. -/

namespace SolidityImports

/-- Whether an error is one of the library. -/
def Error.IsOwn (e : Error) : Prop := e ≠ .nulInPath ∧ e ≠ .notUtf8

instance (e : Error) : Decidable e.IsOwn :=
  inferInstanceAs (Decidable (e ≠ .nulInPath ∧ e ≠ .notUtf8))

@[simp] theorem Error.isOwn_ofFault {p : Path} {f : Fault} : (ofFault p f).IsOwn ↔ f ≠ .nul := by
  cases f <;> simp [ofFault, IsOwn]

/-- Whether an operation has a result, or fails with an error of the library. -/
def EndsWell {α : Type} : Except Error α → Prop
  | .ok _ => True
  | .error e => e.IsOwn

instance {α : Type} (run : Except Error α) : Decidable (EndsWell run) := by
  unfold EndsWell
  split <;> infer_instance

@[simp] theorem endsWell_ok {α : Type} (a : α) : EndsWell (.ok a) := trivial

@[simp] theorem endsWell_error {α : Type} {e : Error} :
    EndsWell (.error e : Except Error α) ↔ e.IsOwn := Iff.rfl

namespace FileTree

variable {t : FileTree} {p : Path}

/-! ## Canonical forms -/

theorem resolveFrom_append (enter : Path → Path → Text → Except CanonicalFault Path)
    (before after : List Segment) (done : Path) : t.resolveFrom enter done (before ++ after) =
      (t.resolveFrom enter done before).bind fun done ↦ t.resolveFrom enter done after := by
  induction before generalizing done with
  | nil => rfl
  | cons s before ih =>
    cases s with
    | up => exact ih _
    | name n =>
      rw [List.cons_append, resolveFrom, resolveFrom]
      split
      · rfl
      · split
        · exact ih _
        · rfl
      · exact ih _

theorem resolve_append (depth : Nat) (entered : List Path) (before after : List Segment)
    (done : Path) : t.resolve depth entered done (before ++ after) =
      (t.resolve depth entered done before).bind fun done ↦ t.resolve depth entered done after := by
  cases depth with
  | zero => exact resolveFrom_append _ before after done
  | succ depth => exact resolveFrom_append _ before after done

/-- A name that holds a NUL character cannot be looked up. -/
theorem resolve_name_eq_nul (depth : Nat) (entered : List Path) {n : FileName}
    (hn : '\x00' ∈ n.text) (rest : List Segment) (done : Path) :
    t.resolve depth entered done (.name n :: rest) = .error (.fault .nul) := by
  have hfree : ¬ (done.child n).NulFree := fun hfree ↦ hfree (.name n) (by simp) hn
  have hentry : t.entryAt .keep (done.child n).text = .error .nul :=
    entryAt_eq_nul_iff.2 (Path.nul_mem_text_iff.2 hfree)
  cases depth <;> rw [resolve, resolveFrom, hentry]

/-- Whether resolving a path comes to a name that holds a NUL character: what stands before the
first such name has a canonical form. -/
def ComesToNul (t : FileTree) (p : Path) : Prop :=
  ∃ before n after, p.segments = before ++ .name n :: after ∧ (∀ s ∈ before, '\x00' ∉ s.text) ∧
    '\x00' ∈ n.text ∧ ∃ c, t.canonical ⟨p.anchor, before⟩ = .ok c

/-- Up to its first name that holds a NUL character, a path is resolved as if nothing followed. -/
theorem canonical_of_segments_eq {before : List Segment} {n : FileName} {after : List Segment}
    (hsplit : p.segments = before ++ .name n :: after) (hn : '\x00' ∈ n.text) :
    t.canonical p = (t.canonical ⟨p.anchor, before⟩).bind fun _ ↦ .error (.fault .nul) := by
  unfold canonical
  rw [hsplit, resolve_append]
  have hanchor : (⟨p.anchor, before⟩ : Path).isRooted = p.isRooted := rfl
  rw [hanchor]
  cases t.resolve t.linkDepth [] ⟨if p.isRooted then .root else .relative, []⟩ before with
  | error f => rfl
  | ok done =>
    simp only [Except.bind, Except.map, resolve_name_eq_nul _ _ hn]

theorem canonical_eq_nul_iff (ht : t.NulFree) :
    t.canonical p = .error (.fault .nul) ↔ t.ComesToNul p := by
  constructor
  · intro hnul
    have hp : ¬ p.NulFree := fun hp ↦ canonical_ne_nul ht hp hnul
    obtain ⟨before, n, after, hsplit, hbefore, hn⟩ := Path.not_nulFree_iff.1 hp
    refine ⟨before, n, after, hsplit, hbefore, hn, ?_⟩
    rw [canonical_of_segments_eq hsplit hn] at hnul
    cases hfront : t.canonical ⟨p.anchor, before⟩ with
    | ok c => exact ⟨c, rfl⟩
    | error f =>
      rw [hfront] at hnul
      have hfree : (⟨p.anchor, before⟩ : Path).NulFree := hbefore
      exact absurd (hfront.trans hnul) (canonical_ne_nul ht hfree)
  · rintro ⟨before, n, after, hsplit, -, hn, c, hc⟩
    rw [canonical_of_segments_eq hsplit hn, hc]
    rfl

theorem endsWell_canonicalize_iff (ht : t.NulFree) :
    EndsWell (t.canonicalize p) ↔ ¬ t.ComesToNul p := by
  rw [← canonical_eq_nul_iff ht]
  unfold canonicalize
  split <;> simp_all [Error.IsOwn]

theorem exists_canonicalized_iff (ht : t.NulFree) :
    (∃ c, t.canonicalized p = .ok c) ↔ ¬ t.ComesToNul p := by
  rw [← canonical_eq_nul_iff ht]
  unfold canonicalized canonicalize
  cases t.canonical p with
  | ok c => simp
  | error f =>
    cases f with
    | loop link => simp
    | fault f => cases f <;> simp

/-! ## Reading -/

theorem exists_caseVariant?_iff : (∃ found?, t.caseVariant? p = .ok found?) ↔ p.parent.NulFree := by
  have hnul : t.caseVariant? p = .error .nulInPath ↔ ¬ p.parent.NulFree := caseVariant?_eq_nul_iff
  cases hfound : t.caseVariant? p with
  | ok found? => simpa [hfound] using hnul
  | error e =>
    obtain ⟨rfl, -⟩ := caseVariant?_eq_error hfound
    simpa [hfound] using hnul

/-- Beside NUL characters, a source is only kept from being read by bytes that are no UTF-8. -/
theorem endsWell_readSource_iff : EndsWell (t.readSource p) ↔
    p.NulFree ∧ ∀ content, t.read p.text = .ok content → ∃ s : Text, content = s.utf8 := by
  simp only [← Text.isSome_ofUtf8?_iff]
  have hnul : t.read p.text = .error .nul ↔ ¬ p.NulFree :=
    read_eq_nul_iff.trans Path.nul_mem_text_iff
  by_cases hp : p.NulFree
  · have hread : t.read p.text ≠ .error .nul := fun h ↦ hnul.1 h hp
    unfold readSource
    rw [caseVariant?_eq t hp]
    cases hcontent : t.read p.text with
    | ok content => cases hs : Text.ofUtf8? content <;> simp [hp, hs, Error.IsOwn]
    | error f =>
      cases f with
      | missing =>
        cases t.hint? p with
        | none => simp [hp]
        | some existing => simp [hp, Error.IsOwn]
      | nul => exact absurd hcontent hread
      | _ => simp [hp]
  · unfold readSource
    rw [hnul.2 hp]
    simp [hp]

/-- Reading a file for a reader with causes of its own fails well but for a NUL character. -/
theorem endsWell_readWith_iff {α : Type} {read : Bytes → Except JsonCause α} :
    EndsWell (t.readWith read p) ↔ p.NulFree := by
  rw [Path.nulFree_iff, ← read_eq_nul_iff (t := t)]
  unfold readWith
  cases t.read p.text with
  | error f => simp
  | ok content =>
    cases hvalue : read content <;> simp [hvalue, Except.mapError, Error.IsOwn]

/-! ## Writing -/

theorem endsWell_writeText_iff {s : Text} : EndsWell (t.writeText p s) ↔ p.NulFree := by
  have hnul : t.write p.text s.utf8 = .error .nul ↔ '\x00' ∈ p.text := write_eq_nul_iff
  rw [Path.nulFree_iff, ← hnul]
  unfold writeText
  cases t.write p.text s.utf8 <;> simp [Except.mapError]

/-- Why a directory is not made, if it is refused: the target may be too long to be looked for. -/
theorem fault_of_refusal? {f : Fault} {failure : MakeFailure} (h : t.refusal? p f = some failure) :
    failure.fault = .nameTooLong ∨ failure.fault = f := by
  unfold refusal? at h
  split at h
  · cases h
  · cases h
    exact .inl rfl
  · cases h
    exact .inr rfl

theorem refusal?_nul (hp : ¬ p.NulFree) : t.refusal? p .nul = some ⟨.nul, p⟩ := by
  rw [refusal?, stat_eq_nul_iff.2 (Path.nul_mem_text_iff.2 hp)]

/-- No directory on the way to one without NUL fails for a NUL character. -/
theorem ensureDirectory_fault_ne_nul (hp : p.NulFree) {failure : MakeFailure}
    (h : (t.ensureDirectory p).2 = some failure) : failure.fault ≠ .nul := by
  have hrefusal : ∀ {t : FileTree} {p : Path} {f : Fault}, p.NulFree →
      t.make p.text .directory = .error f → t.refusal? p f = some failure →
      failure.fault ≠ .nul := by
    intro t p f hp hmake hrefused
    have hf : f ≠ .nul := by
      rintro rfl
      exact Path.nulFree_iff.1 hp (make_eq_nul_iff.1 hmake)
    rcases fault_of_refusal? hrefused with hfault | hfault
    · rw [hfault]
      exact Fault.noConfusion
    · rwa [hfault]
  fun_induction ensureDirectory t p with
  | case1 => cases h
  | case2 =>
    cases h
    exact Fault.noConfusion
  | case3 p _ _ _ t' failure' hparent ih =>
    rw [hparent] at ih
    exact ih hp.parent h
  | case4 p _ _ _ t' hparent ih =>
    unfold ensureOne at h
    split at h
    · cases h
    · cases h
      exact Fault.noConfusion
    · rename_i f _ hmake
      exact hrefusal hp hmake h
  | case5 p f _ hmake => exact hrefusal hp hmake h

theorem endsWell_createParent_iff : EndsWell (t.createParent p).2 ↔ p.parent.NulFree := by
  unfold createParent
  by_cases hp : p.parent.NulFree
  · cases hmade : t.ensureDirectory p.parent with
    | mk t' failure? =>
      cases failure? with
      | none => simp [hp]
      | some failure =>
        have hfault : failure.fault ≠ .nul :=
          ensureDirectory_fault_ne_nul hp (congrArg Prod.snd hmade)
        obtain ⟨fault, place⟩ := failure
        cases fault <;> simp_all [Error.IsOwn]
  · have hmake : t.make p.parent.text .directory = .error .nul :=
      make_eq_nul_iff.2 (Path.nul_mem_text_iff.2 hp)
    rw [ensureDirectory, hmake]
    simp only [refusal?_nul hp]
    simp [hp, Error.IsOwn]

/-! ## All of them -/

/-- A canonical form is kept from being found, or from being known to be missing, by a NUL character
that resolving the path comes to, and all other operations by any in the path that they use; beside
that, only a source that is no UTF-8 ends in no error of the library. -/
theorem operations_endWell_iff (ht : t.NulFree) (p : Path) :
    (EndsWell (t.canonicalize p) ↔ ¬ t.ComesToNul p) ∧
      ((∃ c, t.canonicalized p = .ok c) ↔ ¬ t.ComesToNul p) ∧
      ((∃ found?, t.caseVariant? p = .ok found?) ↔ p.parent.NulFree) ∧
      (EndsWell (t.readSource p) ↔
        p.NulFree ∧ ∀ content, t.read p.text = .ok content → ∃ s : Text, content = s.utf8) ∧
      (EndsWell (t.readJson p) ↔ p.NulFree) ∧
      (∀ kind, EndsWell (t.readRecord kind p) ↔ p.NulFree) ∧
      (∀ v, EndsWell (t.writeJson p v) ↔ p.NulFree) ∧
      (∀ r, EndsWell (t.writeRecord p r) ↔ p.NulFree) ∧
      (EndsWell (t.createParent p).2 ↔ p.parent.NulFree) :=
  ⟨endsWell_canonicalize_iff ht, exists_canonicalized_iff ht, exists_caseVariant?_iff,
    endsWell_readSource_iff, endsWell_readWith_iff, fun _ ↦ endsWell_readWith_iff,
    fun _ ↦ endsWell_writeText_iff, fun _ ↦ endsWell_writeText_iff, endsWell_createParent_iff⟩

/-- A source with a comment whose last byte is no UTF-8. -/
def latinSource : FileTree where
  entries := [([⟨.of "latin.sol", by decide⟩], .file [0x2F, 0x2F, 0xE9])]
  distinct := by decide
  workDir := []

/-- A NUL character in a name is an obstacle to reading the file, but not to resolving the path to it
if its directory is missing. -/
theorem endsWell_nulBehindMissing :
    latinSource.NulFree ∧
      (∃ c, latinSource.canonicalized (.ofText (.of "gone/A\x00.sol")) = .ok c) ∧
      (∃ found?, latinSource.caseVariant? (.ofText (.of "gone/A\x00.sol")) = .ok found?) ∧
      EndsWell (latinSource.createParent (.ofText (.of "gone/A\x00.sol"))).2 ∧
      ¬ EndsWell (latinSource.readJson (.ofText (.of "gone/A\x00.sol"))) := by
  have ht : latinSource.NulFree := by decide
  have hname : ¬ (Path.ofText (.of "gone/A\x00.sol")).NulFree := by decide
  have hparent : (Path.ofText (.of "gone/A\x00.sol")).parent.NulFree := by decide
  have hcanonical : EndsWell (latinSource.canonicalize (.ofText (.of "gone/A\x00.sol"))) := by
    decide +kernel
  obtain ⟨hresolves, hresolved, hvariant, -, hread, -, -, -, hmade⟩ :=
    operations_endWell_iff ht (.ofText (.of "gone/A\x00.sol"))
  exact ⟨ht, hresolved.2 (hresolves.1 hcanonical), hvariant.2 hparent, hmade.2 hparent,
    fun h ↦ hname (hread.1 h)⟩

/-- With a NUL character in it, a path is not given back for its canonical form, nor is
there an answer about names in another case; and a source that is no UTF-8 ends in no error of the
library. -/
theorem not_endsWell_latinSource :
    (∀ c, latinSource.canonicalized (.ofText (.of "a\x00b")) ≠ .ok c) ∧
      (∀ found?, latinSource.caseVariant? (.ofText (.of "a\x00b/C.sol")) ≠ .ok found?) ∧
      ¬ EndsWell (latinSource.readSource (.ofText (.of "latin.sol"))) := by
  refine ⟨?_, ?_, by decide +kernel⟩
  · intro c hc
    have hnone : (latinSource.canonicalized (.ofText (.of "a\x00b"))).toOption = none := by
      decide +kernel
    rw [hc] at hnone
    cases hnone
  · intro found? hfound
    have hparent : ¬ (Path.ofText (.of "a\x00b/C.sol")).parent.NulFree := by decide
    exact hparent (exists_caseVariant?_iff.1 ⟨found?, hfound⟩)

end FileTree

end SolidityImports
