import SolidityImports.Import.Scan
import SolidityImports.Proofs.Import.Statement
import SolidityImports.Proofs.Text.Size

/-! # The matches of a scan

Which statements a scan of a source finds. The scan is described step by step, as passing over a
character at which no statement can be read or as taking a statement and going on behind it. Main
statement: the matches are disjoint and in order, each is the statement with the longest literal at
its place, and no statement starts outside of them. -/

namespace SolidityImports

open Text

/-- The steps of a scan through a text that starts at a byte offset, with the statements it
takes. -/
inductive Scan : Nat → Text → List (Nat × Statement) → Prop
  | done (offset : Nat) : Scan offset [] []
  | skip {offset : Nat} {c : Char} {s : Text} {found : List (Nat × Statement)} :
      Statement.read? (c :: s) = none → Scan (offset + c.utf8Size) s found →
      Scan offset (c :: s) found
  | take {offset : Nat} {st : Statement} {rest : Text} {found : List (Nat × Statement)} :
      Statement.read? (st.text ++ rest) = some (st, rest) →
      Scan (offset + st.text.utf8Size) rest found →
      Scan offset (st.text ++ rest) ((offset, st) :: found)

variable {offset : Nat} {s rest before after : Text} {st : Statement}
  {found : List (Nat × Statement)}

theorem Statement.exists_text_eq_import_append (st : Statement) :
    ∃ t, st.text = Text.of "import" ++ t := by
  cases st <;> exact ⟨_, by simp only [text, lead, List.append_assoc]; rfl⟩

theorem Statement.text_ne_nil (st : Statement) : st.text ≠ [] := by
  obtain ⟨t, htext⟩ := st.exists_text_eq_import_append
  rw [htext]
  exact List.cons_ne_nil _ _

/-- A scan goes on behind the characters that it has passed. -/
theorem statementsFrom_append (offset : Nat) (a s : Text) :
    statementsFrom offset a.length (a ++ s) = statementsFrom (offset + a.utf8Size) 0 s := by
  induction a generalizing offset with
  | nil => rfl
  | cons c a ih =>
    rw [List.cons_append, List.length_cons, statementsFrom, ih, utf8Size_cons, Nat.add_assoc]

theorem statementsFrom_of_read? (h : Statement.read? (st.text ++ rest) = some (st, rest)) :
    statementsFrom offset 0 (st.text ++ rest) =
      (offset, st) :: statementsFrom (offset + st.text.utf8Size) 0 rest := by
  obtain ⟨c, t, htext⟩ := List.exists_cons_of_ne_nil st.text_ne_nil
  rw [htext, List.cons_append] at h ⊢
  rw [statementsFrom, h]
  simp only [htext, List.length_cons, Nat.add_sub_cancel, statementsFrom_append, utf8Size_cons,
    Nat.add_assoc]

theorem statementsFrom_of_read?_eq_none {c : Char} (h : Statement.read? (c :: s) = none) :
    statementsFrom offset 0 (c :: s) = statementsFrom (offset + c.utf8Size) 0 s := by
  rw [statementsFrom, h]

/-- Finding statements goes through the steps of a scan. -/
theorem scan_statementsFrom (offset : Nat) (s : Text) :
    Scan offset s (statementsFrom offset 0 s) := by
  -- By the length of the text: a statement is left behind as a whole.
  induction hn : s.length using Nat.strongRecOn generalizing offset s with
  | ind n ih =>
  subst hn
  cases s with
  | nil => exact .done offset
  | cons c s =>
    cases hread : Statement.read? (c :: s) with
    | none =>
      rw [statementsFrom_of_read?_eq_none hread]
      exact .skip hread (ih s.length (Nat.lt_succ_self _) _ s rfl)
    | some x =>
      obtain ⟨st, rest⟩ := x
      obtain ⟨htext, -⟩ := Statement.read?_eq_some hread
      have hlength : rest.length < (c :: s).length := by
        rw [htext, List.length_append]
        have hpos := List.length_pos_iff.2 st.text_ne_nil
        omega
      rw [htext] at hread ⊢
      rw [statementsFrom_of_read? hread]
      exact .take hread (ih rest.length hlength _ rest rfl)

/-! ## What a scan finds -/

namespace Scan

theorem offset_le (h : Scan offset s found) : ∀ m ∈ found, offset ≤ m.1 := by
  induction h with
  | done offset =>
    intro m hm
    cases hm
  | skip hread hscan ih =>
    intro m hm
    exact Nat.le_trans (Nat.le_add_right _ _) (ih m hm)
  | take hread hscan ih =>
    rw [List.forall_mem_cons]
    constructor
    · exact Nat.le_refl _
    · intro m hm
      exact Nat.le_trans (Nat.le_add_right _ _) (ih m hm)

theorem pairwise (h : Scan offset s found) :
    found.Pairwise fun a b ↦ a.1 + a.2.text.utf8Size ≤ b.1 := by
  induction h with
  | done offset => exact .nil
  | skip hread hscan ih => exact ih
  | take hread hscan ih => exact .cons hscan.offset_le ih

/-- Each match stands at its offset, and is what is read there. -/
theorem exists_read? (h : Scan offset s found) : ∀ m ∈ found, ∃ before after,
    s = before ++ (m.2.text ++ after) ∧ offset + before.utf8Size = m.1 ∧
      Statement.read? (m.2.text ++ after) = some (m.2, after) := by
  induction h with
  | done offset =>
    intro m hm
    cases hm
  | @skip offset c s found hread hscan ih =>
    intro m hm
    obtain ⟨before, after, rfl, hoffset, hmatch⟩ := ih m hm
    refine ⟨c :: before, after, rfl, ?_, hmatch⟩
    rw [utf8Size_cons, ← Nat.add_assoc, hoffset]
  | @take offset st rest found hread hscan ih =>
    rw [List.forall_mem_cons]
    constructor
    · exact ⟨[], rest, rfl, rfl, hread⟩
    · intro m hm
      obtain ⟨before, after, rfl, hoffset, hmatch⟩ := ih m hm
      refine ⟨st.text ++ before, after, by simp, ?_, hmatch⟩
      rw [utf8Size_append, ← Nat.add_assoc, hoffset]

/-- No well-formed statement starts outside of the matches. -/
theorem exists_mem_covering (h : Scan offset s found) (hst : st.WellFormed)
    (hs : s = before ++ (st.text ++ after)) :
    ∃ m ∈ found, m.1 ≤ offset + before.utf8Size ∧
      offset + before.utf8Size < m.1 + m.2.text.utf8Size := by
  induction h generalizing before with
  | done offset => exact absurd hs.symm (by simp [st.text_ne_nil])
  | skip hread hscan ih =>
    cases before with
    | nil =>
      obtain ⟨st', rest', hst', -⟩ := Statement.exists_read?_text hst after
      rw [hs, List.nil_append, hst'] at hread
      contradiction
    | cons c before =>
      obtain ⟨rfl, rfl⟩ := List.cons.inj hs
      obtain ⟨m, hm, hcover⟩ := ih rfl
      refine ⟨m, hm, ?_⟩
      rwa [utf8Size_cons, ← Nat.add_assoc]
  | @take offset taken rest found hread hscan ih =>
    rcases List.append_eq_append_iff.1 hs with ⟨more, rfl, hrest⟩ | ⟨more, htaken, hmore⟩
    · obtain ⟨m, hm, hcover⟩ := ih hrest
      refine ⟨m, List.mem_cons_of_mem _ hm, ?_⟩
      rwa [utf8Size_append, ← Nat.add_assoc]
    · cases more with
      | nil =>
        have hbehind : rest = [] ++ (st.text ++ after) := hmore.symm
        obtain ⟨m, hm, hcover⟩ := ih hbehind
        refine ⟨m, List.mem_cons_of_mem _ hm, ?_⟩
        rwa [htaken, List.append_nil] at hcover
      | cons c more =>
        refine ⟨(offset, taken), List.mem_cons_self, Nat.le_add_right _ _, ?_⟩
        have hpos := utf8Size_pos (List.cons_ne_nil c more)
        rw [htaken, utf8Size_append]
        omega

end Scan

/-- A statement stands in a source at a byte offset. -/
def Statement.StandsAt (st : Statement) (source : Text) (offset : Nat) : Prop :=
  ∃ before after, source = before ++ (st.text ++ after) ∧ before.utf8Size = offset

/-- What the matches of a source are, each with the offset of its first byte. -/
structure AreMatches (source : Text) (found : List (Nat × Statement)) : Prop where
  /-- A match ends before the next one starts. -/
  disjoint : found.Pairwise fun a b ↦ a.1 + a.2.text.utf8Size ≤ b.1
  /-- The matches are well-formed statements of the source. -/
  sound : ∀ m ∈ found, m.2.WellFormed ∧ m.2.StandsAt source m.1
  /-- A match has the longest literal at its place. -/
  longest : ∀ m ∈ found, ∀ st : Statement, st.WellFormed → st.StandsAt source m.1 →
    st = m.2 ∨ st.literal.length < m.2.literal.length
  /-- No statement starts outside of the matches. -/
  complete : ∀ (st : Statement) (offset : Nat), st.WellFormed → st.StandsAt source offset →
    ∃ m ∈ found, m.1 ≤ offset ∧ offset < m.1 + m.2.text.utf8Size

/-- A scan of any source finds its matches, from which the paths and the literals are taken. -/
theorem areMatches_statements (source : Text) :
    AreMatches source (statements source) ∧
      importPaths source = (statements source).map (fun m ↦ m.2.literal) ∧
      importLiterals source = (statements source).map fun m ↦ m.2.importLiteral m.1 := by
  have hscan : Scan 0 source (statements source) := scan_statementsFrom 0 source
  refine ⟨⟨hscan.pairwise, ?_, ?_, ?_⟩, rfl, rfl⟩
  · intro m hm
    obtain ⟨before, after, hsource, hoffset, hread⟩ := hscan.exists_read? m hm
    rw [Nat.zero_add] at hoffset
    exact ⟨(Statement.read?_eq_some hread).2, before, after, hsource, hoffset⟩
  · rintro m hm st hst ⟨before', after', hsource', hoffset'⟩
    obtain ⟨before, after, hsource, hoffset, hread⟩ := hscan.exists_read? m hm
    rw [Nat.zero_add] at hoffset
    obtain rfl : before = before' :=
      eq_of_utf8Size_eq (hsource.symm.trans hsource') (hoffset.trans hoffset'.symm)
    have htext : m.2.text ++ after = st.text ++ after' :=
      List.append_cancel_left (hsource.symm.trans hsource')
    obtain ⟨st', rest', hread', hlonger⟩ := Statement.exists_read?_text hst after'
    rw [← htext, hread] at hread'
    obtain ⟨rfl, -⟩ := Prod.mk.inj (Option.some.inj hread')
    exact hlonger.imp_left Eq.symm
  · rintro st offset hst ⟨before, after, hsource, rfl⟩
    simpa only [Nat.zero_add] using hscan.exists_mem_covering hst hsource

end SolidityImports
