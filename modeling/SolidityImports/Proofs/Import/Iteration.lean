import SolidityImports.Import.Iteration
import SolidityImports.Proofs.Import.Matches

/-! # Readers that go at their own pace

Any number of readers can go through one source, each started and advanced at any time. Main
statements: readers that look for the next statement only when they are advanced bring what cursors in
the list of all statements bring; and the items of one reader since its start are those of the whole
list, one after the other and then none, whatever other readers do in between. -/

namespace SolidityImports

variable {α : Type}

/-! ## Moves one after the other -/

section Moves

variable {σ τ : Type} {f : σ → Move → Option α × σ}

/-- What moves lead to. -/
def stateAfter (f : σ → Move → Option α × σ) (s : σ) (moves : List Move) : σ :=
  moves.foldl (fun s move ↦ (f s move).2) s

theorem length_answers (s : σ) (moves : List Move) : (answers f s moves).length = moves.length := by
  induction moves generalizing s with
  | nil => rfl
  | cons move moves ih => rw [answers, List.length_cons, ih, List.length_cons]

theorem answers_append (s : σ) (moves moves' : List Move) : answers f s (moves ++ moves') =
    answers f s moves ++ answers f (stateAfter f s moves) moves' := by
  induction moves generalizing s with
  | nil => rfl
  | cons move moves ih =>
    rw [List.cons_append, answers, answers, ih]
    rfl

/-- What a move brings depends on the moves before it alone. -/
theorem answers_getElem?_length (s : σ) (before after : List Move) (move : Move) :
    (answers f s (before ++ move :: after))[before.length]? =
      some (f (stateAfter f s before) move).1 := by
  have hlength : (answers f s before).length = before.length := length_answers s before
  rw [answers_append, ← hlength, List.getElem?_append_right (Nat.le_refl _), Nat.sub_self]
  rfl

/-- Two systems that stay related and bring the same with every move bring the same all the way. -/
theorem answers_eq_of_simulation {g : τ → Move → Option α × τ} {related : σ → τ → Prop}
    (hstep : ∀ s t move, related s t →
      (f s move).1 = (g t move).1 ∧ related (f s move).2 (g t move).2)
    {s : σ} {t : τ} (h : related s t) (moves : List Move) :
    answers f s moves = answers g t moves := by
  induction moves generalizing s t with
  | nil => rfl
  | cons move moves ih =>
    obtain ⟨hitem, hnext⟩ := hstep s t move h
    rw [answers, answers, hitem, ih hnext]

end Moves

/-! ## What a reader has in front of it -/

namespace Reader

/-- The statements in the rest of the source. -/
def pending (r : Reader) : List (Nat × Statement) := statementsFrom r.offset 0 r.rest

theorem statementsFrom_of_firstFrom?_eq_none {offset : Nat} {s : Text}
    (h : firstFrom? offset s = none) : statementsFrom offset 0 s = [] := by
  induction s generalizing offset with
  | nil => rfl
  | cons c s ih =>
    rw [firstFrom?] at h
    split at h
    · cases h
    · rename_i hread
      rw [statementsFrom_of_read?_eq_none hread, ih h]

theorem statementsFrom_of_firstFrom?_eq_some {offset : Nat} {s : Text} {found : Nat × Statement}
    {r : Reader} (h : firstFrom? offset s = some (found, r)) :
    statementsFrom offset 0 s = found :: r.pending := by
  induction s generalizing offset with
  | nil => cases h
  | cons c s ih =>
    rw [firstFrom?] at h
    split at h
    · rename_i st rest hread
      obtain ⟨rfl, rfl⟩ := Prod.mk.inj (Option.some.inj h)
      obtain ⟨htext, -⟩ := Statement.read?_eq_some hread
      rw [htext] at hread ⊢
      exact statementsFrom_of_read? hread
    · rename_i hread
      rw [statementsFrom_of_read?_eq_none hread, ih h]

/-- A reader brings the first of its statements and keeps the others. -/
theorem next?_cases (r : Reader) : r.next? = none ∧ r.pending = [] ∨
    ∃ found r', r.next? = some (found, r') ∧ r.pending = found :: r'.pending := by
  cases h : r.next? with
  | none => exact .inl ⟨rfl, statementsFrom_of_firstFrom?_eq_none h⟩
  | some next => exact .inr ⟨next.1, next.2, rfl, statementsFrom_of_firstFrom?_eq_some h⟩

end Reader

/-! ## Readers and cursors -/

/-- Under every name there is a reader and a cursor, or neither; and what the reader has in front of
it is what the cursor has not passed. -/
def Follows (source : Text) (readers : Table Text Reader) (cs : Cursors) : Prop :=
  ∀ name, (readers.get? name).map Reader.pending =
    (cs.get? name).map fun n ↦ (statements source).drop n

variable {source : Text} {readers : Table Text Reader} {cs : Cursors} {name : Text}

theorem Follows.put (h : Follows source readers cs) {r : Reader} {n : Nat}
    (hr : r.pending = (statements source).drop n) :
    Follows source (readers.put name r) (cs.put name n) := by
  intro other
  by_cases hother : other = name
  · subst hother
    rw [Table.get?_put_self, Table.get?_put_self]
    exact congrArg some hr
  · rw [Table.get?_put_of_ne _ hother, Table.get?_put_of_ne _ hother]
    exact h other

theorem Follows.advance (scan : ImportScan α) (h : Follows scan.source readers cs) (name : Text) :
    (scan.step readers (.advance name)).1 = (cs.next scan.items name).1 ∧
      Follows scan.source (scan.step readers (.advance name)).2 (cs.next scan.items name).2 := by
  have hname := h name
  cases hreader : readers.get? name with
  | none =>
    rw [hreader] at hname
    have hcursor : cs.get? name = none := Option.map_eq_none_iff.1 hname.symm
    rw [ImportScan.step_advance_of_none (by rw [hreader]; rfl), Cursors.next_of_none hcursor]
    exact ⟨rfl, h⟩
  | some r =>
    rw [hreader] at hname
    obtain ⟨n, hcursor, hpending⟩ := Option.map_eq_some_iff.1 hname.symm
    have hitem : scan.items[n]? = r.pending.head?.map fun found ↦ scan.tell found.1 found.2 := by
      rw [← hpending, List.head?_drop]
      exact List.getElem?_map
    rcases r.next?_cases with ⟨hnext, hr⟩ | ⟨found, r', hnext, hr⟩
    · rw [hr] at hitem
      rw [ImportScan.step_advance_of_none (by rw [hreader]; exact hnext),
        Cursors.next_of_end hcursor hitem]
      exact ⟨rfl, h⟩
    · rw [hr] at hitem
      rw [ImportScan.step_advance_of_some (by rw [hreader]; exact hnext),
        Cursors.next_of_item hcursor hitem]
      refine ⟨rfl, h.put ?_⟩
      rw [← List.drop_drop, hpending, hr]
      rfl

/-- Every move brings the same from readers as from cursors that they follow, and leaves them so. -/
theorem Follows.move (scan : ImportScan α) (h : Follows scan.source readers cs) (move : Move) :
    (scan.step readers move).1 = (cs.step scan.items move).1 ∧
      Follows scan.source (scan.step readers move).2 (cs.step scan.items move).2 := by
  cases move with
  | start name => exact ⟨rfl, h.put rfl⟩
  | advance name => exact h.advance scan name

/-- Reading on from statement to statement brings what the list of all items has at the place. -/
theorem answers_readers (scan : ImportScan α) (moves : List Move) :
    answers scan.step [] moves = answers (Cursors.step scan.items) [] moves := by
  have hstart : Follows scan.source [] [] := fun _ ↦ rfl
  refine answers_eq_of_simulation ?_ hstart moves
  intro readers cs move h
  exact h.move scan move

/-! ## How far a cursor gets -/

namespace Cursors

variable {items : List α} {k : Nat}

theorem get?_step_of_ne (items : List α) (cs : Cursors) {move : Move} (hstart : move ≠ .start name)
    (hadvance : move ≠ .advance name) : (cs.step items move).2.get? name = cs.get? name := by
  cases move with
  | start other =>
    have hne : name ≠ other := fun h ↦ hstart (congrArg Move.start h.symm)
    exact Table.get?_put_of_ne cs hne 0
  | advance other =>
    have hne : name ≠ other := fun h ↦ hadvance (congrArg Move.advance h.symm)
    rw [step]
    cases hcursor : cs.get? other with
    | none => rw [next_of_none hcursor]
    | some n =>
      cases hitem : items[n]? with
      | none => rw [next_of_end hcursor hitem]
      | some item =>
        rw [next_of_item hcursor hitem]
        exact Table.get?_put_of_ne cs hne (n + 1)

theorem next_of_get? (h : cs.get? name = some (min k items.length)) :
    (cs.next items name).1 = items[k]? ∧
      (cs.next items name).2.get? name = some (min (k + 1) items.length) := by
  by_cases hk : k < items.length
  · rw [Nat.min_eq_left (Nat.le_of_lt hk)] at h
    rw [next_of_item h (List.getElem?_eq_getElem hk), Nat.min_eq_left hk]
    exact ⟨(List.getElem?_eq_getElem hk).symm, Table.get?_put_self cs name (k + 1)⟩
  · have hlength : items.length ≤ k := Nat.le_of_not_lt hk
    rw [Nat.min_eq_right hlength] at h
    rw [next_of_end h (List.getElem?_eq_none (Nat.le_refl _)),
      Nat.min_eq_right (Nat.le_succ_of_le hlength)]
    exact ⟨(List.getElem?_eq_none hlength).symm, h⟩

/-- A cursor passes one item with every advance of its own, up to the end of the list. -/
theorem get?_stateAfter (h : cs.get? name = some (min k items.length)) {moves : List Move}
    (hmoves : .start name ∉ moves) :
    (stateAfter (step items) cs moves).get? name =
      some (min (k + moves.count (.advance name)) items.length) := by
  induction moves generalizing cs k with
  | nil => exact h
  | cons move moves ih =>
    obtain ⟨hmove, hrest⟩ := List.ne_and_not_mem_of_not_mem_cons hmoves
    by_cases hadvance : move = .advance name
    · subst hadvance
      rw [List.count_cons_self, Nat.add_comm _ 1, ← Nat.add_assoc]
      exact ih (next_of_get? h).2 hrest
    · rw [List.count_cons_of_ne hadvance]
      refine ih ?_ hrest
      rwa [get?_step_of_ne items cs hmove.symm hadvance]

/-- Since its start, the advances of a cursor bring the items of the list in order and then none. -/
theorem answers_getElem? (items : List α) (before after : List Move) {between : List Move}
    (h : .start name ∉ between) :
    (answers (step items) [] ((before ++ .start name :: between) ++ .advance name :: after))[
      (before ++ .start name :: between).length]? = some items[between.count (.advance name)]? := by
  have hstart : stateAfter (step items) [] (before ++ .start name :: between) =
      stateAfter (step items) ((stateAfter (step items) [] before).start name) between :=
    List.foldl_append
  have hfront : ((stateAfter (step items) [] before).start name).get? name =
      some (min 0 items.length) := by
    rw [Nat.zero_min]
    exact Table.get?_put_self _ name 0
  have hcursor := get?_stateAfter hfront h
  rw [Nat.zero_add] at hcursor
  rw [answers_getElem?_length, hstart]
  exact congrArg some (next_of_get? hcursor).1

end Cursors

/-- What the advances of a reader bring since it was started is the list of all that the source
tells, in order, and then nothing more, whatever is done with other readers before, in between or
behind. -/
theorem answers_inOrder (source : Text) (before between after : List Move) (name : Text)
    (h : .start name ∉ between) :
    (answers (ImportScan.paths source).step []
      ((before ++ .start name :: between) ++ .advance name :: after))[
        (before ++ .start name :: between).length]? =
      some (importPaths source)[between.count (.advance name)]? ∧
    (answers (ImportScan.literals source).step []
      ((before ++ .start name :: between) ++ .advance name :: after))[
        (before ++ .start name :: between).length]? =
      some (importLiterals source)[between.count (.advance name)]? := by
  rw [answers_readers, answers_readers]
  exact ⟨Cursors.answers_getElem? _ before after h, Cursors.answers_getElem? _ before after h⟩

/-- A source with two imports. -/
def twoImports : Text := .of "import \"a.sol\";\nimport \"b.sol\";"

/-- The second item of a reader that was started anew while another one was on its way, and the end
behind the second item. -/
theorem answers_restarted :
    (answers (ImportScan.paths twoImports).step []
      [.start ['r'], .advance ['r'], .start ['s'], .start ['r'], .advance ['s'], .advance ['r'],
        .start ['s'], .advance ['r']])[7]? = some (some (.of "b.sol")) ∧
    (answers (ImportScan.literals twoImports).step []
      [.start ['r'], .advance ['r'], .advance ['r'], .start ['s'], .advance ['r'],
        .advance ['s']])[4]? = some none := by
  have hpaths : importPaths twoImports = [.of "a.sol", .of "b.sol"] := by decide +kernel
  have hliterals : (importLiterals twoImports).length = 2 := by decide +kernel
  constructor
  · refine (answers_inOrder twoImports [.start ['r'], .advance ['r'], .start ['s']]
      [.advance ['s'], .advance ['r'], .start ['s']] [] ['r'] (by decide)).1.trans ?_
    rw [hpaths]
    rfl
  · refine (answers_inOrder twoImports [] [.advance ['r'], .advance ['r'], .start ['s']]
      [.advance ['s']] ['r'] (by decide)).2.trans ?_
    exact congrArg some (List.getElem?_eq_none (Nat.le_of_eq hliterals))

end SolidityImports
