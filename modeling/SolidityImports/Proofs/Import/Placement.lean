import SolidityImports.Proofs.Import.Matches
import SolidityImports.Proofs.Import.Merging

/-! # The places of literals

A scan goes through characters, but the places of the literals that it finds are counted in bytes.
Main statement: the bytes at the place of a literal are its own, between those of its two quotes, and
each literal ends before the next one starts. -/

namespace SolidityImports

open Text

/-- The bytes from one offset up to another one. -/
def Bytes.slice (data : Bytes) (start stop : Int) : Bytes :=
  (data.take stop.toNat).drop start.toNat

/-- A literal stands at its place in the bytes of a source: on one line, between two quotes of one
kind. -/
structure ImportLiteral.StandsIn (l : ImportLiteral) (data : Bytes) : Prop where
  slice : data.slice l.start l.stop = l.text.utf8
  start_pos : 0 < l.start
  start_le_stop : l.start ≤ l.stop
  stop_lt : l.stop < data.length
  quoted : ∃ q ∈ quotes, data.slice (l.start - 1) l.start = utf8 [q] ∧
    data.slice l.stop (l.stop + 1) = utf8 [q]
  oneLine : '\n' ∉ l.text

variable {source front literal back : Text} {q : Char} {m : Nat × Statement}

/-- The bytes of a part are where those of the text before it end. -/
theorem slice_utf8_append (a b c : Text) {start stop : Int} (hstart : start = a.utf8Size)
    (hstop : stop = start + b.utf8Size) : (utf8 (a ++ (b ++ c))).slice start stop = utf8 b := by
  have hto : stop.toNat = a.utf8.length + b.utf8.length := by
    rw [hstop, hstart]
    rfl
  rw [utf8_append, utf8_append, Bytes.slice, hto, hstart, Int.toNat_natCast,
    List.take_length_add_append, List.take_left]
  exact List.drop_left

theorem utf8Size_quote (hq : q ∈ quotes) : utf8Size [q] = 1 := by
  simp only [quotes, List.mem_cons, List.not_mem_nil, or_false] at hq
  rcases hq with rfl | rfl <;> rfl

/-- What is found between two quotes stands there, if its place is right behind the first one. -/
theorem ImportLiteral.standsIn_of_start {found : List Binding} {start : Nat} (hq : q ∈ quotes)
    (hline : '\n' ∉ literal) (hstart : start = front.utf8Size + 1) :
    (⟨literal, found, start, start + literal.utf8Size⟩ : ImportLiteral).StandsIn
      (utf8 (front ++ q :: (literal ++ q :: back))) := by
  have hquote : utf8Size [q] = 1 := utf8Size_quote hq
  have hopen : front ++ q :: (literal ++ q :: back) = front ++ ([q] ++ (literal ++ q :: back)) :=
    rfl
  have hliteral : front ++ q :: (literal ++ q :: back) =
      (front ++ [q]) ++ (literal ++ q :: back) := by simp
  have hclose : front ++ q :: (literal ++ q :: back) =
      (front ++ q :: literal) ++ ([q] ++ back) := by simp
  have hfront : (front ++ [q]).utf8Size = start := by rw [utf8Size_append, hquote, hstart]
  have hbehind : (front ++ q :: literal).utf8Size = start + literal.utf8Size := by
    rw [← hfront, ← utf8Size_append, List.append_assoc, List.singleton_append]
  have hlength : (utf8 (front ++ q :: (literal ++ q :: back))).length =
      start + literal.utf8Size + (1 + back.utf8Size) := by
    rw [hclose, ← hbehind, ← hquote, ← utf8Size_append, ← utf8Size_append]
    rfl
  refine ⟨?_, ?_, ?_, ?_, ⟨q, hq, ?_, ?_⟩, hline⟩
  · rw [hliteral]
    exact slice_utf8_append _ _ _ (by rw [hfront]) rfl
  · dsimp only
    omega
  · dsimp only
    omega
  · dsimp only
    omega
  · rw [hopen]
    exact slice_utf8_append _ _ _ (by dsimp only; omega) (by dsimp only; omega)
  · rw [hclose]
    exact slice_utf8_append _ _ _ (by dsimp only; omega) (by dsimp only; omega)

/-- A statement that a scan finds stands there with its literal between two quotes. -/
theorem exists_eq_of_mem_statements (hm : m ∈ statements source) : ∃ front back,
    source = front ++ m.2.quote :: (m.2.literal ++ m.2.quote :: back) ∧
      m.1 + m.2.lead.utf8Size = front.utf8Size + 1 ∧ m.2.WellFormed := by
  obtain ⟨before, after, hsource, hoffset, hread⟩ :=
    (scan_statementsFrom 0 source).exists_read? m hm
  have hwf : m.2.WellFormed := (Statement.read?_eq_some hread).2
  obtain ⟨up, hlead, -⟩ := hwf.exists_lead_eq
  refine ⟨before ++ up, m.2.behind ++ after, ?_, ?_, hwf⟩
  · rw [hsource, Statement.text_eq, hlead]
    simp
  · rw [← hoffset, hlead, utf8Size_append, utf8Size_append, utf8Size_quote hwf.quote_mem]
    omega

/-- The literal of a statement ends before the statement does. -/
theorem Statement.stop_importLiteral_lt (st : Statement) (offset : Nat) :
    (st.importLiteral offset).stop < offset + st.text.utf8Size := by
  have hclose : 0 < utf8Size (st.quote :: st.behind) := utf8Size_pos (List.cons_ne_nil _ _)
  rw [text_eq, utf8Size_append, utf8Size_append]
  dsimp only [importLiteral]
  omega

theorem Statement.le_start_importLiteral (st : Statement) (offset : Nat) :
    offset ≤ (st.importLiteral offset).start := by
  dsimp only [importLiteral]
  omega

/-- All literals of a source stand in its bytes, one after the other, and are the imported paths. -/
theorem importLiterals_standIn (source : Text) :
    (∀ l ∈ importLiterals source, l.StandsIn source.utf8) ∧
      (importLiterals source).Pairwise (fun l l' ↦ l.stop < l'.start) ∧
      (importLiterals source).map (·.text) = importPaths source := by
  refine ⟨?_, ?_, ?_⟩
  · intro l hl
    obtain ⟨m, hm, rfl⟩ := List.mem_map.1 hl
    obtain ⟨front, back, hsource, hstart, hwf⟩ := exists_eq_of_mem_statements hm
    rw [hsource]
    exact ImportLiteral.standsIn_of_start hwf.quote_mem hwf.literal_not_mem hstart
  · rw [importLiterals, List.pairwise_map]
    refine (scan_statementsFrom 0 source).pairwise.imp fun {m n} hends ↦ ?_
    have hstop := m.2.stop_importLiteral_lt m.1
    have hstart := n.2.le_start_importLiteral n.1
    show (m.2.importLiteral m.1).stop < (n.2.importLiteral n.1).start
    omega
  · rw [importLiterals, List.map_map]
    rfl

end SolidityImports
