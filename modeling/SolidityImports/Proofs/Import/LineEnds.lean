import Mathlib.Data.Bool.AllAny
import Mathlib.Data.List.DropRight
import SolidityImports.Proofs.Import.Placement
import SolidityImports.Proofs.Text.Encoding
import SolidityImports.Proofs.Text.Newline
import SolidityImports.Source.File

/-! # The places of literals in a file

A source is read with its line ends made newlines, and the places of its literals are counted in what
was read. Main statement: in the file a literal stands as many bytes later as there are carriage
returns in front of newlines before it. Its place is its own in the file only if there are none, or if
the file happens to hold the same bytes there. -/

namespace SolidityImports

open Text

/-- A literal at a place so many bytes later. -/
def ImportLiteral.moved (l : ImportLiteral) (n : Nat) : ImportLiteral :=
  ⟨l.text, l.bindings, l.start + n, l.stop + n⟩

/-- A literal stands between two quotes in a file, and has its place in the text that is read. -/
structure ImportLiteral.StandsBehind (l : ImportLiteral) (source before : Text) (q : Char) :
    Prop where
  quote_mem : q ∈ quotes
  eq : ∃ after, source = before ++ q :: (l.text ++ q :: after)
  oneLine : '\n' ∉ l.text
  start : l.start = before.unifyNewlines.utf8Size + 1
  stop : l.stop = l.start + l.text.utf8Size

variable {l : ImportLiteral} {source before : Text} {q : Char}

/-- What is found in the text that is read stands in the file. -/
theorem exists_standsBehind (h : l ∈ importLiterals source.unifyNewlines) :
    ∃ before q, l.StandsBehind source before q := by
  obtain ⟨m, hm, rfl⟩ := List.mem_map.1 h
  obtain ⟨front, back, hread, hstart, hwf⟩ := exists_eq_of_mem_statements hm
  have hquote : m.2.quote ≠ '\n' := fun h ↦ absurd (h ▸ hwf.quote_mem) (by decide)
  obtain ⟨before, rest, rfl, rfl, hrest⟩ := exists_of_unifyNewlines_eq hquote hread
  obtain ⟨after, rfl⟩ := exists_of_unifyNewlines_eq_append hwf.literal_not_mem hquote hrest
  refine ⟨before, m.2.quote, hwf.quote_mem, ⟨after, rfl⟩, hwf.literal_not_mem, ?_, rfl⟩
  exact congrArg Nat.cast hstart

/-- Bytes as many as a part has, taken from before it on. -/
theorem slice_append_eq (front part back : Bytes) (n : Nat) :
    ((front ++ (part ++ back)).take (front.length - n + part.length)).drop (front.length - n) =
      (front.rtake n ++ part).take part.length := by
  rw [List.drop_take, List.drop_append_of_le_length (Nat.sub_le _ _), Nat.add_sub_cancel_left,
    ← List.append_assoc, List.take_append_of_le_length (by simp), List.rtake]

namespace ImportLiteral.StandsBehind

/-- In the file a literal stands later than in the text that is read, by the bytes that are lost. -/
theorem standsIn_moved (h : l.StandsBehind source before q) :
    (l.moved before.pairedReturns).StandsIn source.utf8 := by
  obtain ⟨after, rfl⟩ := h.eq
  have hsize := utf8Size_unifyNewlines_add before
  have hmoved : l.moved before.pairedReturns = ⟨l.text, l.bindings, (before.utf8Size + 1 : Nat),
      (before.utf8Size + 1 : Nat) + l.text.utf8Size⟩ := by
    rw [moved, h.stop, h.start]
    congr 1 <;> omega
  rw [hmoved]
  exact ImportLiteral.standsIn_of_start h.quote_mem h.oneLine rfl

/-- The bytes at the place of a literal are its own in the file exactly if the literal starts what the
bytes lost before it and its own bytes make together. -/
theorem slice_eq_iff (h : l.StandsBehind source before q) :
    source.utf8.slice l.start l.stop = l.text.utf8 ↔
      l.text.utf8 <+: (utf8 (before ++ [q])).rtake before.pairedReturns ++ l.text.utf8 := by
  obtain ⟨after, rfl⟩ := h.eq
  have hsize := utf8Size_unifyNewlines_add before
  have hfront : (utf8 (before ++ [q])).length = before.utf8Size + 1 := by
    rw [← utf8Size_quote h.quote_mem]
    exact utf8Size_append before [q]
  have hstart : l.start.toNat = (utf8 (before ++ [q])).length - before.pairedReturns := by
    rw [hfront, h.start]
    omega
  have hstop : l.stop.toNat = l.start.toNat + l.text.utf8.length := by
    have hlength : l.text.utf8.length = l.text.utf8Size := rfl
    rw [h.stop, h.start, hlength]
    omega
  have hsource : utf8 (before ++ q :: (l.text ++ q :: after)) =
      utf8 (before ++ [q]) ++ (l.text.utf8 ++ utf8 (q :: after)) := by
    rw [← utf8_append, ← utf8_append]
    simp
  rw [Bytes.slice, hsource, hstop, hstart, slice_append_eq, List.prefix_iff_eq_take, eq_comm]

/-- They are not if the literal has room for all these bytes, of which the last one is its quote, and
holds no such quote. -/
theorem slice_ne (h : l.StandsBehind source before q) (hpos : 0 < before.pairedReturns)
    (hle : before.pairedReturns ≤ l.text.utf8Size) (hq : q ∉ l.text) :
    source.utf8.slice l.start l.stop ≠ l.text.utf8 := by
  rw [Ne, h.slice_eq_iff]
  intro hprefix
  have hascii : ∀ c ∈ quotes, c.toNat < 0x80 ∧ utf8 [c] = [UInt8.ofNat c.toNat] :=
    List.all_iff_forall_prop.1 (by decide)
  obtain ⟨hlt, hbyte⟩ := hascii q h.quote_mem
  have hlost : ((utf8 (before ++ [q])).rtake before.pairedReturns).length =
      before.pairedReturns := by
    have hsize := utf8Size_unifyNewlines_add before
    have hfront : (utf8 (before ++ [q])).length = before.utf8Size + utf8Size [q] :=
      utf8Size_append before [q]
    rw [List.rtake, List.length_drop, hfront]
    omega
  have hpart : (utf8 (before ++ [q])).rtake before.pairedReturns <+: l.text.utf8 :=
    List.prefix_of_prefix_length_le (List.prefix_append _ _) hprefix (hlost.trans_le hle)
  have hend : [UInt8.ofNat q.toNat] <:+ (utf8 (before ++ [q])).rtake before.pairedReturns := by
    refine List.suffix_of_suffix_length_le ?_ (List.drop_suffix _ _) (hpos.trans_eq hlost.symm)
    rw [utf8_append, hbyte]
    exact List.suffix_append _ _
  have hmem := hpart.subset (hend.subset List.mem_cons_self)
  exact hq (mem_of_byte_mem_utf8 hlt hmem)

end ImportLiteral.StandsBehind

/-- A source is read with newlines for all line ends. In the file each literal then stands as many
bytes later as there are carriage returns in front of newlines before it; at its own place it stands if
there are none, and otherwise only if the file repeats itself there, which it does not if the literal
is at least as long as that and holds no quote of its kind. -/
theorem literal_place_in_file_iff {t : FileTree} {p : Path} (hread : t.read p.text = .ok source.utf8) :
    t.readSource p = .ok source.unifyNewlines ∧ ∀ l ∈ importLiterals source.unifyNewlines,
      (∃ before q, l.StandsBehind source before q) ∧ ∀ before q, l.StandsBehind source before q →
        (l.moved before.pairedReturns).StandsIn source.utf8 ∧
        (source.utf8.slice l.start l.stop = l.text.utf8 ↔ before.pairedReturns = 0 ∨
          l.text.utf8 <+: (utf8 (before ++ [q])).rtake before.pairedReturns ++ l.text.utf8) ∧
        (0 < before.pairedReturns → before.pairedReturns ≤ l.text.utf8Size → q ∉ l.text →
          source.utf8.slice l.start l.stop ≠ l.text.utf8) := by
  constructor
  · rw [FileTree.readSource, hread]
    simp only [ofUtf8?_utf8]
  · intro l hl
    refine ⟨exists_standsBehind hl, fun before q h ↦ ⟨h.standsIn_moved, ?_, h.slice_ne⟩⟩
    rw [h.slice_eq_iff, iff_or_self]
    intro hnone
    simp [hnone]

/-- A file system with one source. -/
def sourceTree (source : Text) : FileTree where
  entries := [([⟨.of "M.sol", by decide⟩], .file source.utf8)]
  distinct := by simp
  workDir := []

/-- A source with a byte order mark, a return and a newline alone, and both together at its end. -/
def markedSource : Text := .of "\uFEFF// A\r// B\nimport \"A.sol\";\r\n"

theorem literal_place_marked :
    (sourceTree markedSource).read (Path.ofText (.of "M.sol")).text = .ok markedSource.utf8 ∧
      (sourceTree markedSource).readSource (.ofText (.of "M.sol")) =
        .ok markedSource.unifyNewlines ∧
      ∃ l ∈ importLiterals markedSource.unifyNewlines, l.text = .of "A.sol" ∧
        markedSource.utf8.slice l.start l.stop = utf8 (.of "A.sol") := by
  have hread : (sourceTree markedSource).read (Path.ofText (.of "M.sol")).text =
      .ok markedSource.utf8 := rfl
  have hfound : importLiterals markedSource.unifyNewlines = [⟨.of "A.sol", [], 21, 26⟩] := by
    decide +kernel
  obtain ⟨hsource, hplaces⟩ := literal_place_in_file_iff hread
  rw [hfound] at hplaces ⊢
  refine ⟨hread, hsource, _, List.mem_cons_self, rfl, ?_⟩
  have hstands : ImportLiteral.StandsBehind ⟨.of "A.sol", [], 21, 26⟩ markedSource
      (.of "\uFEFF// A\r// B\nimport ") '"' :=
    ⟨by decide, ⟨Text.of ";\r\n", by decide⟩, by decide, by decide, by decide⟩
  exact ((hplaces _ List.mem_cons_self).2 _ _ hstands).2.1.2 (.inl (by decide))

/-- A source whose first line ends in a return and a newline. -/
def pairedSource : Text := .of "//\r\nimport \"A.sol\";"

/-- Behind such a line the place of a literal is one byte off in the file, at its quote. -/
theorem literal_place_paired :
    (sourceTree pairedSource).readSource (.ofText (.of "M.sol")) =
        .ok pairedSource.unifyNewlines ∧
      ∃ l ∈ importLiterals pairedSource.unifyNewlines, l.text = .of "A.sol" ∧
        pairedSource.utf8.slice l.start l.stop = utf8 (.of "\"A.so") ∧
        pairedSource.utf8.slice l.start l.stop ≠ l.text.utf8 := by
  refine ⟨?_, by decide +kernel⟩
  have hread : (sourceTree pairedSource).read (Path.ofText (.of "M.sol")).text =
      .ok pairedSource.utf8 := rfl
  rw [FileTree.readSource, hread]
  simp only [ofUtf8?_utf8]

end SolidityImports
