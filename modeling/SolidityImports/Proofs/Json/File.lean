import SolidityImports.Json.File
import SolidityImports.Proofs.FileTree.Write
import SolidityImports.Proofs.Json.Encoding

/-! # JSON files are read back

Main statement: a value that has been written to a file, where this succeeds, is what the file holds
and what is read from it, and nothing else in the tree has changed. -/

namespace SolidityImports.FileTree

variable {t t' : FileTree} {path : Path} {s : Text} {content : Bytes} {loc : Location} {v : Json}

/-- Writing a text that succeeds has written its bytes somewhere. -/
theorem exists_isWritten_of_writeText (h : t.writeText path s = .ok t') :
    ∃ loc, t.IsWritten t' path.text s.utf8 loc := by
  refine exists_isWritten_of_write ?_
  rw [writeText] at h
  cases hwrite : t.write path.text s.utf8 with
  | error f =>
    rw [hwrite] at h
    cases h
  | ok written =>
    rw [hwrite] at h
    cases h
    rfl

/-- A reader of bytes is given what was written. -/
theorem IsWritten.readWith {α : Type} (h : t.IsWritten t' path.text content loc)
    (read : Bytes → Except JsonCause α) :
    t'.readWith read path = (read content).mapError (.invalidJson path) := by
  rw [FileTree.readWith, h.read]

/-- What was printed in one of the styles is read back as a JSON value. -/
theorem IsWritten.readJson {style : Json.Style} (hstyle : style.IsSpacing) (hv : v.IsPlain)
    (h : t.IsWritten t' path.text (v.print style).utf8 loc) : t'.readJson path = .ok v := by
  rw [FileTree.readJson, h.readWith]
  simp only [hv.decode?_print hstyle, Json.parse?_print hstyle hv]
  rfl

/-- A value without loss is read back from the file to which it was written. The file holds printing
characters only. -/
theorem readJson_writeJson (hv : v.IsPlain) (h : t.writeJson path v = .ok t') :
    t'.readJson path = .ok v ∧ ∃ content loc, t.IsWritten t' path.text content loc ∧
      ∀ b ∈ content, 0x20 ≤ b.toNat ∧ b.toNat ≤ 0x7E := by
  obtain ⟨loc, hwritten⟩ := exists_isWritten_of_writeText h
  exact ⟨hwritten.readJson Json.Style.isSpacing_spaced hv, _, loc, hwritten,
    hv.byte_range Json.Style.isSpacing_spaced rfl⟩

/-- A link that leads to a free name. -/
def danglingLink : FileTree where
  entries := [([⟨.of "new.json", by decide⟩], .link (.of "data/b.json")),
    ([⟨.of "data", by decide⟩], .directory)]
  distinct := by decide
  workDir := []

/-- A value of nested lists and objects. -/
def nestedValue : Json :=
  .object [(.of "b", .list [.null, .bool true, .int (-12), .float .nan]),
    (.of "", .object [(.of "\\u0041", .text (.of "é\"\n😀"))]), (.of "a", .int 0)]

theorem isPlain_nestedValue : nestedValue.IsPlain := by
  refine .object (by decide) ?_
  simp only [List.forall_mem_cons]
  refine ⟨.list ?_, .object (by decide) ?_, .int 0, nofun⟩
  · simp only [List.forall_mem_cons]
    exact ⟨.null, .bool true, .int _, .nan, nofun⟩
  · simp only [List.forall_mem_cons]
    exact ⟨.text _, nofun⟩

/-- The target of the link is made, and gives back what was written. -/
theorem readJson_danglingLink : nestedValue.IsPlain ∧ ∃ t',
    danglingLink.writeJson (.ofText (.of "new.json")) nestedValue = .ok t' ∧
      t'.readJson (.ofText (.of "new.json")) = .ok nestedValue := by
  have hfind : danglingLink.find .write (Path.ofText (.of "new.json")).text =
      .ok (.vacant [⟨.of "data", by decide⟩] ⟨.of "b.json", by decide⟩) := by decide +kernel
  obtain ⟨t', hwrite⟩ : ∃ t',
      danglingLink.writeJson (.ofText (.of "new.json")) nestedValue = .ok t' := by
    rw [writeJson, writeText, write, hfind]
    exact ⟨_, rfl⟩
  exact ⟨isPlain_nestedValue, t', hwrite, (readJson_writeJson isPlain_nestedValue hwrite).1⟩

end SolidityImports.FileTree
