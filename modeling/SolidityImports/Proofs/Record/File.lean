import SolidityImports.Proofs.Json.File
import SolidityImports.Proofs.Path.Written

/-! # Records are read back

Main statement: a record that has been written to a file is what is read from it as a record of its
kind, and without a kind the object with all its fields is read. -/

namespace SolidityImports

/-! ## Checks that pass -/

/-- A field of an object with distinct keys is the value that it is listed with. -/
theorem Json.field?_of_mem {fields : List (Text × Json)} {key : Text} {v : Json}
    (hkeys : (fields.map Prod.fst).Nodup) (hmem : (key, v) ∈ fields) :
    field? key fields = some v := by
  rw [field?, find?_key_of_mem hkeys hmem]
  rfl

namespace Checked

variable {α : Type} {f : α → Json} {check : Json → Checked α} {default? : Option α} {key : String}
  {a : α} {v : Json} {fields : List (Text × Json)}

/-- A field of an object with distinct keys passes if its value does. -/
theorem field_of_mem {keys : List Text} (hkeys : keys.Nodup) (hfields : fields.map Prod.fst = keys)
    (hmem : (.of key, v) ∈ fields) (h : check v = .ok a) :
    field key check default? fields = .ok a := by
  subst hfields
  simp only [field, Json.field?_of_mem hkeys hmem, h]
  rfl

/-- A list of checked values passes if all of them do. -/
theorem list_map (h : ∀ x, check (f x) = .ok x) (xs : List α) :
    list check (.list (xs.map f)) = .ok xs := by
  have hitems : ∀ n, itemsFrom check n (xs.map f) = .ok xs := by
    induction xs with
    | nil => exact fun _ ↦ rfl
    | cons x xs ih =>
      intro n
      rw [List.map_cons, itemsFrom, h, ih]
      rfl
  exact hitems 0

/-- A value that may be missing passes if it would pass where it is not. -/
theorem optional_ofOption (h : ∀ x, check (f x) = .ok x) (hnull : ∀ x, f x ≠ .null) (o : Option α) :
    optional check (.ofOption f o) = .ok o := by
  cases o with
  | none => rfl
  | some x =>
    rw [Json.ofOption, optional, h]
    · rfl
    · exact hnull x

end Checked

/-! ## Records as objects -/

/-- The names of the fields of a record, in order. -/
def RecordKind.keys : RecordKind → List Text
  | .binding => [.of "alias", .of "target"]
  | .literal => [.of "path_text", .of "aliases", .of "start", .of "end"]
  | .attempt => [.of "tier", .of "candidate"]
  | .resolution =>
    [.of "import_path", .of "path", .of "canonical", .of "kind", .of "include_path"]

theorem RecordKind.nodup_keys (kind : RecordKind) : kind.keys.Nodup := by
  cases kind <;> decide

open Checked RecordKind

theorem path_toJson (p : Path) : Checked.path p.toJson = .ok p := by
  rw [Path.toJson, Checked.path, Path.ofText_text]

theorem tier_ofJson_text (tier : Tier) : Tier.ofJson (.text tier.text) = .ok tier := by
  simp [Tier.ofJson]

theorem Binding.ofJson_toJson (b : Binding) : ofJson b.toJson = .ok b := by
  have hkeys := nodup_keys .binding
  have htarget : Checked.optional Checked.text (.ofOption .text b.target) = .ok b.target :=
    optional_ofOption (f := .text) (fun _ ↦ rfl) nofun b.target
  rw [ofJson, toJson, object, field_of_mem hkeys (v := .text b.name) (by rfl) (by simp) (by rfl),
    field_of_mem hkeys (by rfl) (by simp) htarget]
  rfl

theorem ImportLiteral.ofJson_toJson (l : ImportLiteral) : ofJson l.toJson = .ok l := by
  have hkeys := nodup_keys .literal
  rw [ofJson, toJson, object, field_of_mem hkeys (v := .text l.text) (by rfl) (by simp) (by rfl),
    field_of_mem hkeys (by rfl) (by simp) (list_map Binding.ofJson_toJson l.bindings),
    field_of_mem hkeys (v := .int l.start) (by rfl) (by simp) (by rfl),
    field_of_mem hkeys (v := .int l.stop) (by rfl) (by simp) (by rfl)]
  rfl

theorem Attempt.ofJson_toJson (a : Attempt) : ofJson a.toJson = .ok a := by
  have hkeys := nodup_keys .attempt
  rw [ofJson, toJson, object, field_of_mem hkeys (v := .text a.tier) (by rfl) (by simp) (by rfl),
    field_of_mem hkeys (by rfl) (by simp) (path_toJson a.candidate)]
  rfl

theorem Resolution.ofJson_toJson (r : Resolution) : ofJson r.toJson = .ok r := by
  have hkeys := nodup_keys .resolution
  have hinclude : Checked.optional Checked.path (.ofOption Path.toJson r.includePath) =
      .ok r.includePath := optional_ofOption path_toJson nofun r.includePath
  rw [ofJson, toJson, object,
    field_of_mem hkeys (v := .text r.importPath) (by rfl) (by simp) (by rfl),
    field_of_mem hkeys (by rfl) (by simp) (path_toJson r.path),
    field_of_mem hkeys (by rfl) (by simp) (path_toJson r.canonical),
    field_of_mem hkeys (by rfl) (by simp) (tier_ofJson_text r.kind),
    field_of_mem hkeys (by rfl) (by simp) hinclude]
  rfl

/-! ## Objects of records -/

theorem Json.isPlain_ofOption {α : Type} {f : α → Json} (h : ∀ a, (f a).IsPlain) (o : Option α) :
    (Json.ofOption f o).IsPlain := by
  cases o with
  | none => exact .null
  | some a => exact h a

theorem Path.isPlain_toJson (p : Path) : p.toJson.IsPlain := .text p.text

theorem Binding.isPlain_toJson (b : Binding) : b.toJson.IsPlain := by
  refine .object (nodup_keys .binding) ?_
  simp only [List.forall_mem_cons]
  exact ⟨.text _, Json.isPlain_ofOption .text _, nofun⟩

theorem ImportLiteral.isPlain_toJson (l : ImportLiteral) : l.toJson.IsPlain := by
  refine .object (nodup_keys .literal) ?_
  simp only [List.forall_mem_cons]
  refine ⟨.text _, .list ?_, .int _, .int _, nofun⟩
  intro v hv
  obtain ⟨b, -, rfl⟩ := List.mem_map.1 hv
  exact b.isPlain_toJson

theorem Attempt.isPlain_toJson (a : Attempt) : a.toJson.IsPlain := by
  refine .object (nodup_keys .attempt) ?_
  simp only [List.forall_mem_cons]
  exact ⟨.text _, a.candidate.isPlain_toJson, nofun⟩

theorem Resolution.isPlain_toJson (r : Resolution) : r.toJson.IsPlain := by
  refine .object (nodup_keys .resolution) ?_
  simp only [List.forall_mem_cons]
  exact ⟨.text _, r.path.isPlain_toJson, r.canonical.isPlain_toJson, .text _,
    Json.isPlain_ofOption Path.isPlain_toJson _, nofun⟩

namespace Record

/-- Every record passes the check of its own object. -/
theorem ofJson_toJson (r : Record) : ofJson r.kind r.toJson = .ok r := by
  cases r with
  | binding b => rw [kind, toJson, ofJson, b.ofJson_toJson]; rfl
  | literal l => rw [kind, toJson, ofJson, l.ofJson_toJson]; rfl
  | attempt a => rw [kind, toJson, ofJson, a.ofJson_toJson]; rfl
  | resolution r => rw [kind, toJson, ofJson, r.ofJson_toJson]; rfl

theorem isPlain_toJson (r : Record) : r.toJson.IsPlain := by
  cases r with
  | binding b => exact b.isPlain_toJson
  | literal l => exact l.isPlain_toJson
  | attempt a => exact a.isPlain_toJson
  | resolution r => exact r.isPlain_toJson

theorem exists_toJson_eq (r : Record) :
    ∃ fields, r.toJson = .object fields ∧ fields.map Prod.fst = r.kind.keys := by
  cases r <;> exact ⟨_, rfl, rfl⟩

/-- A record is read back from the bytes of its file. -/
theorem ofBytes_text (r : Record) : ofBytes r.kind r.text.utf8 = .ok r := by
  have hparse : Json.parse? none r.text = some r.toJson :=
    Json.parse?_print Json.Style.isSpacing_compact r.isPlain_toJson
  rw [ofBytes, Text.ofUtf8?_utf8, Option.bind_some, hparse]
  exact r.ofJson_toJson

end Record

namespace FileTree

variable {t t' : FileTree} {path : Path} {r : Record}

/-- A record is read back from the file to which it was written. Without its kind, the file gives the
object of the record, with all fields in order. -/
theorem readRecord_writeRecord (h : t.writeRecord path r = .ok t') :
    t'.readRecord r.kind path = .ok r ∧ t'.readJson path = .ok r.toJson ∧
      ∃ fields, r.toJson = .object fields ∧ fields.map Prod.fst = r.kind.keys := by
  obtain ⟨loc, hwritten⟩ := exists_isWritten_of_writeText h
  refine ⟨?_, hwritten.readJson Json.Style.isSpacing_compact r.isPlain_toJson, r.exists_toJson_eq⟩
  rw [readRecord, hwritten.readWith, r.ofBytes_text]
  rfl

/-- A literal with bindings of both forms, a control character and a number below zero. -/
def renamingLiteral : Record :=
  .literal ⟨.of "./é\n😀.sol", [⟨.of "A", none⟩, ⟨.of "B", some (.of "C")⟩], -1, 12⟩

theorem readRecord_renamingLiteral : ∃ t',
    danglingLink.writeRecord (.ofText (.of "data/a.json")) renamingLiteral = .ok t' ∧
      t'.readRecord .literal (.ofText (.of "data/a.json")) = .ok renamingLiteral := by
  have hfind : danglingLink.find .write (Path.ofText (.of "data/a.json")).text =
      .ok (.vacant [⟨.of "data", by decide⟩] ⟨.of "a.json", by decide⟩) := by decide +kernel
  obtain ⟨t', hwrite⟩ : ∃ t',
      danglingLink.writeRecord (.ofText (.of "data/a.json")) renamingLiteral = .ok t' := by
    rw [writeRecord, writeText, write, hfind]
    exact ⟨_, rfl⟩
  exact ⟨t', hwrite, (readRecord_writeRecord hwrite).1⟩

end FileTree

end SolidityImports
