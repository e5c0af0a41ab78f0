import SolidityImports.Link.Keccak

/-! # Link placeholders

A compiler leaves a placeholder in the bytecode where the address of a linked library belongs. Main
statement: both forms of placeholder have 36 characters. -/

namespace SolidityImports.Link

/-- The name of a library: a text, or bytes that are taken as they are. -/
inductive LibraryName where
  | text (s : Text)
  | bytes (b : Bytes)
deriving DecidableEq

namespace LibraryName

/-- The bytes that stand for a name. -/
def encoded : LibraryName → Bytes
  | .text s => s.utf8
  | .bytes b => b

instance : Coe Text LibraryName := ⟨.text⟩

instance : Coe Bytes LibraryName := ⟨.bytes⟩

end LibraryName

/-- The number of bytes of a library's hash. -/
def hashLength : Nat := 17

/-- The number of characters of a placeholder. -/
def placeholderLength : Nat := 36

/-- The hash of a library's name: the first bytes of its Keccak-256 hash. -/
def libraryHash (name : LibraryName) : Bytes := (Keccak.digest name.encoded).take hashLength

/-- The hash of a library's name between dollar signs. -/
def hashPlaceholder (name : LibraryName) : Text := '$' :: (libraryHash name).hex ++ ['$']

/-- The older placeholder: the start of the name, filled up with underscores. -/
def namePlaceholder (name : Text) : Text :=
  let start := name.take placeholderLength
  start ++ List.replicate (placeholderLength - start.length) '_'

@[simp] theorem length_libraryHash (name : LibraryName) :
    (libraryHash name).length = hashLength := by
  simp [libraryHash, hashLength]

theorem length_hashPlaceholder (name : LibraryName) :
    (hashPlaceholder name).length = placeholderLength := by
  simp [hashPlaceholder, placeholderLength, hashLength]

theorem length_namePlaceholder (name : Text) :
    (namePlaceholder name).length = placeholderLength := by
  simp only [namePlaceholder, List.length_append, List.length_take, List.length_replicate]
  omega

end SolidityImports.Link
