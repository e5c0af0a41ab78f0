/-! # Text

Text is a list of characters, so that reading, splitting and writing it are functions by
recursion on the list. -/

namespace SolidityImports

/-- Text, character by character. -/
abbrev Text := List Char

namespace Text

/-- The text of a string literal. -/
def of (s : String) : Text := s.toList

/-- What follows `word` at the front of `s`; `none` if `s` does not start with `word`. -/
def after? : Text → Text → Option Text
  | [], s => some s
  | _ :: _, [] => none
  | c :: word, d :: s => if c = d then after? word s else none

@[simp] theorem after?_nil (s : Text) : after? [] s = some s := rfl

/-- A word is followed by `rest` exactly if the text is the word and then `rest`. -/
theorem after?_eq_some_iff {word s rest : Text} : after? word s = some rest ↔ s = word ++ rest := by
  induction word generalizing s with
  | nil => simp [eq_comm]
  | cons c word ih =>
    cases s with
    | nil => simp [after?]
    | cons d s => by_cases h : c = d <;> simp [after?, h, ih, eq_comm]

/-- The pieces between the occurrences of a separator; empty pieces are kept. -/
def pieces (sep : Char) : Text → List Text
  | [] => [[]]
  | c :: s =>
    if c = sep then [] :: pieces sep s
    else match pieces sep s with
      | [] => [[c]]
      | p :: ps => (c :: p) :: ps

theorem pieces_ne_nil (sep : Char) (s : Text) : pieces sep s ≠ [] := by
  cases s with
  | nil => simp [pieces]
  | cons c s =>
    unfold pieces
    split
    · simp
    · split <;> simp

/-- No piece holds the separator. -/
theorem not_mem_of_mem_pieces {sep : Char} {s p : Text} (h : p ∈ pieces sep s) : sep ∉ p := by
  induction s generalizing p with
  | nil => simp_all [pieces]
  | cons c s ih =>
    unfold pieces at h
    split at h
    · rcases List.mem_cons.1 h with rfl | h
      · simp
      · exact ih h
    · rename_i hc
      split at h
      · obtain rfl := List.mem_singleton.1 h
        simpa using Ne.symm hc
      · rename_i q qs hq
        rcases List.mem_cons.1 h with rfl | h
        · have hp : sep ∉ q := ih (hq ▸ List.mem_cons_self)
          simpa [hp] using Ne.symm hc
        · exact ih (hq ▸ List.mem_cons_of_mem _ h)

/-- The order of texts by their characters, first difference first. It is also the order of
their UTF-8 bytes. -/
def le : Text → Text → Bool
  | [], _ => true
  | _ :: _, [] => false
  | c :: s, d :: t => c < d || (c == d && le s t)

/-- Joins pieces with a separator between each two. -/
def joinWith (sep : Text) : List Text → Text
  | [] => []
  | [p] => p
  | p :: q :: ps => p ++ sep ++ joinWith sep (q :: ps)

end Text

end SolidityImports
