/-! # Tables

A table is a list of keys with values. Main statements: looking up a key right after a value was put
under it or under another key, and looking up a key that is listed. -/

namespace SolidityImports

/-- Values under keys; of several values under one key the first counts. -/
abbrev Table (α β : Type) := List (α × β)

namespace Table

variable {α β : Type} [DecidableEq α]

/-- Puts a value under a key, in place of what stood there. -/
def put (table : Table α β) (a : α) (b : β) : Table α β := (a, b) :: table.filter (·.1 ≠ a)

/-- The value under a key. -/
def get? (table : Table α β) (a : α) : Option β := (table.find? (·.1 = a)).map Prod.snd

@[simp] theorem get?_put_self (table : Table α β) (a : α) (b : β) :
    (table.put a b).get? a = some b := by
  simp [get?, put]

theorem get?_put_of_ne (table : Table α β) {a other : α} (h : other ≠ a) (b : β) :
    (table.put a b).get? other = table.get? other := by
  simp only [get?, put, List.find?_cons, Ne.symm h, decide_false, List.find?_filter]
  congr 2
  funext x
  by_cases hx : x.1 = other <;> simp [hx, h]

end Table

/-- In a table with distinct keys, a key is found with what is listed for it. -/
theorem find?_key_of_mem {α β : Type} [DecidableEq α] {table : List (α × β)} {a : α} {b : β}
    (hkeys : (table.map Prod.fst).Nodup) (hmem : (a, b) ∈ table) :
    table.find? (·.1 = a) = some (a, b) := by
  induction table with
  | nil => cases hmem
  | cons x table ih =>
    obtain ⟨hx, htable⟩ := List.nodup_cons.1 hkeys
    rcases List.mem_cons.1 hmem with rfl | hmem
    · exact List.find?_cons_of_pos (by simp)
    · have hne : x.1 ≠ a := fun heq ↦ hx (heq ▸ List.mem_map_of_mem hmem)
      rw [List.find?_cons_of_neg (by simpa using hne), ih htable hmem]

end SolidityImports
