import SolidityImports.Table
import SolidityImports.Text.Basic

/-! # Cursors

Named readers of one list, each at its own place. What is done with them is a list of moves, and each
move brings an item or none. -/

namespace SolidityImports

/-- What can be done with named readers: one is started, in place of an older one with the same
name, or it is asked for its next item. -/
inductive Move where
  | start (name : Text)
  | advance (name : Text)
deriving DecidableEq

/-- The items that moves bring, one after the other. -/
def answers {σ α : Type} (step : σ → Move → Option α × σ) : σ → List Move → List (Option α)
  | _, [] => []
  | s, move :: moves => (step s move).1 :: answers step (step s move).2 moves

/-- How many items each named cursor has passed. -/
abbrev Cursors := Table Text Nat

namespace Cursors

variable {α : Type}

/-- Puts a cursor at the front, whether it is new or not. -/
def start (cs : Cursors) (name : Text) : Cursors := cs.put name 0

/-- The next item of a cursor, which passes it; `none` at the end of the list. -/
def next (items : List α) (cs : Cursors) (name : Text) : Option α × Cursors :=
  match cs.get? name with
  | none => (none, cs)
  | some n =>
    match items[n]? with
    | none => (none, cs)
    | some item => (some item, cs.put name (n + 1))

theorem next_of_none {items : List α} {cs : Cursors} {name : Text} (h : cs.get? name = none) :
    cs.next items name = (none, cs) := by
  rw [next, h]

theorem next_of_end {items : List α} {cs : Cursors} {name : Text} {n : Nat}
    (h : cs.get? name = some n) (hend : items[n]? = none) : cs.next items name = (none, cs) := by
  rw [next, h]
  simp only [hend]

theorem next_of_item {items : List α} {cs : Cursors} {name : Text} {n : Nat} {item : α}
    (h : cs.get? name = some n) (hitem : items[n]? = some item) :
    cs.next items name = (some item, cs.put name (n + 1)) := by
  rw [next, h]
  simp only [hitem]

/-- What a move brings, and how many items each cursor has passed then. -/
def step (items : List α) (cs : Cursors) : Move → Option α × Cursors
  | .start name => (none, cs.start name)
  | .advance name => cs.next items name

end Cursors

end SolidityImports
