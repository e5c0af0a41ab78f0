import SolidityImports.Json.Basic

/-! # Checking records

A record is read from a JSON value by checks that name every problem they find, each with the place
of the value that has it. -/

namespace SolidityImports

/-- What is wrong with a value. -/
inductive ProblemKind where
  | missing
  | notText
  | notInteger
  | textWithoutInteger
  | numberWithFraction
  | numberNotFinite
  | notList
  | notPath
  | notAllowed
  | notObject
  | notJson
deriving DecidableEq

/-- The word for a kind of problem. -/
def ProblemKind.text : ProblemKind → Text
  | .missing => .of "missing"
  | .notText => .of "string_type"
  | .notInteger => .of "int_type"
  | .textWithoutInteger => .of "int_parsing"
  | .numberWithFraction => .of "int_from_float"
  | .numberNotFinite => .of "finite_number"
  | .notList => .of "list_type"
  | .notPath => .of "path_type"
  | .notAllowed => .of "literal_error"
  | .notObject => .of "model_type"
  | .notJson => .of "json_invalid"

/-- A problem, with the keys and indices that lead to its place. -/
structure Problem where
  place : List Text
  kind : ProblemKind
deriving DecidableEq

/-- What a check finds: a value, or all problems in order. -/
abbrev Checked (α : Type) := Except (List Problem) α

namespace Checked

variable {α β γ : Type}

/-- A single problem with the value at hand. -/
def problem (kind : ProblemKind) : Checked α := .error [⟨[], kind⟩]

/-- Says that problems are at a key or an index. -/
def at_ (key : Text) (x : Checked α) : Checked α :=
  x.mapError (·.map fun p ↦ ⟨key :: p.place, p.kind⟩)

/-- Combines two checks; the problems of both are kept. -/
def both (f : α → β → γ) (x : Checked α) (y : Checked β) : Checked γ :=
  match x, y with
  | .ok a, .ok b => .ok (f a b)
  | .ok _, .error ps => .error ps
  | .error ps, .ok _ => .error ps
  | .error ps, .error qs => .error (ps ++ qs)

/-- Applies a checked function to a checked argument. -/
def app (f : Checked (α → β)) (x : Checked α) : Checked β := both (fun g a ↦ g a) f x

/-- Checks every item of a list from the index `n` on. -/
def itemsFrom (check : Json → Checked α) : Nat → List Json → Checked (List α)
  | _, [] => .ok []
  | n, v :: vs => both (· :: ·) (at_ (Text.ofNat n) (check v)) (itemsFrom check (n + 1) vs)

/-- A list of values that pass a check. -/
def list (check : Json → Checked α) : Json → Checked (List α)
  | .list vs => itemsFrom check 0 vs
  | _ => problem .notList

/-- A value that passes a check, or none. -/
def optional (check : Json → Checked α) : Json → Checked (Option α)
  | .null => .ok none
  | v => (check v).map some

/-- A field that passes a check; without the field, the default value if there is one. -/
def field (key : String) (check : Json → Checked α) (default? : Option α)
    (fields : List (Text × Json)) : Checked α :=
  at_ (.of key) <|
    match Json.field? (.of key) fields, default? with
    | some v, _ => check v
    | none, some d => .ok d
    | none, none => problem .missing

/-- A record read from the fields of an object. -/
def object (check : List (Text × Json) → Checked α) : Json → Checked α
  | .object fields => check fields
  | _ => problem .notObject

end Checked

end SolidityImports
