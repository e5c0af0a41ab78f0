import SolidityImports.Decimal.Binary

/-! # JSON values

Objects keep the order in which their keys first appear. -/

namespace SolidityImports

/-- A JSON value. Whole numbers are exact, all others binary. -/
inductive Json where
  | null
  | bool (b : Bool)
  | int (n : Int)
  | float (x : Binary64)
  | text (s : Text)
  | list (items : List Json)
  | object (fields : List (Text × Json))

namespace Json

/-- Adds a field. A key that is present keeps its place and takes the new value. -/
def setField (key : Text) (value : Json) : List (Text × Json) → List (Text × Json)
  | [] => [(key, value)]
  | (k, v) :: fields =>
    if k = key then (k, value) :: fields else (k, v) :: setField key value fields

/-- The object with fields in the order in which they are written; of two with one key the later
value counts. -/
def ofFields (fields : List (Text × Json)) : Json :=
  .object (fields.foldl (fun done f ↦ setField f.1 f.2 done) [])

/-- The value of a field. -/
def field? (key : Text) (fields : List (Text × Json)) : Option Json :=
  (fields.find? (·.1 = key)).map Prod.snd

end Json

end SolidityImports
