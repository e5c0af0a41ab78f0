import SolidityImports.Decimal.Binary

/-! # The fewest digits

The shortest decimal that reads back as a given binary number, and of those the nearest. -/

namespace SolidityImports.Binary64

/-- A decimal: `digits * 10 ^ scale`. -/
structure Decimal where
  digits : Nat
  scale : Int
deriving DecidableEq

/-- The least `k` from `k` on such that `num / den < 10 ^ k`; it is looked for `tries` times. -/
def magnitudeFrom (num den : Nat) : Nat → Int → Int
  | 0, k => k
  | tries + 1, k =>
    if num * Nat.pow 10 (-k).toNat < den * Nat.pow 10 k.toNat then k
    else magnitudeFrom num den tries (k + 1)

/-- The decimal of `count` digits nearest to the positive quotient `num / den < 10 ^ k` among its
two neighbours with so many digits that read back as `x`. -/
def nearest? (x : Binary64) (num den : Nat) (k : Int) (count : Nat) : Option Decimal :=
  let scale := k - count
  let n := num * Nat.pow 10 (-scale).toNat
  let d := den * Nat.pow 10 scale.toNat
  let low := n / d
  let readsBack (digits : Nat) : Bool := (ofDecimal false digits scale).magnitude = x.magnitude
  let lowFirst := 2 * (n % d) < d ∨ (2 * (n % d) = d ∧ low % 2 = 0)
  let order := if lowFirst then [low, low + 1] else [low + 1, low]
  (order.find? readsBack).map fun digits ↦ ⟨digits, scale⟩

/-- Moves the zeros at the end of the digits into the scale, at most `tries` of them. -/
def Decimal.trim : Nat → Decimal → Decimal
  | 0, d => d
  | tries + 1, d =>
    if d.digits % 10 = 0 ∧ d.digits ≠ 0 then trim tries ⟨d.digits / 10, d.scale + 1⟩ else d

/-- The shortest decimal that reads back as the absolute value of a finite number other than
zero. Seventeen digits always do. -/
def shortest (x : Binary64) : Decimal :=
  let num := x.significand * Nat.pow 2 x.exponent.toNat
  let den := Nat.pow 2 (-x.exponent).toNat
  let guess : Int := (((num.log2 : Int) - den.log2 - 1) * 30103).fdiv 100000
  let k := magnitudeFrom num den 3 guess
  let found := ((List.range 17).findSome? fun n ↦ nearest? x num den k (n + 1)).getD
    ⟨num * Nat.pow 10 (-x.exponent).toNat / den, -(-x.exponent).toNat⟩
  found.trim 17

end SolidityImports.Binary64
