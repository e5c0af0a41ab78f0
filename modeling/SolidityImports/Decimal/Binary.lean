import SolidityImports.Text.Numeral

/-! # Binary floating-point numbers

Numbers of 64 bits with a sign, eleven bits of exponent and 52 of fraction, and the number nearest
to a decimal. All arithmetic is exact. -/

namespace SolidityImports

/-- A binary floating-point number, by its bits. -/
structure Binary64 where
  bits : UInt64
deriving DecidableEq

namespace Binary64

/-- The number with a sign and the other 63 bits. -/
def ofParts (negative : Bool) (magnitude : Nat) : Binary64 :=
  ⟨.ofNat (magnitude + if negative then Nat.pow 2 63 else 0)⟩

/-- The bits of infinity. -/
def infinityBits : Nat := 0x7FF * Nat.pow 2 52

/-- Positive or negative infinity. -/
def infinity (negative : Bool) : Binary64 := ofParts negative infinityBits

/-- A result that is no number. -/
def nan : Binary64 := ofParts false (infinityBits + Nat.pow 2 51)

/-- Whether the sign bit is set. -/
def isNegative (x : Binary64) : Bool := Nat.pow 2 63 ≤ x.bits.toNat

/-- All bits but the sign. -/
def magnitude (x : Binary64) : Nat := x.bits.toNat % Nat.pow 2 63

/-- Whether the number is neither infinite nor no number. -/
def isFinite (x : Binary64) : Bool := x.magnitude < infinityBits

/-- Whether it is no number. -/
def isNaN (x : Binary64) : Bool := infinityBits < x.magnitude

/-- The integer `m` of the absolute value `m * 2 ^ q`. -/
def significand (x : Binary64) : Nat :=
  if x.magnitude < Nat.pow 2 52 then x.magnitude else x.magnitude % Nat.pow 2 52 + Nat.pow 2 52

/-- The exponent `q` of the absolute value `m * 2 ^ q`. -/
def exponent (x : Binary64) : Int :=
  if x.magnitude < Nat.pow 2 52 then -1074 else (x.magnitude / Nat.pow 2 52 : Nat) - 1075

/-- The integer that a number is, if it is one. -/
def toInt? (x : Binary64) : Option Int :=
  if !x.isFinite then none
  else
    let up := Nat.pow 2 x.exponent.toNat
    let down := Nat.pow 2 (-x.exponent).toNat
    if x.significand % down = 0 then
      let n : Int := x.significand * up / down
      some (if x.isNegative then -n else n)
    else none

/-- The integer nearest to a quotient; halfway, the even one. -/
def roundQuotient (num den : Nat) : Nat :=
  let floor := num / den
  let twice := 2 * (num % den)
  if twice < den then floor else if den < twice then floor + 1 else floor + floor % 2

/-- The bits, without sign, of the number nearest to a positive quotient. The exponent is chosen so
that the significand has 53 bits, or as small as it can be. -/
def bitsOfQuotient (num den : Nat) : Nat :=
  let guess : Int := (num.log2 : Int) - den.log2 - 52
  let scaled (q : Int) : Nat × Nat := (num * Nat.pow 2 (-q).toNat, den * Nat.pow 2 q.toNat)
  let (n, d) := scaled guess
  let q := max (if n < Nat.pow 2 52 * d then guess - 1 else guess) (-1074)
  let (n, d) := scaled q
  roundQuotient n d + (q + 1074).toNat * Nat.pow 2 52

/-- The number nearest to `digits * 10 ^ scale`; of two equally near ones the one whose last bit is
zero. -/
def ofDecimal (negative : Bool) (digits : Nat) (scale : Int) : Binary64 :=
  let size := (Text.ofNat digits).length + scale
  if digits = 0 ∨ size < -330 then ofParts negative 0
  else if 310 < size then infinity negative
  else
    let bits := bitsOfQuotient (digits * Nat.pow 10 scale.toNat) (Nat.pow 10 (-scale).toNat)
    if infinityBits ≤ bits then infinity negative else ofParts negative bits

end Binary64

end SolidityImports
