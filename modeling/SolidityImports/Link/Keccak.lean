import SolidityImports.Text.Bytes

/-! # Keccak-256

The hash with the padding of the first submission: a one bit and zeros, and a one bit that ends the
block. The state is five by five words of 64 bits, the word at column `x` and row `y` at place
`x + 5 * y`. -/

namespace SolidityImports.Keccak

/-- The words of a state, row by row. -/
abbrev State := Vector UInt64 25

/-- The word at a column and a row, both taken modulo five. -/
def word (a : State) (x y : Nat) : UInt64 := a.get ⟨x % 5 + 5 * (y % 5), by omega⟩

/-- The state whose word at each column and row is given. -/
def ofWords (f : Nat → Nat → UInt64) : State := Vector.ofFn fun i ↦ f (i % 5) (i / 5)

/-- A word turned to the left by `n` bits. -/
def rotate (w : UInt64) (n : Nat) : UInt64 :=
  if n % 64 = 0 then w else w <<< (n % 64).toUInt64 ||| w >>> (64 - n % 64).toUInt64

/-- By how many bits each word is turned, row by row. -/
def turns : Vector Nat 25 :=
  #v[0, 1, 62, 28, 27, 36, 44, 6, 55, 20, 3, 10, 43, 25, 39, 41, 45, 15, 21, 8, 18, 2, 61, 56, 14]

/-- The constants of the 24 rounds. -/
def roundConstants : List UInt64 :=
  [ 0x0000000000000001, 0x0000000000008082, 0x800000000000808A, 0x8000000080008000,
    0x000000000000808B, 0x0000000080000001, 0x8000000080008081, 0x8000000000008009,
    0x000000000000008A, 0x0000000000000088, 0x0000000080008009, 0x000000008000000A,
    0x000000008000808B, 0x800000000000008B, 0x8000000000008089, 0x8000000000008003,
    0x8000000000008002, 0x8000000000000080, 0x000000000000800A, 0x800000008000000A,
    0x8000000080008081, 0x8000000000008080, 0x0000000080000001, 0x8000000080008008 ]

/-- The parity of a column. -/
def columnParity (a : State) (x : Nat) : UInt64 :=
  word a x 0 ^^^ word a x 1 ^^^ word a x 2 ^^^ word a x 3 ^^^ word a x 4

/-- Adds to each word the parities of two columns beside its own. -/
def mixColumns (a : State) : State :=
  let parities : Vector UInt64 5 := Vector.ofFn fun x ↦ columnParity a x
  let parity (x : Nat) : UInt64 := parities.get ⟨x % 5, by omega⟩
  ofWords fun x y ↦ word a x y ^^^ parity (x + 4) ^^^ rotate (parity (x + 1)) 1

/-- Turns each word and moves it: the word at column `y` and row `2 * x + 3 * y` comes from column
`x` and row `y`. -/
def turnAndMove (a : State) : State :=
  let turned : State := Vector.ofFn fun i ↦ rotate a[i] turns[i]
  ofWords fun x y ↦ word turned (x + 3 * y) x

/-- Combines each word with the next two words of its row. -/
def combineRows (a : State) : State :=
  ofWords fun x y ↦ word a x y ^^^ (~~~word a (x + 1) y &&& word a (x + 2) y)

/-- One round with its constant. -/
def round (a : State) (constant : UInt64) : State :=
  let b := combineRows (turnAndMove (mixColumns a))
  b.set 0 (b[0] ^^^ constant)

/-- The permutation of the state. -/
def permute (a : State) : State := roundConstants.foldl round a

/-- The number of bytes that are taken in at once. -/
def rate : Nat := 136

/-- The word whose bytes are given, lowest first. -/
def wordOfBytes (b : Bytes) : UInt64 := b.foldr (fun x w ↦ w <<< 8 ||| x.toUInt64) 0

/-- Fills a message up to whole blocks. -/
def pad (message : Bytes) : Bytes :=
  let free := rate - message.length % rate
  if free = 1 then message ++ [0x81]
  else message ++ 0x01 :: List.replicate (free - 2) 0 ++ [0x80]

/-- Takes in one block. -/
def absorbBlock (a : State) (block : Bytes) : State :=
  permute (Vector.ofFn fun i ↦
    if i < 17 then a[i] ^^^ wordOfBytes ((block.drop (8 * i)).take 8) else a[i])

/-- Takes in `n` blocks. -/
def absorb : Nat → State → Bytes → State
  | 0, a, _ => a
  | n + 1, a, b => absorb n (absorbBlock a (b.take rate)) (b.drop rate)

/-- The byte at a place of the words of a state. -/
def byteAt (a : State) (i : Nat) : UInt8 :=
  (word a (i / 8) (i / 40) >>> (8 * (i % 8)).toUInt64).toUInt8

/-- The hash of a message: 32 bytes. -/
def digest (message : Bytes) : Bytes :=
  let padded := pad message
  let a := absorb (padded.length / rate) (Vector.replicate 25 0) padded
  (List.range 32).map (byteAt a)

@[simp] theorem length_digest (message : Bytes) : (digest message).length = 32 := by
  simp [digest]

example : (digest []).hex =
    .of "c5d2460186f7233c927e7db2dcc703c0e500b653ca82273b7bfad8045d85a470" := by decide +kernel

/-- A message that is one byte longer than a block. -/
example : (digest (List.replicate 137 0x78)).hex =
    .of "01e0852c139fa337a5d3f746ab3b2d3400442195225e2f10c34702f8f37ae8d3" := by decide +kernel

end SolidityImports.Keccak
