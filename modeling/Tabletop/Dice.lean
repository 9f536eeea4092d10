/-
# Dice: rolls that can be repeated

Dice are a seed and a position in the stream of 32-bit words that the seed
fixes, so equal dice give the same further rolls.

The stream is the output of the ChaCha cipher with eight rounds (four double
rounds): block `n` of sixteen words comes from the usual four constants, eight
key words, the 64-bit block number and a nonce of zeros.  Each key word is cut
out of one step of a 64-bit linear congruential generator started at the seed:
a shift and an exclusive or, folded to 32 bits and rotated.

A roll between `low` and `high` draws 64 bits and scales them to the width of
the range; draws whose lower half falls beyond the last whole multiple of the
range are drawn again, so that every result is equally likely.  A range of one
value costs a draw as well; an empty range costs nothing and has no result.
-/

import Tabletop.Integer

namespace Tabletop

/-- A seed and the number of words taken from its stream. -/
structure Dice where
  seed : UInt64
  position : Nat := 0
deriving DecidableEq, Repr

namespace Dice

/-- The number of words of 32 bits. -/
abbrev wordSize : Nat := 4294967296

/-- The number of draws of 64 bits. -/
abbrev drawSize : Nat := 18446744073709551616

/-- Sixteen words. -/
abbrev Block := Vector UInt32 16

/-- The words of a block taken together with their sums and rotations. -/
def quarter (b : Block) (i j k l : Fin 16) : Block :=
  let rotl (w : UInt32) (n : UInt32) := w <<< n ||| w >>> (32 - n)
  let b := b.set i (b[i] + b[j])
  let b := b.set l (rotl (b[l] ^^^ b[i]) 16)
  let b := b.set k (b[k] + b[l])
  let b := b.set j (rotl (b[j] ^^^ b[k]) 12)
  let b := b.set i (b[i] + b[j])
  let b := b.set l (rotl (b[l] ^^^ b[i]) 8)
  let b := b.set k (b[k] + b[l])
  b.set j (rotl (b[j] ^^^ b[k]) 7)

/-- A round over the columns, then one over the diagonals. -/
def doubleRound (b : Block) : Block :=
  let b := quarter (quarter (quarter (quarter b 0 4 8 12) 1 5 9 13) 2 6 10 14) 3 7 11 15
  quarter (quarter (quarter (quarter b 0 5 10 15) 1 6 11 12) 2 7 8 13) 3 4 9 14

/-- The generator that stretches a seed, one step on. -/
def stretch (s : UInt64) : UInt64 := s * 6364136223846793005 + 11634580027462260723

/-- The key word cut out of a state of that generator. -/
def keyWord (s : UInt64) : UInt32 :=
  let x := (((s >>> 18) ^^^ s) >>> 27).toUInt32
  let turn := (s >>> 59).toUInt32
  x >>> turn ||| x <<< ((32 - turn) % 32)

/-- Key words, as many as asked for. -/
def keyWords : Nat → UInt64 → List UInt32
  | 0, _ => []
  | n + 1, s => keyWord (stretch s) :: keyWords n (stretch s)

/-- What the cipher works on: constants, key, block number and nonce. -/
def input (seed : UInt64) (number : Nat) : Block :=
  let constants : List UInt32 := [0x61707865, 0x3320646e, 0x79622d32, 0x6b206574]
  let counter : List UInt32 := [UInt32.ofNat number, UInt32.ofNat (number / wordSize)]
  let words := constants ++ keyWords 8 seed ++ counter ++ [0, 0]
  Vector.ofFn fun i => words.getD i.val 0

/-- A block of the stream. -/
def block (seed : UInt64) (number : Nat) : Block :=
  let start := input seed number
  let mixed := doubleRound (doubleRound (doubleRound (doubleRound start)))
  Vector.ofFn fun i => start[i] + mixed[i]

/-- A word of the stream. -/
def word (seed : UInt64) (position : Nat) : UInt32 :=
  have : position % 16 < 16 := Nat.mod_lt _ (by decide)
  (block seed (position / 16))[position % 16]

/-- The next 64 bits, the lower half first. -/
def draw (d : Dice) : Nat × Dice :=
  ((word d.seed d.position).toNat + wordSize * (word d.seed (d.position + 1)).toNat,
    { d with position := d.position + 2 })

/-- The least multiple of the range by a power of two that fills 64 bits, less
one: the greatest lower half of a draw that counts. -/
def zone (range : Nat) : Nat := (range <<< (63 - range.log2)) - 1

/-- Draws until a draw counts, then scales it.  Every draw counts with more
than an even chance; the last of `tries` counts in any case. -/
def scale (range : Nat) : Nat → Dice → Nat × Dice
  | 0, d =>
    let (bits, d) := d.draw
    (bits * range / drawSize, d)
  | tries + 1, d =>
    let (bits, next) := d.draw
    if bits * range % drawSize ≤ zone range then (bits * range / drawSize, next)
    else scale range tries next

/-- The number of draws after which a roll no longer waits. -/
def patience : Nat := 4294967296

/-- A roll between two integers, both included, if there are any. -/
def roll? (d : Dice) (low high : Int) : Option (Int × Dice) :=
  if high < low then none
  else
    let range := (high - low + 1).toNat
    if range = drawSize then
      let (bits, d) := d.draw
      some (Int.bmod bits drawSize, d)
    else
      let (n, d) := scale range patience d
      some (low + n, d)

end Dice
end Tabletop
