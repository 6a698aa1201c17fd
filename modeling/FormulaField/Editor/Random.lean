/-!
A generator of random words and of random numbers below a bound. The state is four words of 64 bits,
filled from a seed by a second, simpler generator. A number below a bound is the high half of the
product of the bound with a random word of 32 bits; where the low half leaves doubt about a carry,
one more word is drawn to decide it.
-/

namespace FormulaField

/-- The state of the generator. -/
structure Generator where
  a : UInt64
  b : UInt64
  c : UInt64
  d : UInt64

namespace Generator

/-- `x` with its bits turned to the left. -/
def rotateLeft (x : UInt64) (bits : UInt64) : UInt64 := (x <<< bits) ||| (x >>> (64 - bits))

/-- The step between the seeds of two state words. -/
def seedStep : UInt64 := 0x9E3779B97F4A7C15

/-- The state word of a seed: its bits mixed by two multiplications. -/
def mix (seed : UInt64) : UInt64 :=
  let x := (seed ^^^ (seed >>> 30)) * 0xBF58476D1CE4E5B9
  let y := (x ^^^ (x >>> 27)) * 0x94D049BB133111EB
  y ^^^ (y >>> 31)

/-- The generator of a seed. -/
def ofSeed (seed : UInt64) : Generator where
  a := mix (seed + seedStep)
  b := mix (seed + 2 * seedStep)
  c := mix (seed + 3 * seedStep)
  d := mix (seed + 4 * seedStep)

/-- A random word of 64 bits. -/
def next (g : Generator) : UInt64 × Generator :=
  let c := g.c ^^^ g.a
  let d := g.d ^^^ g.b
  (rotateLeft (g.a + g.d) 23 + g.a,
    { a := g.a ^^^ d, b := g.b ^^^ c, c := c ^^^ (g.b <<< 17), d := rotateLeft d 45 })

/-- A random number of 32 bits: the upper half of a word. -/
def next32 (g : Generator) : Nat × Generator :=
  let (word, g) := g.next
  (word.toNat / UInt32.size, g)

/-- A random number below `range`, for a `range` from 1 up to `2 ^ 32`. -/
def below (g : Generator) (range : Nat) : Nat × Generator :=
  let (x, g) := g.next32
  let high := x * range / UInt32.size
  let low := x * range % UInt32.size
  if UInt32.size - range < low then
    let (y, g) := g.next32
    (if UInt32.size ≤ low + y * range / UInt32.size then high + 1 else high, g)
  else (high, g)

end Generator

end FormulaField
