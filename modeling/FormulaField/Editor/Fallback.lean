import FormulaField.Editor.Random

/-!
Values for candidates that come without one: a list that is used up in order and whose last element
is repeated for ever, random whole numbers below a bound, or any values that the host has to give.
-/

namespace FormulaField

/-- A source of values. -/
inductive Fallback where
  | sequence (values : List Float)
  | random (generator : Generator) (bound : Nat)
  | stream (values : Nat → Float)

namespace Fallback

/-- Random whole numbers below `max`, or zeros alone if `max` is zero. -/
def ofSeed (seed : UInt64) (max : Nat) : Fallback := random (.ofSeed seed) (Nat.max max 1)

/-- The next value. An empty list gives zeros. -/
def next : Fallback → Float × Fallback
  | sequence [] => (Float.ofBits 0, sequence [])
  | sequence [x] => (x, sequence [x])
  | sequence (x :: y :: rest) => (x, sequence (y :: rest))
  | random generator bound =>
    let (n, generator) := generator.below bound
    (Float.ofNat n, random generator bound)
  | stream values => (values 0, stream fun n => values (n + 1))

/-- The next `count` values. -/
def nextValues : Nat → Fallback → List Float
  | 0, _ => []
  | count + 1, source => source.next.1 :: nextValues count source.next.2

end Fallback

end FormulaField
