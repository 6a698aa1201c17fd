/-!
A clock that moves only when it is told to. Its readings are milliseconds.
-/

namespace FormulaField

/-- A clock and its present reading. -/
structure Clock where
  now : Float := Float.ofBits 0

/-- Moves the clock on, or back by a negative amount. -/
def Clock.advance (c : Clock) (milliseconds : Float) : Clock := ⟨c.now + milliseconds⟩

end FormulaField
