/-!
Blank characters. Between two tokens blanks carry no meaning, and around a typed number they are
dropped. The class is the Unicode property White_Space, 25 characters in all, which takes in the
no-break spaces and the ideographic space and leaves out the zero-width ones.
-/

namespace FormulaField.Text

/-- Tells whether `c` has the property White_Space. -/
def isBlank (c : Char) : Bool :=
  let n := c.toNat
  (9 ≤ n && n ≤ 13) || n == 0x20 || n == 0x85 || n == 0xA0 || n == 0x1680 ||
    (0x2000 ≤ n && n ≤ 0x200A) || n == 0x2028 || n == 0x2029 || n == 0x202F || n == 0x205F ||
    n == 0x3000

/-- Tells whether nothing but blanks stands in `text`. -/
def isAllBlank (text : String) : Bool := text.toList.all isBlank

/-- Drops from both ends of `cs` the characters that `drop` names. -/
def trimBy (drop : Char → Bool) (cs : List Char) : List Char :=
  ((cs.dropWhile drop).reverse.dropWhile drop).reverse

end FormulaField.Text
