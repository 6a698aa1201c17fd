import FormulaField.Token.Basic
import FormulaField.Number.Literal
import FormulaField.Text.Blank
import FormulaField.Text.Letter

/-!
Splitting a text into tokens. Blanks are skipped, and then the longest token of its kind is taken:
an operator is one character, a number is the longest numeral, a word is a run of letters, numerals
and underscores. Only the words `Infinity` and `NaN` are numbers; every other word, and every
character that begins no token, is stray. `lexeme` says what begins at a character and how many
characters follow it in the same token, so a token always takes at least one character and scanning
ends.
-/

namespace FormulaField

/-- Tells whether `c` may stand inside a word. -/
def isWordChar (c : Char) : Bool := Text.isAlphanumeric c || c == '_'

/-- Tells whether a text begins with a digit. -/
def beginsWithDigit (cs : List Char) : Bool := cs.head?.any Char.isDigit

/-- The number of characters of the numeral at the head of a text. A zero with a mark is the start
of a numeral in another base only if a digit of that base follows. -/
def numeralLength (cs : List Char) : Nat :=
  let plain := (Numeral.scan cs).1.text.length
  match Radix.strip? cs with
  | some (radix, rest) =>
    let digits := (rest.takeWhile radix.isDigit).length
    if digits = 0 then plain else digits + 2
  | none => plain

/-- The kind of a word. -/
def wordKind (word : List Char) : TokenKind :=
  if word = infinityWord ∨ word = nanWord then .number else .stray

/-- The kind of the token that begins with `c`, and how many characters of `rest` belong to it. -/
def lexeme (c : Char) (rest : List Char) : TokenKind × Nat :=
  match Operator.ofChar? c with
  | some o => (.operator o, 0)
  | none =>
    if c.isDigit || (c == '.' && beginsWithDigit rest) then
      (.number, numeralLength (c :: rest) - 1)
    else if Text.isLetter c || c == '_' then
      let more := rest.takeWhile isWordChar
      (wordKind (c :: more), more.length)
    else (.stray, 0)

/-- A place in a text: what is still to be read, and how many bytes lie before it. -/
structure Scanner where
  rest : List Char
  offset : Nat

namespace Scanner

/-- The beginning of a text. -/
def ofText (text : String) : Scanner := ⟨text.toList, 0⟩

/-- Moves past the blanks. -/
def skipBlanks (s : Scanner) : Scanner :=
  ⟨s.rest.dropWhile Text.isBlank, s.offset + byteLength (s.rest.takeWhile Text.isBlank)⟩

/-- The token that begins right here. At the end of the text it is `finish`, which takes no room and
leaves the scanner where it is. -/
def take (s : Scanner) : Token × Scanner :=
  match s.rest with
  | [] => (⟨.finish, ⟨s.offset, s.offset⟩, ""⟩, s)
  | c :: rest =>
    let (kind, more) := lexeme c rest
    let text := c :: rest.take more
    let stop := s.offset + byteLength text
    (⟨kind, ⟨s.offset, stop⟩, String.ofList text⟩, ⟨rest.drop more, stop⟩)

/-- The next token after any blanks, and the place behind it. -/
def next (s : Scanner) : Token × Scanner := s.skipBlanks.take

theorem length_skipBlanks_le (s : Scanner) : s.skipBlanks.rest.length ≤ s.rest.length :=
  (List.dropWhile_sublist _).length_le

theorem length_take_lt (s : Scanner) (h : s.rest ≠ []) : s.take.2.rest.length < s.rest.length := by
  unfold take
  split
  · contradiction
  · next c rest hr => simp only [hr, List.length_drop, List.length_cons]; omega

/-- All tokens from here on, the last of them `finish`. -/
def tokens (s : Scanner) : List Token :=
  if h : s.skipBlanks.rest = [] then [s.next.1]
  else
    have : s.next.2.rest.length < s.rest.length :=
      Nat.lt_of_lt_of_le (length_take_lt _ h) (length_skipBlanks_le s)
    s.next.1 :: s.next.2.tokens
termination_by s.rest.length

/-- The tokens of the first `count` readings, which repeat `finish` at the end of the text. -/
def nextTokens : Nat → Scanner → List Token
  | 0, _ => []
  | count + 1, s => s.next.1 :: nextTokens count s.next.2

end Scanner

/-- The tokens of a text, the last of them `finish`. -/
def tokenize (text : String) : List Token := (Scanner.ofText text).tokens

end FormulaField
