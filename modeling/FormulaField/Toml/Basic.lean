import FormulaField.Toml.Text

/-!
The part of TOML that settings are written in: lines with one key and one value, where the value is a
string, a whole number or an array of strings. Keys may be quoted. A comment may end every line, and
inside an array lines may break anywhere between the items. All other TOML (tables, dotted keys,
fractions, dates, truth values, nested arrays) is refused, because no setting takes it.
-/

namespace FormulaField.Toml

/-- A value. -/
inductive Value where
  | text (s : String)
  | integer (n : Int)
  | texts (items : List String)

/-! ### Space, comments and line ends -/

/-- Drops the spaces and tabs at the head of a text. -/
def skipWhite (cs : List Char) : List Char := cs.dropWhile isWhite

/-- Drops a comment up to the end of its line. -/
def skipComment : List Char → List Char
  | '#' :: rest => rest.dropWhile isPlain
  | cs => cs

/-- The end of a line: white space and perhaps a comment, then a line break or the end of the text.
Gives what follows, or `none` if anything else stands there. -/
def endLine? (cs : List Char) : Option (List Char) :=
  match skipComment (skipWhite cs) with
  | [] => some []
  | '\n' :: rest => some rest
  | '\r' :: '\n' :: rest => some rest
  | _ => none

theorem length_skipWhite_le (cs : List Char) : (skipWhite cs).length ≤ cs.length :=
  (List.dropWhile_sublist _).length_le

theorem length_skipComment_le (cs : List Char) : (skipComment cs).length ≤ cs.length := by
  unfold skipComment
  split
  · exact Nat.le_succ_of_le (List.dropWhile_sublist _).length_le
  · exact Nat.le_refl _

theorem length_endLine_lt {cs rest : List Char} (h : endLine? cs = some rest) (hne : cs ≠ []) :
    rest.length < cs.length := by
  have hle := Nat.le_trans (length_skipComment_le (skipWhite cs)) (length_skipWhite_le cs)
  have hpos := List.length_pos_iff.mpr hne
  unfold endLine? at h
  split at h
  · cases h; exact hpos
  · next hc => rw [hc] at hle; cases h; simp only [List.length_cons] at hle; omega
  · next hc => rw [hc] at hle; cases h; simp only [List.length_cons] at hle; omega
  · cases h

/-! ### Numbers -/

/-- The digits of a number without its underscores, each of which has to stand between two digits. -/
def digits? (isDigit : Char → Bool) : List Char → Option (List Char)
  | [] => none
  | [c] => if isDigit c then some [c] else none
  | c :: '_' :: rest => if isDigit c then (digits? isDigit rest).map (c :: ·) else none
  | c :: rest => if isDigit c then (digits? isDigit rest).map (c :: ·) else none

/-- The value of decimal digits, where zero does not come before other digits. -/
def decimal? (cs : List Char) : Option Nat :=
  (digits? Char.isDigit cs).bind fun digits =>
    if digits.length = 1 ∨ digits.head? ≠ some '0' then some (Nat.ofDigitChars 10 digits 0) else none

/-- The value of digits in a base. -/
def based? (radix : Radix) (cs : List Char) : Option Int :=
  ((digits? radix.isDigit cs).bind radix.natural?).map Int.ofNat

/-- A whole number: decimal with or without a sign, or in another base without one. -/
def integer? : List Char → Option Int
  | '0' :: 'x' :: rest => based? .hexadecimal rest
  | '0' :: 'o' :: rest => based? .octal rest
  | '0' :: 'b' :: rest => based? .binary rest
  | '+' :: rest => (decimal? rest).map Int.ofNat
  | '-' :: rest => (decimal? rest).map fun n => -Int.ofNat n
  | cs => (decimal? cs).map Int.ofNat

/-- Tells whether `c` may stand in a number. -/
def isNumberChar (c : Char) : Bool := c.isAlphanum || c == '_' || c == '+' || c == '-'

/-! ### Values and lines -/

/-- Drops white space, comments and line breaks between the items of an array. -/
def skipLines (cs : List Char) : List Char :=
  if hne : cs = [] then []
  else
    match h : endLine? cs with
    | some rest =>
      have := length_endLine_lt h hne
      skipLines rest
    | none => skipWhite cs
termination_by cs.length

/-- The items of an array and its closing bracket. -/
def readItems (cs : List Char) : Option (List String × List Char) := do
  match skipLines cs with
  | ']' :: rest => some ([], rest)
  | inner =>
    let (item, rest) ← readText inner
    match skipLines rest with
    | ']' :: rest => some ([item], rest)
    | ',' :: rest =>
      if rest.length < cs.length then
        let (items, rest) ← readItems rest
        some (item :: items, rest)
      else none
    | _ => none
termination_by cs.length

/-- The value at the head of a text, and what follows it. -/
def readValue : List Char → Option (Value × List Char)
  | '\x22' :: rest => (readText ('\x22' :: rest)).map fun (text, rest) => (.text text, rest)
  | '\x27' :: rest => (readText ('\x27' :: rest)).map fun (text, rest) => (.text text, rest)
  | '[' :: rest => (readItems rest).map fun (items, rest) => (.texts items, rest)
  | cs => (integer? (cs.takeWhile isNumberChar)).map fun n => (.integer n, cs.dropWhile isNumberChar)

/-- Tells whether `c` may stand in a key without quotes. -/
def isKeyChar (c : Char) : Bool := c.isAlphanum || c == '_' || c == '-'

/-- The key at the head of a text, and what follows it. A quoted key is a string of one line. -/
def readKey : List Char → Option (String × List Char)
  | '\x22' :: rest => (readBasic rest).map fun (text, rest) => (String.ofList text, rest)
  | '\x27' :: rest => (readLiteral rest).map fun (text, rest) => (String.ofList text, rest)
  | cs =>
    let key := cs.takeWhile isKeyChar
    if key.isEmpty then none else some (String.ofList key, cs.dropWhile isKeyChar)

/-- A key and its value, and what follows them. -/
def readField (cs : List Char) : Option ((String × Value) × List Char) := do
  let (key, rest) ← readKey cs
  match skipWhite rest with
  | '=' :: rest =>
    let (value, rest) ← readValue (skipWhite rest)
    some ((key, value), rest)
  | _ => none

/-- The keys and values of all lines, in order. -/
def readLines (cs : List Char) : Option (List (String × Value)) :=
  if hne : cs = [] then some []
  else
    match h : endLine? cs with
    | some rest =>
      have := length_endLine_lt h hne
      readLines rest
    | none => do
      let (field, rest) ← readField (skipWhite cs)
      let rest ← endLine? rest
      if rest.length < cs.length then
        let fields ← readLines rest
        some (field :: fields)
      else none
termination_by cs.length

/-- The keys and values of a text, which may begin with a byte order mark. No key may be given
twice. -/
def read? (text : String) : Option (List (String × Value)) := do
  let cs := match text.toList with
    | '\uFEFF' :: rest => rest
    | cs => cs
  let fields ← readLines cs
  if (fields.map Prod.fst).Nodup then some fields else none

end FormulaField.Toml
