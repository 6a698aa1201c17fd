import FormulaField.Number.Radix

/-!
Strings in TOML. A basic string stands in double quotes and knows escapes, a literal string stands in
single quotes and knows none. Tripled quotes open a string of several lines: a line break right
behind them does not count, one or two quotes may stand inside it, and also right before the closing
ones. A backslash at the end of a line joins the line to the next character that is not white.
-/

namespace FormulaField.Toml

/-- Tells whether a character may stand for itself: no control character does, except the tab. -/
def isPlain (c : Char) : Bool := c == '\t' || (0x20 ≤ c.toNat && c.toNat != 0x7F)

/-- The character of an escape of one letter. -/
def shortEscape? : Char → Option Char
  | 'b' => some '\x08'
  | 't' => some '\t'
  | 'n' => some '\n'
  | 'f' => some '\x0c'
  | 'r' => some '\r'
  | 'e' => some '\x1b'
  | '\x22' => some '\x22'
  | '\\' => some '\\'
  | _ => none

/-- The character with a code that is written in hexadecimal digits. -/
def codeEscape? (digits : List Char) : Option Char :=
  (Radix.hexadecimal.natural? digits).bind fun n =>
    if n.isValidChar then some (Char.ofNat n) else none

/-- The characters of a string, put before those that follow and the text behind the string. -/
abbrev Taken := Option (List Char × List Char)

/-- Puts a character before what is taken. -/
def Taken.put (c : Char) (t : Taken) : Taken := t.map fun (cs, rest) => (c :: cs, rest)

/-- Puts the character of an escape before what is taken. -/
def Taken.putEscape (c : Option Char) (t : Taken) : Taken := c.bind fun c => t.put c

/-- The rest of a basic string behind its opening quote. -/
def readBasic : List Char → Taken
  | [] => none
  | '\x22' :: rest => some ([], rest)
  | '\\' :: 'x' :: a :: b :: rest => (readBasic rest).putEscape (codeEscape? [a, b])
  | '\\' :: 'u' :: a :: b :: c :: d :: rest =>
    (readBasic rest).putEscape (codeEscape? [a, b, c, d])
  | '\\' :: 'U' :: a :: b :: c :: d :: e :: f :: g :: h :: rest =>
    (readBasic rest).putEscape (codeEscape? [a, b, c, d, e, f, g, h])
  | '\\' :: letter :: rest => (readBasic rest).putEscape (shortEscape? letter)
  | c :: rest => if isPlain c then (readBasic rest).put c else none

/-- The rest of a literal string behind its opening quote. -/
def readLiteral : List Char → Taken
  | [] => none
  | '\x27' :: rest => some ([], rest)
  | c :: rest => if isPlain c then (readLiteral rest).put c else none

/-- The end of a string of several lines behind three quotes: up to two more quotes belong to it. -/
def closeQuotes (quote : Char) : List Char → Taken
  | a :: b :: rest =>
    if a = quote then
      if b = quote then some ([quote, quote], rest) else some ([quote], b :: rest)
    else some ([], a :: b :: rest)
  | [a] => if a = quote then some ([quote], []) else some ([], [a])
  | [] => some ([], [])

/-- Where the reader of a basic string stands: in its text, behind a backslash that has to end its
line, or in the white space that such a backslash joins. -/
inductive Joining where
  | text | lineEnd | white

/-- Tells whether `c` is a space or a tab. -/
def isWhite (c : Char) : Bool := c == ' ' || c == '\t'

/-- The rest of a basic string of several lines behind its opening quotes. -/
def readBasicLines : Joining → List Char → Taken
  | _, [] => none
  | .lineEnd, '\n' :: rest => readBasicLines .white rest
  | .lineEnd, '\r' :: '\n' :: rest => readBasicLines .white rest
  | .lineEnd, c :: rest => if isWhite c then readBasicLines .lineEnd rest else none
  | .white, '\n' :: rest => readBasicLines .white rest
  | .white, '\r' :: '\n' :: rest => readBasicLines .white rest
  | _, '\x22' :: '\x22' :: '\x22' :: rest => closeQuotes '\x22' rest
  | _, '\\' :: 'x' :: a :: b :: rest => (readBasicLines .text rest).putEscape (codeEscape? [a, b])
  | _, '\\' :: 'u' :: a :: b :: c :: d :: rest =>
    (readBasicLines .text rest).putEscape (codeEscape? [a, b, c, d])
  | _, '\\' :: 'U' :: a :: b :: c :: d :: e :: f :: g :: h :: rest =>
    (readBasicLines .text rest).putEscape (codeEscape? [a, b, c, d, e, f, g, h])
  | _, '\\' :: '\n' :: rest => readBasicLines .white rest
  | _, '\\' :: '\r' :: '\n' :: rest => readBasicLines .white rest
  | _, '\\' :: letter :: rest =>
    if isWhite letter then readBasicLines .lineEnd rest
    else (readBasicLines .text rest).putEscape (shortEscape? letter)
  | _, '\n' :: rest => (readBasicLines .text rest).put '\n'
  | _, '\r' :: '\n' :: rest => ((readBasicLines .text rest).put '\n').put '\r'
  | .white, c :: rest =>
    if isWhite c then readBasicLines .white rest
    else if isPlain c then (readBasicLines .text rest).put c
    else none
  | .text, c :: rest => if isPlain c then (readBasicLines .text rest).put c else none

/-- The rest of a literal string of several lines behind its opening quotes. -/
def readLiteralLines : List Char → Taken
  | [] => none
  | '\x27' :: '\x27' :: '\x27' :: rest => closeQuotes '\x27' rest
  | '\n' :: rest => (readLiteralLines rest).put '\n'
  | '\r' :: '\n' :: rest => ((readLiteralLines rest).put '\n').put '\r'
  | c :: rest => if isPlain c then (readLiteralLines rest).put c else none

/-- Drops a line break at the head of a text. -/
def dropLineBreak : List Char → List Char
  | '\n' :: rest => rest
  | '\r' :: '\n' :: rest => rest
  | cs => cs

/-- The string at the head of a text, of any of the four kinds, and what follows it. -/
def readText (cs : List Char) : Option (String × List Char) :=
  let taken := match cs with
    | '\x22' :: '\x22' :: '\x22' :: rest => readBasicLines .text (dropLineBreak rest)
    | '\x22' :: rest => readBasic rest
    | '\x27' :: '\x27' :: '\x27' :: rest => readLiteralLines (dropLineBreak rest)
    | '\x27' :: rest => readLiteral rest
    | _ => none
  taken.map fun (text, rest) => (String.ofList text, rest)

end FormulaField.Toml
