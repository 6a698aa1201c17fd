import FormulaField.Number.Numeral
import FormulaField.Number.Radix

/-!
JSON values as they are read from a text. Numbers keep the digits they were written with, and the
fields of an object keep their order and their repetitions, because what a number or a repeated
field means depends on the record that the object stands for.
-/

namespace FormulaField

/-- A JSON value. A string is `none` if it holds an escaped half of a surrogate pair without the
other half: such a text is well formed, and yet it is no sequence of characters. -/
inductive Json where
  | null
  | bool (value : Bool)
  | number (negative : Bool) (magnitude : Numeral)
  | string (text : Option String)
  | array (items : List Json)
  | object (fields : List (Option String × Json))

namespace Json

/-! ### Strings -/

/-- A part of a written string: a character, or an escaped 16-bit unit. -/
inductive StringUnit where
  | char (c : Char)
  | unit (n : Nat)

/-- The character of an escape of one letter. -/
def shortEscape? : Char → Option Char
  | '\x22' => some '\x22'
  | '\\' => some '\\'
  | '/' => some '/'
  | 'b' => some '\x08'
  | 'f' => some '\x0c'
  | 'n' => some '\n'
  | 'r' => some '\r'
  | 't' => some '\t'
  | _ => none

/-- The rest of a string behind its opening quote, and what follows the closing quote. Control
characters have to be escaped. -/
def readUnits : List Char → Option (List StringUnit × List Char)
  | [] => none
  | '\x22' :: rest => some ([], rest)
  | '\\' :: 'u' :: a :: b :: c :: d :: rest =>
    match Radix.hexadecimal.natural? [a, b, c, d], readUnits rest with
    | some n, some (units, rest) => some (.unit n :: units, rest)
    | _, _ => none
  | '\\' :: letter :: rest =>
    match shortEscape? letter, readUnits rest with
    | some c, some (units, rest) => some (.char c :: units, rest)
    | _, _ => none
  | c :: rest =>
    if c.toNat < 0x20 then none
    else (readUnits rest).map fun (units, rest) => (.char c :: units, rest)

/-- Tells whether a unit is the first half of a surrogate pair. -/
def isHighSurrogate (n : Nat) : Bool := 0xD800 ≤ n && n < 0xDC00

/-- Tells whether a unit is the second half of a surrogate pair. -/
def isLowSurrogate (n : Nat) : Bool := 0xDC00 ≤ n && n < 0xE000

/-- The characters of a string, its surrogate pairs joined; `none` if a half is left over. -/
def joinUnits : List StringUnit → Option (List Char)
  | [] => some []
  | .char c :: rest => (joinUnits rest).map (c :: ·)
  | .unit high :: .unit low :: rest =>
    if isHighSurrogate high then
      if isLowSurrogate low then
        let code := 0x10000 + (high - 0xD800) * 0x400 + (low - 0xDC00)
        (joinUnits rest).map (Char.ofNat code :: ·)
      else none
    else if isLowSurrogate high then none
    else (joinUnits (.unit low :: rest)).map (Char.ofNat high :: ·)
  | .unit n :: rest =>
    if isHighSurrogate n || isLowSurrogate n then none
    else (joinUnits rest).map (Char.ofNat n :: ·)

/-- The string behind an opening quote, and what follows it. -/
def readString (cs : List Char) : Option (Option String × List Char) :=
  (readUnits cs).map fun (units, rest) => ((joinUnits units).map String.ofList, rest)

/-! ### Numbers -/

/-- Tells whether a numeral may stand in JSON: a digit before the point, no zero before other
digits, and a digit behind the point if there is one. -/
def isJsonNumeral (n : Numeral) : Bool :=
  !n.whole.isEmpty && (n.whole.length == 1 || n.whole.head? != some '0') &&
    n.fraction != some []

/-- The number at the head of a text, and what follows it. -/
def readNumber (cs : List Char) : Option (Json × List Char) :=
  let (negative, digits) := match cs with
    | '-' :: rest => (true, rest)
    | _ => (false, cs)
  let (numeral, rest) := Numeral.scan digits
  if isJsonNumeral numeral then some (.number negative numeral, rest) else none

/-! ### Values

Each part of a value takes at least one character, so what follows it is shorter than what came
before. The readers check that bound where they go on behind a value, and the check never fails.
-/

/-- Tells whether `c` may stand between the parts of a value. -/
def isSpace (c : Char) : Bool := c == ' ' || c == '\n' || c == '\t' || c == '\r'

/-- Drops the space at the head of a text. -/
def skipSpace (cs : List Char) : List Char := cs.dropWhile isSpace

theorem length_skipSpace_le (cs : List Char) : (skipSpace cs).length ≤ cs.length :=
  (List.dropWhile_sublist _).length_le

mutual

/-- The value at the head of a text, and what follows it. -/
def readValue (cs : List Char) : Option (Json × List Char) :=
  match cs with
  | 'n' :: 'u' :: 'l' :: 'l' :: rest => some (.null, rest)
  | 't' :: 'r' :: 'u' :: 'e' :: rest => some (.bool true, rest)
  | 'f' :: 'a' :: 'l' :: 's' :: 'e' :: rest => some (.bool false, rest)
  | '\x22' :: rest => (readString rest).map fun (text, rest) => (.string text, rest)
  | '[' :: rest =>
    have := length_skipSpace_le rest
    if (skipSpace rest).head? = some ']' then some (.array [], (skipSpace rest).tail)
    else (readItems (skipSpace rest)).map fun (items, rest) => (.array items, rest)
  | '\x7b' :: rest =>
    have := length_skipSpace_le rest
    if (skipSpace rest).head? = some '\x7d' then some (.object [], (skipSpace rest).tail)
    else (readFields (skipSpace rest)).map fun (fields, rest) => (.object fields, rest)
  | _ => readNumber cs
termination_by (cs.length, 0)

/-- One or more items with commas between them, and the closing bracket. -/
def readItems (cs : List Char) : Option (List Json × List Char) :=
  match readValue cs with
  | none => none
  | some (item, rest) =>
    match skipSpace rest with
    | ']' :: rest => some ([item], rest)
    | ',' :: more =>
      if (skipSpace more).length < cs.length then
        (readItems (skipSpace more)).map fun (items, rest) => (item :: items, rest)
      else none
    | _ => none
termination_by (cs.length, 1)

/-- One or more fields with commas between them, and the closing brace. -/
def readFields (cs : List Char) : Option (List (Option String × Json) × List Char) :=
  match cs with
  | '\x22' :: text =>
    match readString text with
    | none => none
    | some (key, rest) =>
      match skipSpace rest with
      | ':' :: rest =>
        if (skipSpace rest).length ≤ text.length then
          match readValue (skipSpace rest) with
          | none => none
          | some (value, rest) =>
            match skipSpace rest with
            | '\x7d' :: rest => some ([(key, value)], rest)
            | ',' :: more =>
              if (skipSpace more).length ≤ text.length then
                (readFields (skipSpace more)).map fun (fields, rest) =>
                  ((key, value) :: fields, rest)
              else none
            | _ => none
        else none
      | _ => none
  | _ => none
termination_by (cs.length, 1)

end

/-- The value that a text holds, with space around it and nothing else. -/
def read? (text : String) : Option Json :=
  match readValue (skipSpace text.toList) with
  | some (value, rest) => if (skipSpace rest).isEmpty then some value else none
  | none => none

end Json

end FormulaField
