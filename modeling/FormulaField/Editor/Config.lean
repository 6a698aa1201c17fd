import FormulaField.Json.Record
import FormulaField.Toml.Basic

/-!
The settings of the editor. Every setting has a default, so a text without any is complete; a setting
that does not exist is refused.
-/

namespace FormulaField

/-- The settings of the editor. -/
structure Config where
  /-- Where suggestions are fetched; the query goes into the parameter `search`. -/
  suggestionUrl : String := "https://652f91320b8d8ddac0b2b62b.mockapi.io/autocomplete"
  /-- For how many milliseconds an answer may be used again for the same query. -/
  cacheTtlMs : UInt64 := 60000
  /-- The options of every tag that is made from a suggestion. -/
  tagOptions : List String := ["Option 1", "Option 2", "Option 3"]
  /-- The values that are made up for tags without one are below this number. -/
  fallbackMax : UInt32 := 100

namespace Config

/-- The names of the settings, in order. -/
def names : List String := ["suggestion_url", "cache_ttl_ms", "tag_options", "fallback_max"]

/-- A whole number as a word of 64 bits, if it fits. -/
def word64? (n : Nat) : Option UInt64 := if n < UInt64.size then some (UInt64.ofNat n) else none

/-- A whole number as a word of 32 bits, if it fits. -/
def word32? (n : Nat) : Option UInt32 := if n < UInt32.size then some (UInt32.ofNat n) else none

/-- The value that is given, or else the default; `none` if the given one cannot be read. -/
def orDefault {α β : Type} (default : α) (read? : β → Option α) : Option β → Option α
  | none => some default
  | some given => read? given

/-- The settings of which some are given, with a reader for every kind of value. -/
def ofGiven? {β : Type} (text? : β → Option String) (natural? : β → Option Nat)
    (texts? : β → Option (List String)) : List (Option β) → Option Config
  | [url, ttl, options, bound] => do
    let defaults : Config := {}
    return {
      suggestionUrl := ← orDefault defaults.suggestionUrl text? url
      cacheTtlMs := ← orDefault defaults.cacheTtlMs (fun v => (natural? v).bind word64?) ttl
      tagOptions := ← orDefault defaults.tagOptions texts? options
      fallbackMax := ← orDefault defaults.fallbackMax (fun v => (natural? v).bind word32?) bound }
  | _ => none

/-- Reads settings from a JSON value that has been read as a whole, where the last of repeated fields
holds. -/
def ofJson? (json : Json) : Option Config :=
  (json.settled.fields? .refused names).bind
    (ofGiven? Json.text? (Json.natural? Json.maxWord) (Json.list? Json.text?))

/-- Reads settings from a text in TOML. -/
def ofToml? (text : String) : Option Config := do
  let fields ← Toml.read? text
  if fields.all fun field => names.contains field.1 then
    ofGiven? text? natural? texts? (names.map fun name => fields.lookup name)
  else none
where
  /-- The text of a string. -/
  text? : Toml.Value → Option String
    | .text s => some s
    | _ => none
  /-- A number that is not negative. -/
  natural? : Toml.Value → Option Nat
    | .integer (.ofNat n) => some n
    | _ => none
  /-- The texts of an array. -/
  texts? : Toml.Value → Option (List String)
    | .texts items => some items
    | _ => none

end Config

end FormulaField
