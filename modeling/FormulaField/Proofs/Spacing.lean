import FormulaField.Proofs.Lexeme
import FormulaField.Proofs.Places

/-!
Blanks between tokens carry no meaning. The scanner cuts a token where the text that follows it makes
it stop, but every token is still the same token when nothing follows it, and so when a blank does.
Writing the tokens of a text again with other blanks between them therefore gives the same tokens, and
the reader makes of them what it made before, up to the places that errors point at.
-/

namespace FormulaField

open Text

/-! ### Words with blanks between them -/

/-- The text consists of these words in their order. There may be blanks around them, and between two
words there is at least one. -/
inductive Spaced : List String → List Char → Prop
  | nil : Spaced [] []
  | blank {words c cs} : isBlank c = true → Spaced words cs → Spaced words (c :: cs)
  | word {w words cs} : (words ≠ [] → ∃ c ∈ cs.head?, isBlank c = true) → Spaced words cs →
      Spaced (w :: words) (w.toList ++ cs)

/-- Where no word is left, all is blank. -/
theorem Spaced.all_blank {words : List String} {cs : List Char} (h : Spaced words cs)
    (hwords : words = []) : ∀ c ∈ cs, isBlank c = true := by
  induction h with
  | nil => nofun
  | blank hc _ ih => exact List.forall_mem_cons.mpr ⟨hc, ih hwords⟩
  | word => cases hwords

theorem Spaced.breaks {words : List String} {cs : List Char} (h : Spaced words cs)
    (hgap : words ≠ [] → ∃ c ∈ cs.head?, isBlank c = true) : Breaks cs := by
  by_cases hwords : words = []
  · exact (breaks_of_blank (h.all_blank hwords)).1
  · obtain ⟨c, hc, hblank⟩ := hgap hwords
    cases cs with
    | nil => cases hc
    | cons d cs =>
      cases hc
      exact breaks_padding (Or.inl hblank) cs

/-- Every list of words can be written with blanks between them. -/
theorem spaced_flatMap {b : Char} (hb : isBlank b = true) (words : List String) :
    Spaced words (words.flatMap fun w => w.toList ++ [b]) := by
  induction words with
  | nil => exact .nil
  | cons w words ih =>
    rw [List.flatMap_cons, List.append_assoc]
    exact .word (fun _ => ⟨b, rfl, hb⟩) (.blank hb ih)

/-! ### Tokens on their own -/

/-- A text of this look is one token of this look. -/
def Standalone (face : TokenKind × String) : Prop :=
  ∃ c cs, isBlank c = false ∧ lexeme c cs = (face.1, cs.length) ∧ face.2 = String.ofList (c :: cs)

/-- A token is cut by what follows it, but alone it is the same token. -/
theorem standalone_of_mem {source : String} {t : Token} (ht : t ∈ properTokens source) :
    Standalone t.face := by
  obtain ⟨e, htokens, -, hkind⟩ := exists_tokenize_eq source
  have hmem : t ∈ tokenize source := htokens ▸ List.mem_append_left [e] ht
  obtain ⟨-, c, rest, -, -, hc, hface⟩ :=
    Scanner.exists_lexeme _ _ 0 (Nat.le_refl _) t hmem (hkind t ht)
  refine ⟨c, rest.take (lexeme c rest).2, hc, ?_, by rw [hface]⟩
  rw [lexeme_take, hface, List.length_take, Nat.min_eq_left (lexeme_length_le c rest)]

theorem faces_standalone {face : TokenKind × String} (h : Standalone face) {v : List Char}
    (hv : Breaks v) : faces (face.2.toList ++ v) = face :: faces v := by
  obtain ⟨c, cs, hc, hlexeme, htext⟩ := h
  have happend : lexeme c (cs ++ v) = (face.1, cs.length) := by
    rw [lexeme_append hv (Or.inr (by rw [hlexeme])), hlexeme]
  rw [htext, String.toList_ofList, List.cons_append, faces_cons hc, happend]
  simp [← htext]

/-- Tokens that are written again with blanks between them are the tokens of what is written. -/
theorem faces_of_spaced {looks : List (TokenKind × String)} {cs : List Char}
    (hlooks : ∀ face ∈ looks, Standalone face) (h : Spaced (looks.map Prod.snd) cs) :
    faces cs = looks := by
  generalize hwords : looks.map Prod.snd = words at h
  induction h generalizing looks with
  | nil => rw [List.map_eq_nil_iff.mp hwords, faces_nil]
  | blank hc _ ih => rw [faces_blank hc, ih hlooks hwords]
  | word hgap hrest ih =>
    cases looks with
    | nil => cases hwords
    | cons face looks =>
      obtain ⟨rfl, hrestwords⟩ := List.cons.inj hwords
      obtain ⟨hface, hrestlooks⟩ := List.forall_mem_cons.mp hlooks
      rw [faces_standalone hface (hrest.breaks hgap), ih hrestlooks hrestwords]

/-! ### Reading -/

/-- A text that consists of the tokens of another, with blanks between any two, has tokens of the same
kinds and texts; and it is read as the same tree, or refused for the same reason in the same words. -/
theorem spaced_tokens_read_alike {source respaced : String}
    (h : Spaced ((properTokens source).map Token.text) respaced.toList) :
    (tokenize respaced).map Token.face = (tokenize source).map Token.face ∧
      (parse respaced).mapError ParseError.unplaced =
        (parse source).mapError ParseError.unplaced := by
  have hlooks : ∀ face ∈ faces source.toList, Standalone face := by
    rw [faces, String.ofList_toList]
    exact List.forall_mem_map.mpr fun t ht => standalone_of_mem ht
  have hwords : (faces source.toList).map Prod.snd = (properTokens source).map Token.text := by
    rw [faces, String.ofList_toList, List.map_map]
    rfl
  have hfaces : faces respaced.toList = faces source.toList :=
    faces_of_spaced hlooks (by rwa [hwords])
  refine ⟨?_, ?_⟩
  · rw [← String.ofList_toList (s := respaced), ← String.ofList_toList (s := source),
      map_face_tokenize, map_face_tokenize, hfaces]
  · rw [parse_unplaced, parse_unplaced, hfaces]

/-- Numbers that the next character cut short, and a word without a meaning, stay what they are when a
no-break space is written behind every token; and the same token is refused. -/
theorem respaced_cut_numbers :
    Spaced ((properTokens "2e+(0xg").map Token.text)
        "2\u00A0e\u00A0+\u00A0(\u00A00\u00A0xg\u00A0".toList ∧
      (tokenize "2\u00A0e\u00A0+\u00A0(\u00A00\u00A0xg\u00A0").map Token.face =
        (tokenize "2e+(0xg").map Token.face ∧
      (tokenize "2e+(0xg").map Token.face = [(.number, "2"), (.stray, "e"), (.operator .plus, "+"),
        (.operator .leftParen, "("), (.number, "0"), (.stray, "xg"), (.finish, "")] ∧
      (parse "2\u00A0e\u00A0+\u00A0(\u00A00\u00A0xg\u00A0").mapError ParseError.unplaced =
        (parse "2e+(0xg").mapError ParseError.unplaced := by
  have htokens : (tokenize "2e+(0xg").map Token.face = [(.number, "2"), (.stray, "e"),
      (.operator .plus, "+"), (.operator .leftParen, "("), (.number, "0"), (.stray, "xg"),
      (.finish, "")] := by
    decide +kernel
  have htexts : (properTokens "2e+(0xg").map Token.text = ["2", "e", "+", "(", "0", "xg"] := by
    decide +kernel
  have hrespaced : "2\u00A0e\u00A0+\u00A0(\u00A00\u00A0xg\u00A0".toList =
      ["2", "e", "+", "(", "0", "xg"].flatMap fun w => w.toList ++ ['\u00A0'] := by decide +kernel
  have hspaced : Spaced ((properTokens "2e+(0xg").map Token.text)
      "2\u00A0e\u00A0+\u00A0(\u00A00\u00A0xg\u00A0".toList := by
    rw [htexts, hrespaced]
    exact spaced_flatMap (by decide) _
  obtain ⟨hfaces, hparse⟩ := spaced_tokens_read_alike hspaced
  exact ⟨hspaced, hfaces, htokens, hparse⟩

end FormulaField
