import FormulaField.Proofs.NumberGrammar
import FormulaField.Proofs.SyntaxError
import FormulaField.Proofs.Tiling

/-!
What a token is, told from the place where it stands. Every token is the lexeme of the text that
begins there. A lexeme that is a number takes the longest numeral that stands there, or a word that is
one of the two names and ends where no word can go on; so every number token has a value, and the
reader never meets a number that is invalid.
-/

namespace FormulaField

open Text

/-! ### Tokens as lexemes -/

namespace Scanner

/-- Every token but the end mark is the lexeme that begins at its place. -/
theorem exists_lexeme : ∀ (n : Nat) (cs : List Char) (o : Nat), cs.length ≤ n →
    ∀ t ∈ tokens ⟨cs, o⟩, t.kind ≠ .finish → ∃ before c rest,
      cs = before ++ c :: rest ∧ t.span.start = o + byteLength before ∧ isBlank c = false ∧
        t.face = ((lexeme c rest).1, String.ofList (c :: rest.take (lexeme c rest).2))
  | _, [], o, _ => by
    intro t ht hkind
    rw [tokens_nil, List.mem_singleton] at ht
    exact absurd (by rw [ht]) hkind
  | n + 1, c :: cs, o, hn => by
    intro t ht hkind
    have hcs : cs.length ≤ n := Nat.le_of_succ_le_succ hn
    cases hc : isBlank c with
    | true =>
      rw [tokens_blank hc] at ht
      obtain ⟨before, d, rest, rfl, hstart, hd⟩ := exists_lexeme n cs _ hcs t ht hkind
      exact ⟨c :: before, d, rest, rfl, by rw [hstart, byteLength_cons, Nat.add_assoc], hd⟩
    | false =>
      rw [tokens_cons hc] at ht
      rcases List.mem_cons.mp ht with rfl | ht
      · exact ⟨[], c, cs, rfl, rfl, hc, rfl⟩
      · obtain ⟨before, d, rest, hrest, hstart, hd⟩ := exists_lexeme n
          (cs.drop (lexeme c cs).2) _ (by rw [List.length_drop]; omega) t ht hkind
        refine ⟨c :: cs.take (lexeme c cs).2 ++ before, d, rest, ?_, ?_, hd⟩
        · rw [List.append_assoc, ← hrest, List.cons_append, List.take_append_drop]
        · rw [hstart, byteLength_append, Nat.add_assoc]

end Scanner

/-! ### Words -/

/-- The token begins as words do, with a letter or an underscore. -/
def Token.IsWord (t : Token) : Prop := ∃ c ∈ t.text.toList.head?, isLetter c = true ∨ c = '_'

/-- What begins a word begins nothing else. -/
theorem letter_begins_only_word {c : Char} (h : isLetter c = true ∨ c = '_') :
    Operator.ofChar? c = none ∧ c.isDigit = false ∧ c ≠ '.' := by
  have hoperator : ∀ o : Operator, isLetter o.char = false ∧ o.char ≠ '_' := by
    intro o
    cases o <;> decide +kernel
  have hdigit : ∀ d : Char, d.isDigit = true → isLetter d = false ∧ d ≠ '_' := fun d hd =>
    forall_isDigit (P := fun d => isLetter d = false ∧ d ≠ '_') (by decide +kernel) hd
  have hpoint : isLetter '.' = false := by decide +kernel
  refine ⟨?_, ?_, ?_⟩
  · cases ho : Operator.ofChar? c with
    | none => rfl
    | some o =>
      rw [Operator.eq_char_of_ofChar? ho] at h
      simp [hoperator o] at h
  · rw [← Bool.not_eq_true]
    intro hc
    simp [hdigit c hc] at h
  · rintro rfl
    simp [hpoint] at h

theorem lexeme_word {c : Char} (h : isLetter c = true ∨ c = '_') (rest : List Char) :
    lexeme c rest = (wordKind (c :: rest.takeWhile isWordChar),
      (rest.takeWhile isWordChar).length) := by
  obtain ⟨hoperator, hdigit, hpoint⟩ := letter_begins_only_word h
  simp [lexeme, hoperator, hdigit, hpoint, h]

theorem lexeme_stray {c : Char} {rest : List Char} (hoperator : Operator.ofChar? c = none)
    (hbegins : ¬(c.isDigit || (c == '.' && beginsWithDigit rest)) = true)
    (hword : ¬(isLetter c = true ∨ c = '_')) : lexeme c rest = (.stray, 0) := by
  simp only [lexeme, hoperator]
  rw [if_neg hbegins, if_neg (by simpa using hword)]

/-! ### A lexeme on its own -/

/-- A numeral that a lexeme takes. -/
theorem isNumeral_lexeme {c : Char} {rest : List Char}
    (h : (c.isDigit || (c == '.' && beginsWithDigit rest)) = true) :
    c :: rest.take (lexeme c rest).2 = (c :: rest).take (numeralLength (c :: rest)) ∧
      IsNumeral (c :: rest.take (lexeme c rest).2) := by
  have hlexeme := lexeme_of_hasDigits ((Numeral.hasDigits_scan_iff c rest).mpr h)
  have htake := cons_take_numeralLength h
  rw [hlexeme]
  exact ⟨htake, htake ▸ isNumeral_take h⟩

/-- The characters of a lexeme are the same lexeme where nothing follows them. -/
theorem lexeme_take (c : Char) (rest : List Char) :
    lexeme c (rest.take (lexeme c rest).2) = lexeme c rest := by
  cases hoperator : Operator.ofChar? c with
  | some o => simp [lexeme, hoperator]
  | none =>
    by_cases hbegins : (c.isDigit || (c == '.' && beginsWithDigit rest)) = true
    · have hform := numberForm_iff.mpr (Or.inr (Or.inr (isNumeral_lexeme hbegins).2))
      have halone : lexeme c (rest.take (lexeme c rest).2) =
          (.number, (rest.take (lexeme c rest).2).length) := isNumberToken_of_numberForm hform
      have hkind : (lexeme c rest).1 = .number := by
        rw [lexeme_of_hasDigits ((Numeral.hasDigits_scan_iff c rest).mpr hbegins)]
      rw [halone, List.length_take, Nat.min_eq_left (lexeme_length_le c rest), ← hkind]
    · by_cases hword : isLetter c = true ∨ c = '_'
      · rw [lexeme_word hword rest, lexeme_word hword, take_takeWhile, List.takeWhile_takeWhile]
        simp
      · rw [lexeme_stray hoperator hbegins hword]
        refine lexeme_stray hoperator (fun hdigit => hbegins ?_) hword
        have hdigit : c.isDigit = true := by simpa [beginsWithDigit] using hdigit
        simp [hdigit]

/-! ### Number tokens -/

/-- A number is a numeral, or a word that is one of the two names. -/
theorem number_lexeme_cases {c : Char} {rest : List Char} (h : (lexeme c rest).1 = .number) :
    (c.isDigit || (c == '.' && beginsWithDigit rest)) = true ∨
      (isLetter c = true ∨ c = '_') ∧
        (c :: rest.takeWhile isWordChar = infinityWord ∨ c :: rest.takeWhile isWordChar = nanWord) := by
  by_cases hbegins : (c.isDigit || (c == '.' && beginsWithDigit rest)) = true
  · exact Or.inl hbegins
  · refine Or.inr ?_
    by_cases hword : isLetter c = true ∨ c = '_'
    · rw [lexeme_word hword, wordKind] at h
      split at h
      · next hname => exact ⟨hword, hname⟩
      · cases h
    · cases hoperator : Operator.ofChar? c with
      | some o => simp [lexeme, hoperator] at h
      | none =>
        rw [lexeme_stray hoperator hbegins hword] at h
        cases h

theorem numberForm_lexeme {c : Char} {rest : List Char} (h : (lexeme c rest).1 = .number) :
    NumberForm (c :: rest.take (lexeme c rest).2) := by
  refine numberForm_of_isNumberToken ?_
  rw [IsNumberToken, lexeme_take, List.length_take, Nat.min_eq_left (lexeme_length_le c rest), ← h]

/-- No numeral at the head of a text has more characters than the lexeme. -/
theorem length_le_of_isNumeral {c : Char} {rest p : List Char}
    (hbegins : (c.isDigit || (c == '.' && beginsWithDigit rest)) = true) (hp : IsNumeral p)
    (hhead : p <+: c :: rest) : p.length ≤ (c :: rest.take (lexeme c rest).2).length := by
  obtain ⟨v, hv⟩ := hhead
  have hle := hp.length_le v
  rw [hv] at hle
  rw [(isNumeral_lexeme hbegins).1, List.length_take]
  exact Nat.le_min.mpr ⟨hle, hle.trans (numeralLength_le _)⟩

/-- Behind a word no word goes on. -/
theorem word_ends {c : Char} (h : isLetter c = true ∨ c = '_') (rest : List Char) :
    ∀ d ∈ (rest.drop (lexeme c rest).2).head?, isWordChar d = false := by
  have hdrop : rest.drop (lexeme c rest).2 = rest.dropWhile isWordChar := by
    rw [lexeme_word h]
    calc rest.drop (rest.takeWhile isWordChar).length
        = (rest.takeWhile isWordChar ++ rest.dropWhile isWordChar).drop
            (rest.takeWhile isWordChar).length := by rw [List.takeWhile_append_dropWhile]
      _ = rest.dropWhile isWordChar := List.drop_left
  intro d hd
  have hend := List.head?_dropWhile_not isWordChar rest
  rw [hdrop] at hd
  rwa [Option.mem_def.mp hd] at hend

theorem isWord_iff {t : Token} {c : Char} {cs : List Char} (h : t.text = String.ofList (c :: cs)) :
    t.IsWord ↔ isLetter c = true ∨ c = '_' := by
  simp [Token.IsWord, h]

/-- A number token is a lexeme that is a number. -/
theorem exists_number_lexeme {source : String} {t : Token} (ht : t ∈ tokenize source)
    (hnumber : t.kind = .number) : ∃ before c rest, source.toList = before ++ c :: rest ∧
      t.span.start = byteLength before ∧ (lexeme c rest).1 = .number ∧
      t.text = String.ofList (c :: rest.take (lexeme c rest).2) := by
  have hkind : t.kind ≠ .finish := by simp [hnumber]
  obtain ⟨before, c, rest, hsource, hstart, -, hface⟩ :=
    Scanner.exists_lexeme _ _ 0 (Nat.le_refl _) t ht hkind
  obtain ⟨hlexeme, htext⟩ := Prod.mk.inj hface
  exact ⟨before, c, rest, hsource, by rw [hstart, Nat.zero_add], by rw [← hlexeme, hnumber], htext⟩

theorem exists_value_of_number {source : String} {t : Token} (ht : t ∈ tokenize source)
    (hnumber : t.kind = .number) : ∃ x, literalValue? t.text = some x := by
  obtain ⟨before, c, rest, -, -, hlexeme, htext⟩ := exists_number_lexeme ht hnumber
  rw [htext]
  exact (numberForm_lexeme hlexeme).exists_value

/-- Every number token is the longest numeral that stands at its place, or it is one of the two names
and no word goes on behind it. Every number token has a value, so no number is ever invalid. -/
theorem number_tokens_longest (source : String) :
    (∀ t ∈ tokenize source, t.kind = .number → ∃ before after,
      source = before ++ t.text ++ after ∧ t.span.start = before.utf8ByteSize ∧
      (¬t.IsWord → IsNumeral t.text.toList ∧
        ∀ p, IsNumeral p → p <+: (t.text ++ after).toList → p.length ≤ t.text.length) ∧
      (t.IsWord → (t.text = "Infinity" ∨ t.text = "NaN") ∧
        ∀ c ∈ after.toList.head?, isAlphanumeric c = false ∧ c ≠ '_') ∧
      ∃ x, literalValue? t.text = some x) ∧
    ∀ text, parse source ≠ .error (.invalidNumber text) := by
  refine ⟨fun t ht hnumber => ?_, fun text hinvalid => ?_⟩
  · obtain ⟨before, c, rest, hsource, hstart, hlexeme, htext⟩ := exists_number_lexeme ht hnumber
    have hrest : c :: rest.take (lexeme c rest).2 ++ rest.drop (lexeme c rest).2 = c :: rest := by
      rw [List.cons_append, List.take_append_drop]
    refine ⟨String.ofList before, String.ofList (rest.drop (lexeme c rest).2), ?_, ?_, ?_, ?_,
      exists_value_of_number ht hnumber⟩
    · rw [htext, ← String.ofList_append, ← String.ofList_append, List.append_assoc, hrest, ← hsource,
        String.ofList_toList]
    · rw [utf8ByteSize_ofList, hstart]
    · rw [isWord_iff htext]
      intro hword
      have hbegins := (number_lexeme_cases hlexeme).resolve_right fun h => hword h.1
      simp only [htext, String.toList_ofList, String.toList_append, hrest, String.length_ofList]
      exact ⟨(isNumeral_lexeme hbegins).2, fun p hp hhead =>
        length_le_of_isNumeral hbegins hp hhead⟩
    · rw [isWord_iff htext]
      intro hword
      obtain ⟨-, hname⟩ := (number_lexeme_cases hlexeme).resolve_left fun h => by
        simp [letter_begins_only_word hword] at h
      refine ⟨?_, fun d hd => ?_⟩
      · rw [htext, lexeme_word hword, take_takeWhile]
        rcases hname with hname | hname <;> rw [hname]
        · exact Or.inl rfl
        · exact Or.inr rfl
      · rw [String.toList_ofList] at hd
        simpa [isWordChar] using word_ends hword rest d hd
  · obtain ⟨t, ht, hnumber, hnone⟩ := valueless_of_invalidNumber hinvalid
    obtain ⟨x, hx⟩ := exists_value_of_number (List.dropLast_subset _ ht) hnumber
    rw [hnone] at hx
    cases hx

/-- A number leaves a mark without digits alone: a word begins there, and the numeral before it is the
longest one. -/
theorem number_before_bare_mark :
    tokenize "1.5e+.5" = [⟨.number, ⟨0, 3⟩, "1.5"⟩, ⟨.stray, ⟨3, 4⟩, "e"⟩,
      ⟨.operator .plus, ⟨4, 5⟩, "+"⟩, ⟨.number, ⟨5, 7⟩, ".5"⟩, ⟨.finish, ⟨7, 7⟩, ""⟩] ∧
    IsNumeral "1.5".toList ∧
    (∀ p, IsNumeral p → p <+: "1.5e+.5".toList → p.length ≤ 3) ∧
    (∃ x, literalValue? "1.5" = some x) ∧
    ∀ text, parse "1.5e+.5" ≠ .error (.invalidNumber text) := by
  have htokens : tokenize "1.5e+.5" = [⟨.number, ⟨0, 3⟩, "1.5"⟩, ⟨.stray, ⟨3, 4⟩, "e"⟩,
      ⟨.operator .plus, ⟨4, 5⟩, "+"⟩, ⟨.number, ⟨5, 7⟩, ".5"⟩, ⟨.finish, ⟨7, 7⟩, ""⟩] := by
    decide +kernel
  obtain ⟨hlongest, hvalid⟩ := number_tokens_longest "1.5e+.5"
  obtain ⟨before, after, hsource, hstart, hnumeral, -, hvalue⟩ :=
    hlongest ⟨.number, ⟨0, 3⟩, "1.5"⟩ (by rw [htokens]; exact List.mem_cons_self) rfl
  have hbefore : before = "" := String.utf8ByteSize_eq_zero_iff.mp hstart.symm
  have hword : ¬Token.IsWord ⟨.number, ⟨0, 3⟩, "1.5"⟩ := by
    rw [@isWord_iff _ '1' ['.', '5'] rfl]
    decide +kernel
  obtain ⟨hform, hmost⟩ := hnumeral hword
  rw [hbefore, String.empty_append] at hsource
  rw [← hsource] at hmost
  exact ⟨htokens, hform, hmost, hvalue, hvalid⟩

end FormulaField
