import FormulaField.Formula.Tag
import FormulaField.Proofs.TypedNumber

/-!
Texts whose tokens do not run into each other. A text is separable if whatever breaks a word can be
written behind it without a change to its own tokens. Numbers are separable, as a user types them and
as the values of tags are written, and so is any padding; an operator can even stand before anything.
-/

namespace FormulaField

open Text

/-- The kinds and texts of the tokens of some characters, without the end mark. -/
def faces (cs : List Char) : List (TokenKind × String) :=
  (properTokens (String.ofList cs)).map Token.face

/-! ### Faces without places -/

namespace Scanner

/-- Tokens look the same wherever their text stands. -/
theorem map_face_tokens : ∀ (n : Nat) (cs : List Char) (o o' : Nat), cs.length ≤ n →
    (tokens ⟨cs, o⟩).map Token.face = (tokens ⟨cs, o'⟩).map Token.face
  | _, [], o, o', _ => by
    rw [tokens_nil, tokens_nil]
    rfl
  | n + 1, c :: cs, o, o', hn => by
    have hcs : cs.length ≤ n := Nat.le_of_succ_le_succ hn
    cases hc : isBlank c with
    | true =>
      rw [tokens_blank hc, tokens_blank hc]
      exact map_face_tokens n cs _ _ hcs
    | false =>
      rw [tokens_cons hc, tokens_cons hc]
      have hrest := map_face_tokens n (cs.drop (lexeme c cs).2)
        (o + byteLength (c :: cs.take (lexeme c cs).2))
        (o' + byteLength (c :: cs.take (lexeme c cs).2)) (by rw [List.length_drop]; omega)
      rw [List.map_cons, List.map_cons, hrest]
      rfl

end Scanner

theorem map_face_tokenize (cs : List Char) :
    (tokenize (String.ofList cs)).map Token.face = faces cs ++ [(.finish, "")] := by
  obtain ⟨e, htokens, he, -⟩ := exists_tokenize_eq (String.ofList cs)
  rw [htokens, List.map_append, List.map_singleton, he]
  rfl

theorem faces_eq (cs : List Char) (o : Nat) :
    faces cs = ((Scanner.tokens ⟨cs, o⟩).map Token.face).dropLast := by
  rw [Scanner.map_face_tokens cs.length cs o 0 (Nat.le_refl _)]
  have htokens := map_face_tokenize cs
  rw [tokenize, Scanner.ofText, String.toList_ofList] at htokens
  rw [htokens, List.dropLast_concat]

theorem faces_nil : faces [] = [] := by
  rw [faces_eq [] 0, Scanner.tokens_nil]
  rfl

theorem faces_blank {c : Char} (hc : isBlank c = true) (cs : List Char) :
    faces (c :: cs) = faces cs := by
  rw [faces_eq (c :: cs) 0, Scanner.tokens_blank hc, ← faces_eq]

theorem faces_cons {c : Char} (hc : isBlank c = false) (cs : List Char) :
    faces (c :: cs) = ((lexeme c cs).1, String.ofList (c :: cs.take (lexeme c cs).2)) ::
      faces (cs.drop (lexeme c cs).2) := by
  have hne : (Scanner.tokens ⟨cs.drop (lexeme c cs).2,
      0 + byteLength (c :: cs.take (lexeme c cs).2)⟩).map Token.face ≠ [] := by
    rw [ne_eq, List.map_eq_nil_iff]
    exact Scanner.tokens_ne_nil _
  rw [faces_eq (c :: cs) 0, Scanner.tokens_cons hc, List.map_cons,
    List.dropLast_cons_of_ne_nil hne, ← faces_eq]
  rfl

theorem faces_operator (o : Operator) (v : List Char) :
    faces (o.char :: v) = (.operator o, String.ofList [o.char]) :: faces v := by
  rw [faces_cons (not_isBlank_operator o), lexeme_operator]
  rfl

/-! ### Separable texts -/

/-- Whatever breaks a word can be written behind the text. -/
def Separable (u : List Char) : Prop := ∀ v, Breaks v → faces (u ++ v) = faces u ++ faces v

theorem separable_nil : Separable [] := by
  intro v _
  rw [faces_nil]
  rfl

theorem separable_operator (o : Operator) {u : List Char} (h : Separable u) :
    Separable (o.char :: u) := by
  intro v hv
  rw [List.cons_append, faces_operator, faces_operator, h v hv]
  rfl

theorem Separable.append {u w : List Char} (hu : Separable u) (hw : Separable w)
    (hbreaks : ∀ v, Breaks v → Breaks (w ++ v)) : Separable (u ++ w) := by
  intro v hv
  have hw' : Breaks w := by
    rw [← List.append_nil w]
    exact hbreaks [] breaks_nil
  rw [List.append_assoc, hu _ (hbreaks v hv), hw v hv, hu w hw', List.append_assoc]

theorem faces_numberForm {u v : List Char} (h : NumberForm u) (hv : Breaks v) :
    faces (u ++ v) = (.number, String.ofList u) :: faces v := by
  have htokens := tokens_of_numberForm h hv 0
  have hne : (Scanner.tokens ⟨v, 0 + byteLength u⟩).map Token.face ≠ [] := by
    rw [ne_eq, List.map_eq_nil_iff]
    exact Scanner.tokens_ne_nil _
  rw [faces_eq (u ++ v) 0, htokens, List.map_cons, List.dropLast_cons_of_ne_nil hne, ← faces_eq]
  rfl

theorem separable_numberForm {u : List Char} (h : NumberForm u) : Separable u := by
  intro v hv
  have halone := faces_numberForm h breaks_nil
  rw [List.append_nil, faces_nil] at halone
  rw [faces_numberForm h hv, halone]
  rfl

/-! ### Typed numbers -/

theorem lexeme_mark (cs : List Char) : lexeme '\uFEFF' cs = (.stray, 0) := by
  have hletter : isLetter '\uFEFF' = false := by decide +kernel
  simp [lexeme, Operator.ofChar?, hletter, Char.isDigit]

/-- Padding may stand before anything. -/
theorem faces_padding {pad : List Char} (h : ∀ c ∈ pad, isPadding c = true) (v : List Char) :
    faces (pad ++ v) = faces pad ++ faces v := by
  induction pad with
  | nil =>
    rw [faces_nil]
    rfl
  | cons c cs ih =>
    have hcs := ih fun d hd => h d (List.mem_cons_of_mem c hd)
    have hc : isBlank c = true ∨ c = '\uFEFF' := by
      simpa [isPadding] using h c List.mem_cons_self
    rcases hc with hc | rfl
    · rw [List.cons_append, faces_blank hc, faces_blank hc, hcs]
    · have hmark : isBlank '\uFEFF' = false := by decide
      rw [List.cons_append, faces_cons hmark, faces_cons hmark, lexeme_mark, lexeme_mark]
      simp [hcs]

theorem breaks_append {pad v : List Char} (h : ∀ c ∈ pad, isPadding c = true) (hv : Breaks v) :
    Breaks (pad ++ v) := by
  cases pad with
  | nil => exact hv
  | cons c cs =>
    have hc : isBlank c = true ∨ c = '\uFEFF' := by
      simpa [isPadding] using h c List.mem_cons_self
    exact breaks_padding hc (cs ++ v)

theorem separable_typedForm {u : List Char} (h : TypedForm u) : Separable u := by
  cases h with
  | unsigned hform => exact separable_numberForm hform
  | signed hu hform =>
    subst hu
    exact separable_operator _ (separable_numberForm hform)

theorem separable_of_isTypedNumber {text : String} (h : isTypedNumber text = true) :
    Separable text.toList := by
  obtain ⟨pre, post, htext, hpre, hpost⟩ := exists_eq_trimBy isPadding text.toList
  have hcore : Separable (trimBy isPadding text.toList) := by
    rcases (isTypedNumber_iff rfl).mp h with hnil | hform
    · rw [hnil]
      exact separable_nil
    · exact separable_typedForm hform
  have hinner : Separable (trimBy isPadding text.toList ++ post) :=
    hcore.append (fun v _ => faces_padding hpost v) fun v hv => breaks_append hpost hv
  intro v hv
  rw [htext, List.append_assoc, faces_padding hpre, hinner v hv, faces_padding hpre,
    List.append_assoc]

/-! ### Written values -/

/-- Digits, and perhaps a point with more digits, are a numeral. -/
theorem scan_positional {whole : List Char} {fraction : Option (List Char)}
    (hwhole : ∀ c ∈ whole, c.isDigit = true) (hfraction : ∀ c ∈ fraction.getD [], c.isDigit = true) :
    Numeral.scan (whole ++ (fraction.map ('.' :: ·)).getD []) = (⟨whole, fraction, none⟩, []) := by
  cases fraction with
  | none =>
    have htake := List.takeWhile_eq_self_iff.mpr hwhole
    have hdrop := List.dropWhile_eq_nil_iff.mpr hwhole
    simp only [Option.map_none, Option.getD_none, List.append_nil]
    rw [Numeral.scan_of_none, htake, hdrop]
    · rfl
    · rw [hdrop]
      rfl
  | some digits =>
    have htake := List.takeWhile_eq_self_iff.mpr hfraction
    have hdrop := List.dropWhile_eq_nil_iff.mpr hfraction
    simp only [Option.getD_some] at htake hdrop
    have hpoint : (whole ++ '.' :: digits).dropWhile Char.isDigit = '.' :: digits := by
      rw [List.dropWhile_append_of_pos hwhole]
      rfl
    have hdigits : (whole ++ '.' :: digits).takeWhile Char.isDigit = whole := by
      rw [List.takeWhile_append_of_pos hwhole]
      simp
    simp only [Option.map_some, Option.getD_some]
    rw [Numeral.scan_of_none, hdigits, hpoint, Numeral.scanFraction, htake, hdrop]
    rw [hpoint, Numeral.scanFraction, hdrop]
    rfl

theorem isDigit_of_mem_fractionText {places part : Nat} {c : Char}
    (h : c ∈ Decimal.fractionText places part) : c.isDigit = true := by
  unfold Decimal.fractionText at h
  have hmem := (List.dropWhile_sublist _).subset (List.mem_reverse.mp h)
  rcases List.mem_append.mp (List.mem_reverse.mp hmem) with hzero | hdigit
  · rw [List.eq_of_mem_replicate hzero]
    rfl
  · exact Nat.isDigit_of_mem_toDigits (by decide) (by decide) hdigit

/-- A positional text is scanned from end to end, without an exponent. -/
theorem scan_text (d : Decimal) :
    let whole := d.digits * Nat.pow 10 d.exponent.toNat
    let scale := Nat.pow 10 (-d.exponent).toNat
    ∃ fraction, fraction.getD [] = Decimal.fractionText (-d.exponent).toNat (whole % scale) ∧
      Numeral.scan d.text = (⟨Nat.toDigits 10 (whole / scale), fraction, none⟩, []) := by
  intro whole scale
  have hdigits : ∀ c ∈ Nat.toDigits 10 (whole / scale), c.isDigit = true := fun c hc =>
    Nat.isDigit_of_mem_toDigits (by decide) (by decide) hc
  unfold Decimal.text
  simp only
  split
  · next hfraction =>
    have hnone : ∀ c ∈ (none : Option (List Char)).getD [], c.isDigit = true := by simp
    have hscan := scan_positional hdigits hnone
    rw [Option.map_none, Option.getD_none, List.append_nil] at hscan
    exact ⟨none, hfraction.symm, hscan⟩
  · have hfraction : ∀ c ∈ (some (Decimal.fractionText (-d.exponent).toNat
        (whole % scale))).getD [], c.isDigit = true := fun c hc => isDigit_of_mem_fractionText hc
    exact ⟨some _, rfl, scan_positional hdigits hfraction⟩

/-- A positional text is a number. -/
theorem numberForm_text (d : Decimal) : NumberForm d.text := by
  obtain ⟨fraction, -, hscan⟩ := scan_text d
  exact .decimal (Numeral.strip?_eq_none hscan) hscan
    (by simp [Numeral.hasDigits, Nat.toDigits_ne_nil])

theorem numberForm_magnitudeText (x : Float) : NumberForm (magnitudeText x) := by
  unfold magnitudeText
  split
  · exact .decimal (n := ⟨['0'], none, none⟩) rfl rfl rfl
  · exact numberForm_text _

/-- The text of a value is a number, with a minus sign before it or without. -/
theorem exists_valueText (x : Float) :
    ∃ u, NumberForm u ∧ (valueText x = u ∨ valueText x = '-' :: u) := by
  unfold valueText numberText
  split
  · exact ⟨_, .notANumber rfl, Or.inl rfl⟩
  · have hmagnitude : NumberForm (if x.isInf then infinityWord else magnitudeText x.abs) := by
      split
      · exact .infinity rfl
      · exact numberForm_magnitudeText _
    refine ⟨_, hmagnitude, ?_⟩
    simp only
    split
    · exact Or.inr rfl
    · exact Or.inl rfl

theorem separable_valueText (x : Float) : Separable (valueText x) := by
  obtain ⟨u, hu, htext | htext⟩ := exists_valueText x
  · rw [htext]
    exact separable_numberForm hu
  · rw [htext]
    exact separable_operator .minus (separable_numberForm hu)

end FormulaField
