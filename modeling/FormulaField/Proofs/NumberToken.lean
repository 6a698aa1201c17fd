import Mathlib.Data.List.TakeWhile
import FormulaField.Expr.Basic
import FormulaField.Proofs.NaN
import FormulaField.Proofs.NumberText
import FormulaField.Proofs.Scan

/-!
Texts that are one number token from end to end. There are four forms of them: the two words, a
numeral with the mark of its base, and a decimal numeral. Each form has a value, and the only one
whose value is not a number says so.
-/

namespace FormulaField

open Text

/-! ### Digits -/

/-- What holds of the ten digits holds of every digit. -/
theorem forall_isDigit {P : Char → Prop} (h : ∀ n : Fin 10, P (Char.ofNat (48 + n))) {c : Char}
    (hc : c.isDigit = true) : P c := by
  have hrange : '0' ≤ c ∧ c ≤ '9' := by simpa [Char.isDigit, Char.le_def] using hc
  have hlow : 48 ≤ c.toNat := hrange.1
  have hhigh : c.toNat ≤ 57 := hrange.2
  have hcode : 48 + (c.toNat - 48) = c.toNat := by omega
  have hP := h ⟨c.toNat - 48, by omega⟩
  simp only [hcode, Char.ofNat_toNat] at hP
  exact hP

/-- The character begins a numeral, and so it begins nothing else. -/
structure BeginsNumeral (c : Char) : Prop where
  operator : Operator.ofChar? c = none
  blank : isBlank c = false
  lower : c.toLower = c
  letter : c ≠ 'i' ∧ c ≠ 'n' ∧ c ≠ 'I' ∧ c ≠ 'N'
  sign : c ≠ '+' ∧ c ≠ '-'

theorem beginsNumeral_of_isDigit {c : Char} (h : c.isDigit = true) : BeginsNumeral c := by
  refine forall_isDigit (P := BeginsNumeral) (fun n => ⟨?_, ?_, ?_, ?_, ?_⟩) h
  all_goals revert n; decide

theorem beginsNumeral_point : BeginsNumeral '.' := by
  refine ⟨?_, ?_, ?_, ?_, ?_⟩ <;> decide

theorem beginsNumeral_of_hasDigits {c : Char} {cs : List Char}
    (h : (Numeral.scan (c :: cs)).1.hasDigits = true) : BeginsNumeral c := by
  rw [Numeral.hasDigits_scan_iff, Bool.or_eq_true, Bool.and_eq_true, beq_iff_eq] at h
  rcases h with h | ⟨rfl, -⟩
  · exact beginsNumeral_of_isDigit h
  · exact beginsNumeral_point

/-! ### The forms of a number token -/

/-- The text is one number token from end to end. -/
def IsNumberToken : List Char → Prop
  | [] => False
  | c :: cs => lexeme c cs = (.number, cs.length)

/-- The forms that a number token can have. -/
inductive NumberForm (u : List Char) : Prop
  | infinity : u = infinityWord → NumberForm u
  | notANumber : u = nanWord → NumberForm u
  | radix {r : Radix} {digits : List Char} : Radix.strip? u = some (r, digits) → digits ≠ [] →
      digits.all r.isDigit = true → NumberForm u
  | decimal {n : Numeral} : Radix.strip? u = none → Numeral.scan u = (n, []) →
      n.hasDigits = true → NumberForm u

theorem numberForm_of_numeralLength {c : Char} {cs : List Char}
    (hbegins : (c.isDigit || (c == '.' && beginsWithDigit cs)) = true)
    (h : numeralLength (c :: cs) = cs.length + 1) : NumberForm (c :: cs) := by
  cases hstrip : Radix.strip? (c :: cs) with
  | some p =>
    obtain ⟨r, digits⟩ := p
    obtain ⟨mark, hu, -⟩ := Radix.eq_of_strip? hstrip
    cases hu
    simp only [numeralLength, hstrip, Numeral.scan_of_strip? hstrip] at h
    split at h
    · simp [Numeral.text] at h
    · next hdigits =>
      have htake : digits.takeWhile r.isDigit = digits :=
        (List.takeWhile_prefix _).eq_of_length (by simpa using h)
      refine .radix hstrip ?_ ?_
      · rintro rfl
        exact hdigits rfl
      · rw [← htake]
        exact List.all_takeWhile
  | none =>
    simp only [numeralLength, hstrip] at h
    refine .decimal hstrip ?_ ((Numeral.hasDigits_scan_iff c cs).mpr hbegins)
    exact Prod.ext rfl (Numeral.scan_eq_nil_of_length h)

theorem numberForm_of_isNumberToken {u : List Char} (h : IsNumberToken u) : NumberForm u := by
  cases u with
  | nil => cases h
  | cons c cs =>
    simp only [IsNumberToken, lexeme] at h
    split at h
    · cases h
    · split at h
      · next hbegins =>
        have hpos := numeralLength_pos hbegins
        have hlength : numeralLength (c :: cs) - 1 = cs.length := congrArg Prod.snd h
        exact numberForm_of_numeralLength hbegins (by omega)
      · split at h
        · have hkind : wordKind (c :: cs.takeWhile isWordChar) = .number := congrArg Prod.fst h
          have htake : cs.takeWhile isWordChar = cs :=
            (List.takeWhile_prefix _).eq_of_length (congrArg Prod.snd h)
          rw [htake, wordKind] at hkind
          split at hkind
          · next hword =>
            rcases hword with hword | hword
            · exact .infinity hword
            · exact .notANumber hword
          · cases hkind
        · cases h

theorem lexeme_of_hasDigits {c : Char} {cs : List Char}
    (h : (Numeral.scan (c :: cs)).1.hasDigits = true) :
    lexeme c cs = (.number, numeralLength (c :: cs) - 1) := by
  have hbegins := (Numeral.hasDigits_scan_iff c cs).mp h
  unfold lexeme
  rw [(beginsNumeral_of_hasDigits h).operator]
  simp only
  rw [if_pos hbegins]

theorem isNumberToken_of_numberForm {u : List Char} (h : NumberForm u) : IsNumberToken u := by
  cases h with
  | infinity h =>
    subst h
    change lexeme 'I' _ = _
    decide
  | notANumber h =>
    subst h
    change lexeme 'N' _ = _
    decide
  | radix hstrip hne hall =>
    obtain ⟨mark, rfl, hmark⟩ := Radix.eq_of_strip? hstrip
    rename_i r digits
    have htake : digits.takeWhile r.isDigit = digits :=
      List.takeWhile_eq_self_iff.mpr (List.all_eq_true.mp hall)
    have hlength : numeralLength ('0' :: mark :: digits) = digits.length + 2 := by
      simp [numeralLength, hstrip, htake, hne]
    have hdigits : (Numeral.scan ('0' :: mark :: digits)).1.hasDigits = true := by
      rw [Numeral.scan_of_strip? hstrip]
      rfl
    rw [IsNumberToken, lexeme_of_hasDigits hdigits, hlength]
    simp
  | decimal hstrip hscan hdigits =>
    rename_i n
    cases u with
    | nil =>
      cases hscan
      cases hdigits
    | cons c cs =>
      have htext := Numeral.text_append (c :: cs)
      rw [hscan, List.append_nil] at htext
      have hlength : numeralLength (c :: cs) = cs.length + 1 := by
        simp only [numeralLength, hstrip, hscan, htext, List.length_cons]
      rw [IsNumberToken, lexeme_of_hasDigits (by rwa [hscan]), hlength]
      simp

/-! ### The values of number tokens -/

theorem Radix.foldlM_isSome_iff {r : Radix} {digits : List Char} (sum : Float) :
    (digits.foldlM (fun sum c => (r.digit? c).map fun d =>
      sum * Float.ofNat r.base + Float.ofNat d) sum).isSome = true ↔
      digits.all r.isDigit = true := by
  induction digits generalizing sum with
  | nil => simp
  | cons c cs ih =>
    rw [List.foldlM_cons, List.all_cons]
    cases hd : r.digit? c with
    | none => simp [isDigit, hd]
    | some d => simp [isDigit, hd, ih]

theorem Radix.value?_isSome_iff {r : Radix} {digits : List Char} :
    (r.value? digits).isSome = true ↔ digits ≠ [] ∧ digits.all r.isDigit = true := by
  unfold value?
  split
  · next h => simp [h]
  · next h => simp only [foldlM_isSome_iff, h, ne_eq, not_false_eq_true, true_and]

theorem Numeral.read?_eq_some_iff {u : List Char} {d : Decimal} : read? u = some d ↔
    ∃ n, scan u = (n, []) ∧ n.hasDigits = true ∧ n.value = d := by
  unfold read?
  cases hscan : scan u with
  | mk n rest =>
    cases rest with
    | nil => simp
    | cons c cs => simp

theorem Numeral.exists_cons_of_scan {u : List Char} {n : Numeral} (hscan : scan u = (n, []))
    (hdigits : n.hasDigits = true) :
    ∃ c cs, u = c :: cs ∧ (scan (c :: cs)).1.hasDigits = true := by
  cases u with
  | nil =>
    cases hscan
    cases hdigits
  | cons c cs => exact ⟨c, cs, rfl, by rwa [hscan]⟩

theorem decimalMagnitude?_of_scan {u : List Char} {n : Numeral} (hscan : Numeral.scan u = (n, []))
    (hdigits : n.hasDigits = true) : decimalMagnitude? u = some n.value.toFloat := by
  rw [decimalMagnitude?, Numeral.read?_eq_some_iff.mpr ⟨n, hscan, hdigits, rfl⟩]
  rfl

theorem readSigned?_of_unsigned {magnitude? : List Char → Option Float} {c : Char} {cs : List Char}
    (h : BeginsNumeral c) : readSigned? magnitude? (c :: cs) = magnitude? (c :: cs) := by
  simp [readSigned?, takeSign, h.sign]

theorem BeginsNumeral.ne_word {c : Char} (h : BeginsNumeral c) (cs : List Char) :
    c :: cs ≠ infinityWord ∧ c :: cs ≠ nanWord := by
  simp [infinityWord, nanWord, h.letter]

theorem literalValue?_of_strip? {u digits : List Char} {r : Radix}
    (h : Radix.strip? u = some (r, digits)) :
    literalValue? (String.ofList u) = r.value? digits := by
  obtain ⟨mark, rfl, -⟩ := Radix.eq_of_strip? h
  have hwords := (beginsNumeral_of_isDigit (c := '0') rfl).ne_word (mark :: digits)
  simp [literalValue?, hwords, h]

theorem plainMagnitude?_of_scan {u : List Char} {n : Numeral} (hscan : Numeral.scan u = (n, []))
    (hdigits : n.hasDigits = true) : plainMagnitude? u = some n.value.toFloat := by
  obtain ⟨c, cs, rfl, h⟩ := Numeral.exists_cons_of_scan hscan hdigits
  have hc := beginsNumeral_of_hasDigits h
  rw [← decimalMagnitude?_of_scan hscan hdigits]
  simp [plainMagnitude?, hc.lower, hc.letter, infinityWord, nanWord]

theorem literalValue?_of_scan {u : List Char} {n : Numeral} (hstrip : Radix.strip? u = none)
    (hscan : Numeral.scan u = (n, [])) (hdigits : n.hasDigits = true) :
    literalValue? (String.ofList u) = some n.value.toFloat := by
  obtain ⟨c, cs, rfl, h⟩ := Numeral.exists_cons_of_scan hscan hdigits
  have hc := beginsNumeral_of_hasDigits h
  rw [literalValue?, String.toList_ofList]
  simp only [hc.ne_word, if_false, hstrip]
  rw [readSigned?_of_unsigned hc, plainMagnitude?_of_scan hscan hdigits]

/-- Every number token has a value. -/
theorem NumberForm.exists_value {u : List Char} (h : NumberForm u) :
    ∃ x, literalValue? (String.ofList u) = some x := by
  cases h with
  | infinity h =>
    subst h
    exact ⟨_, rfl⟩
  | notANumber h =>
    subst h
    exact ⟨_, rfl⟩
  | radix hstrip hne hall =>
    rw [literalValue?_of_strip? hstrip]
    exact Option.isSome_iff_exists.mp (Radix.value?_isSome_iff.mpr ⟨hne, hall⟩)
  | decimal hstrip hscan hdigits => exact ⟨_, literalValue?_of_scan hstrip hscan hdigits⟩

/-! ### Number tokens in a text -/

theorem not_isBlank_of_numberForm {c : Char} {cs : List Char} (h : NumberForm (c :: cs)) :
    isBlank c = false := by
  cases h with
  | infinity h => cases h; decide
  | notANumber h => cases h; decide
  | radix hstrip =>
    obtain ⟨mark, hu, -⟩ := Radix.eq_of_strip? hstrip
    cases hu
    decide
  | decimal hstrip hscan hdigits =>
    exact (beginsNumeral_of_hasDigits (by rwa [hscan])).blank

theorem Operator.eq_char_of_ofChar? {c : Char} {o : Operator} (h : ofChar? c = some o) :
    c = o.char := by
  unfold ofChar? at h
  split at h <;> cases h <;> rfl

theorem not_isBlank_operator (o : Operator) : isBlank o.char = false := by
  cases o <;> decide

theorem lexeme_operator (o : Operator) (cs : List Char) : lexeme o.char cs = (.operator o, 0) := by
  rw [lexeme, Operator.ofChar?_char]

theorem eq_char_of_lexeme {c : Char} {cs : List Char} {o : Operator}
    (h : (lexeme c cs).1 = .operator o) : c = o.char := by
  unfold lexeme at h
  split at h
  · next o' ho =>
    cases h
    exact Operator.eq_char_of_ofChar? ho
  · split at h
    · cases h
    · split at h
      · simp only [wordKind] at h
        split at h <;> cases h
      · cases h

theorem tokens_operator (op : Operator) (v : List Char) (o : Nat) :
    Scanner.tokens ⟨op.char :: v, o⟩ =
      ⟨.operator op, ⟨o, o + op.char.utf8Size⟩, String.ofList [op.char]⟩ ::
        Scanner.tokens ⟨v, o + op.char.utf8Size⟩ := by
  rw [Scanner.tokens_cons (not_isBlank_operator op), lexeme_operator]
  simp [byteLength]

theorem tokens_of_numberForm {u v : List Char} (h : NumberForm u) (hv : Breaks v) (o : Nat) :
    Scanner.tokens ⟨u ++ v, o⟩ = ⟨.number, ⟨o, o + byteLength u⟩, String.ofList u⟩ ::
      Scanner.tokens ⟨v, o + byteLength u⟩ := by
  cases u with
  | nil => exact (isNumberToken_of_numberForm h).elim
  | cons c cs =>
    have hlexeme : lexeme c cs = (.number, cs.length) := isNumberToken_of_numberForm h
    rw [List.cons_append, Scanner.tokens_cons (not_isBlank_of_numberForm h),
      lexeme_append hv (Or.inr (by rw [hlexeme])), hlexeme]
    simp

/-- A text of which the scanner makes a single number is that number and blanks. -/
theorem numberForm_of_tokens {c : Char} {cs post : List Char} {o : Nat} {n e : Token}
    (hc : isBlank c = false) (hlast : isBlank ((c :: cs).getLast (List.cons_ne_nil c cs)) = false)
    (hpost : ∀ c ∈ post, isBlank c = true)
    (h : Scanner.tokens ⟨c :: cs ++ post, o⟩ = [n, e]) (hn : n.kind = .number) :
    NumberForm (c :: cs) := by
  obtain ⟨hbreaks, hunsigned⟩ := breaks_of_blank hpost
  rw [List.cons_append, Scanner.tokens_cons hc, lexeme_append hbreaks (Or.inl hunsigned)] at h
  obtain ⟨hnumber, hrest⟩ := List.cons.inj h
  have hkind : (lexeme c cs).1 = .number := by rw [← hn, ← hnumber]
  have hle := lexeme_length_le c cs
  rw [List.drop_append_of_le_length hle] at hrest
  have hblank := Scanner.blank_of_tokens_singleton hrest
  refine numberForm_of_isNumberToken (Prod.ext hkind (Nat.le_antisymm hle ?_))
  -- else the last character would be among those left over
  refine Nat.le_of_not_lt fun hlt => ?_
  have hne : cs.drop (lexeme c cs).2 ≠ [] := by
    rw [ne_eq, List.drop_eq_nil_iff]
    omega
  have hmem : (c :: cs).getLast (List.cons_ne_nil c cs) ∈ cs.drop (lexeme c cs).2 := by
    have hcs : cs ≠ [] := by
      rintro rfl
      simp at hlt
    rw [List.getLast_cons hcs, ← List.getLast_drop hne]
    exact List.getLast_mem hne
  rw [hblank _ (List.mem_append_left post hmem)] at hlast
  cases hlast

end FormulaField
