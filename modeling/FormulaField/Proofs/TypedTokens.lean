import FormulaField.Proofs.Parse
import FormulaField.Proofs.TypedNumber

/-!
The editor and the scanner agree on what a number is. The editor looks at a whole text from both
ends, the scanner takes tokens off its front; but what the editor accepts is what the scanner reads
as one number, or as a sign that touches a number, and the value of the text is then the value of the
number typed.
-/

namespace FormulaField

open Text

/-- The tokens of a text that is a number: a number token, or a sign that touches a number token
without a mark of a base, and the end. -/
inductive NumberTokens : List Token → Prop
  | unsigned {n e : Token} : n.kind = .number → n.text ≠ "NaN" → e.kind = .finish →
      NumberTokens [n, e]
  | signed {t n e : Token} {s : Sign} : t.kind = .operator s.operator → n.kind = .number →
      n.text ≠ "NaN" → Radix.strip? n.text.toList = none → t.span.stop = n.span.start →
      e.kind = .finish → NumberTokens [t, n, e]

/-! ### A number inside its padding -/

section
variable {text : String}

/-- A text with something in it has a core that blanks surround. -/
theorem exists_core (hmark : '\uFEFF' ∉ text.toList) (hblank : isAllBlank text = false) :
    ∃ pre c cs post, trimBy isPadding text.toList = c :: cs ∧
      text.toList = pre ++ (c :: cs ++ post) ∧ (∀ d ∈ pre, isBlank d = true) ∧
      (∀ d ∈ post, isBlank d = true) ∧ isBlank c = false ∧
      isBlank ((c :: cs).getLast (List.cons_ne_nil c cs)) = false := by
  obtain ⟨pre, post, htext, hpre, hpost⟩ := exists_eq_trimBy isPadding text.toList
  have hsame : ∀ d ∈ text.toList, isPadding d = isBlank d := by
    intro d hd
    have hne : d ≠ '\uFEFF' := fun h => hmark (h ▸ hd)
    simp [isPadding, hne]
  cases htrim : trimBy isPadding text.toList with
  | nil =>
    rw [htrim, List.nil_append] at htext
    have hall : isAllBlank text = true := by
      refine List.all_eq_true.mpr fun d hd => ?_
      rw [← hsame d hd]
      rw [htext] at hd
      rcases List.mem_append.mp hd with hd | hd
      · exact hpre d hd
      · exact hpost d hd
    rw [hblank] at hall
    cases hall
  | cons c cs =>
    have hlast := trimBy_getLast (by rw [htrim]; exact List.cons_ne_nil c cs)
    have hfirst := trimBy_head htrim
    simp only [htrim] at hlast htext
    refine ⟨pre, c, cs, post, rfl, htext, ?_, ?_, ?_, ?_⟩
    · intro d hd
      rw [← hsame d (by simp [htext, hd])]
      exact hpre d hd
    · intro d hd
      rw [← hsame d (by simp [htext, hd])]
      exact hpost d hd
    · rw [← hsame c (by simp [htext])]
      exact hfirst
    · have hmem := List.getLast_mem (List.cons_ne_nil c cs)
      rw [← hsame _ (by rw [htext]; exact List.mem_append_right _ (List.mem_append_left _ hmem))]
      exact hlast

end

section
variable {u post : List Char}

theorem tokens_finish (hpost : ∀ d ∈ post, isBlank d = true) (o : Nat) :
    ∃ e, Scanner.tokens ⟨post, o⟩ = [e] ∧ e.kind = .finish := by
  have htokens := Scanner.tokens_blanks hpost [] o
  rw [List.append_nil, Scanner.tokens_nil] at htokens
  exact ⟨_, htokens, rfl⟩

theorem ofList_ne_nan (h : u ≠ nanWord) : String.ofList u ≠ "NaN" := by
  intro htext
  have hchars := congrArg String.toList htext
  rw [String.toList_ofList] at hchars
  exact h hchars

theorem numberTokens_of_typedForm (h : TypedForm u) (hpost : ∀ d ∈ post, isBlank d = true)
    (o : Nat) : NumberTokens (Scanner.tokens ⟨u ++ post, o⟩) := by
  have hbreaks := (breaks_of_blank hpost).1
  cases h with
  | unsigned hform hnan =>
    rw [tokens_of_numberForm hform hbreaks]
    obtain ⟨e, he, hfinish⟩ := tokens_finish hpost (o + byteLength u)
    rw [he]
    exact .unsigned rfl (ofList_ne_nan hnan) hfinish
  | @signed s w hu hform hnan hstrip =>
    subst hu
    rw [List.cons_append, tokens_operator, tokens_of_numberForm hform hbreaks]
    obtain ⟨e, he, hfinish⟩ := tokens_finish hpost (o + s.operator.char.utf8Size + byteLength w)
    rw [he]
    refine .signed rfl rfl (ofList_ne_nan hnan) ?_ rfl hfinish
    rw [String.toList_ofList]
    exact hstrip

theorem typedForm_of_numberTokens {c : Char} {cs : List Char} {o : Nat}
    (hc : isBlank c = false) (hlast : isBlank ((c :: cs).getLast (List.cons_ne_nil c cs)) = false)
    (hpost : ∀ d ∈ post, isBlank d = true)
    (h : NumberTokens (Scanner.tokens ⟨c :: cs ++ post, o⟩)) : TypedForm (c :: cs) := by
  generalize hts : Scanner.tokens ⟨c :: cs ++ post, o⟩ = ts at h
  cases h with
  | unsigned hn hnan he =>
    have hform := numberForm_of_tokens hc hlast hpost hts hn
    refine .unsigned hform ?_
    rw [tokens_of_numberForm hform (breaks_of_blank hpost).1] at hts
    obtain ⟨rfl, -⟩ := List.cons.inj hts
    rintro hcs
    rw [hcs] at hnan
    exact hnan rfl
  | @signed t n e s ht hn hnan hstrip htouch he =>
    have hchar : c = s.operator.char := by
      rw [List.cons_append, Scanner.tokens_cons hc] at hts
      obtain ⟨rfl, -⟩ := List.cons.inj hts
      exact eq_char_of_lexeme ht
    subst hchar
    rw [List.cons_append, tokens_operator] at hts
    obtain ⟨rfl, hrest⟩ := List.cons.inj hts
    cases cs with
    | nil =>
      obtain ⟨e', hfinish, -⟩ := tokens_finish hpost (o + s.operator.char.utf8Size)
      rw [List.nil_append, hfinish] at hrest
      cases hrest
    | cons d ds =>
      -- the number touches the sign, so no blank stands between them
      have hd : isBlank d = false := by
        rw [← Bool.not_eq_true]
        intro hd
        rw [List.cons_append, Scanner.tokens_blank hd] at hrest
        have hstart := Scanner.start_of_tokens hrest
        have hsize := Char.utf8Size_pos d
        simp only at htouch
        omega
      rw [List.getLast_cons (List.cons_ne_nil d ds)] at hlast
      have hform := numberForm_of_tokens hd hlast hpost hrest hn
      rw [tokens_of_numberForm hform (breaks_of_blank hpost).1] at hrest
      obtain ⟨rfl, -⟩ := List.cons.inj hrest
      rw [String.toList_ofList] at hstrip
      refine .signed rfl hform ?_ hstrip
      rintro hds
      rw [hds] at hnan
      exact hnan rfl

end

/-! ### The tokens of an expression -/

theorem calculate_of_derives {text : String} {e : Expr}
    (h : Derives .additive (properTokens text) e) (hdepth : e.nesting ≤ maxDepth)
    (hoperations : e.operations ≤ maxOperations) : calculate text = .ok e.eval := by
  have hparse : parse text = .ok e := by
    rcases parse_of_derives h with ⟨h, -⟩ | ⟨-, h⟩ | ⟨-, h⟩
    · exact h
    · exact absurd hdepth (Nat.not_le_of_lt h)
    · exact absurd hoperations (Nat.not_le_of_lt h)
  rw [calculate, hparse]
  rfl

theorem calculate_of_unsigned {text : String} {n e : Token} {x : Float}
    (htokens : tokenize text = [n, e]) (hn : n.kind = .number)
    (hx : literalValue? n.text = some x) : calculate text = .ok x := by
  have hproper : properTokens text = [n] := by
    rw [properTokens, htokens]
    rfl
  have hderives : Derives .additive (properTokens text) (.number x) := by
    rw [hproper]
    exact .term (.unary (.power (.primary (.number hn hx))))
  exact calculate_of_derives hderives (Nat.zero_le _) (Nat.zero_le _)

theorem calculate_of_signed {text : String} {t n e : Token} {s : Sign} {x : Float}
    (htokens : tokenize text = [t, n, e]) (ht : t.kind = .operator s.operator)
    (hn : n.kind = .number) (hx : literalValue? n.text = some x) :
    calculate text = .ok (s.apply x) := by
  have hproper : properTokens text = [t, n] := by
    rw [properTokens, htokens]
    rfl
  have hderives : Derives .additive (properTokens text) (.signed s (.number x)) := by
    rw [hproper]
    exact .term (.unary (.sign ht (.power (.primary (.number hn hx)))))
  exact calculate_of_derives hderives (Nat.succ_le_succ (Nat.zero_le _)) (Nat.zero_le _)

section
variable {text : String} {u pre post : List Char} {x : Float}

theorem tokenize_of_blanks (htext : text.toList = pre ++ u) (hpre : ∀ d ∈ pre, isBlank d = true) :
    tokenize text = Scanner.tokens ⟨u, 0 + byteLength pre⟩ := by
  rw [tokenize, Scanner.ofText, htext, Scanner.tokens_blanks hpre]

/-- A number among blanks is an expression, and has the value that it has as a number. -/
theorem calculate_of_numberForm (h : NumberForm u) (hx : literalValue? (String.ofList u) = some x)
    (htext : text.toList = pre ++ (u ++ post)) (hpre : ∀ d ∈ pre, isBlank d = true)
    (hpost : ∀ d ∈ post, isBlank d = true) : calculate text = .ok x := by
  have htokens := tokenize_of_blanks htext hpre
  obtain ⟨e, he, -⟩ := tokens_finish hpost (0 + byteLength pre + byteLength u)
  rw [tokens_of_numberForm h (breaks_of_blank hpost).1, he] at htokens
  exact calculate_of_unsigned htokens rfl hx

/-- A sign before the number is applied to its value. -/
theorem calculate_of_sign_numberForm {s : Sign} (h : NumberForm u)
    (hx : literalValue? (String.ofList u) = some x)
    (htext : text.toList = pre ++ (s.operator.char :: u ++ post))
    (hpre : ∀ d ∈ pre, isBlank d = true) (hpost : ∀ d ∈ post, isBlank d = true) :
    calculate text = .ok (s.apply x) := by
  have htokens := tokenize_of_blanks htext hpre
  obtain ⟨e, he, -⟩ := tokens_finish hpost
    (0 + byteLength pre + s.operator.char.utf8Size + byteLength u)
  rw [List.cons_append, tokens_operator, tokens_of_numberForm h (breaks_of_blank hpost).1, he]
    at htokens
  exact calculate_of_signed htokens rfl rfl hx

theorem calculate_of_typedForm (h : TypedForm u)
    (htrim : trimBy isPadding text.toList = u) (htext : text.toList = pre ++ (u ++ post))
    (hpre : ∀ d ∈ pre, isBlank d = true) (hpost : ∀ d ∈ post, isBlank d = true) :
    calculate text = .ok (typedNumber text) := by
  cases h with
  | unsigned hform hnan =>
    obtain ⟨hx, -⟩ := typedNumber_of_numberForm htrim hform hnan
    exact calculate_of_numberForm hform hx htext hpre hpost
  | @signed s w hu hform hnan hstrip =>
    subst hu
    obtain ⟨x, hx, htyped, -⟩ := typedNumber_of_sign htrim hform hnan hstrip
    rw [htyped]
    exact calculate_of_sign_numberForm hform hx htext hpre hpost

end

/-- The editor's recognizer and the scanner agree: a text with something in it is a typed number
exactly if its tokens are those of a number, and then its value is the number typed. -/
theorem isTypedNumber_iff_numberTokens {text : String} (hmark : '\uFEFF' ∉ text.toList)
    (hblank : isAllBlank text = false) :
    (isTypedNumber text = true ↔ NumberTokens (tokenize text)) ∧
    (isTypedNumber text = true → calculate text = .ok (typedNumber text)) := by
  obtain ⟨pre, c, cs, post, htrim, htext, hpre, hpost, hc, hlast⟩ := exists_core hmark hblank
  have htyped : isTypedNumber text = true ↔ TypedForm (c :: cs) := by
    rw [isTypedNumber_iff htrim]
    simp
  have htokens : tokenize text = Scanner.tokens ⟨c :: cs ++ post, 0 + byteLength pre⟩ := by
    rw [tokenize, Scanner.ofText, htext, Scanner.tokens_blanks hpre]
  refine ⟨⟨?_, ?_⟩, ?_⟩
  · intro h
    rw [htokens]
    exact numberTokens_of_typedForm (htyped.mp h) hpost _
  · intro h
    rw [htokens] at h
    exact htyped.mpr (typedForm_of_numberTokens hc hlast hpost h)
  · intro h
    exact calculate_of_typedForm (htyped.mp h) htrim htext hpre hpost

/-- The signed text `-.5e1`, between blanks, is the number that it looks like, and has the value `-5`. -/
theorem calculate_signed_text : ('\uFEFF' ∉ " -.5e1 ".toList ∧ isAllBlank " -.5e1 " = false) ∧
    isTypedNumber " -.5e1 " = true ∧
    tokenize " -.5e1 " =
      [⟨.operator .minus, ⟨1, 2⟩, "-"⟩, ⟨.number, ⟨2, 6⟩, ".5e1"⟩, ⟨.finish, ⟨7, 7⟩, ""⟩] ∧
    NumberTokens (tokenize " -.5e1 ") ∧ calculate " -.5e1 " = .ok (typedNumber " -.5e1 ") ∧
    typedNumber " -.5e1 " = Float.ofBits 0xC014000000000000 := by
  have hnumber : isTypedNumber " -.5e1 " = true := by decide +kernel
  obtain ⟨htokens, hvalue⟩ := @isTypedNumber_iff_numberTokens " -.5e1 " (by decide) (by decide)
  exact ⟨⟨by decide, by decide⟩, hnumber, by decide +kernel, htokens.mp hnumber, hvalue hnumber,
    by decide +kernel⟩

end FormulaField
