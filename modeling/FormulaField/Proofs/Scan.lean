import FormulaField.Token.Scan

/-!
How the tokens of a text unfold: nothing for a blank, one token for any other character, and the end
mark where no character is left. All that is said about scanned texts is derived from these three
equations.
-/

namespace FormulaField

open Text

/-- The tokens of a text without the end mark. -/
def properTokens (text : String) : List Token := (tokenize text).dropLast

/-- What a token looks like wherever it stands. -/
def Token.face (t : Token) : TokenKind × String := (t.kind, t.text)

theorem wordKind_ne_finish (word : List Char) : wordKind word ≠ .finish := by
  unfold wordKind
  split <;> simp

theorem lexeme_ne_finish (c : Char) (rest : List Char) : (lexeme c rest).1 ≠ .finish := by
  unfold lexeme
  split
  · simp
  · split
    · simp
    · split
      · exact wordKind_ne_finish _
      · simp

namespace Scanner

theorem tokens_eq (s : Scanner) : s.tokens =
    if s.skipBlanks.rest = [] then [s.next.1] else s.next.1 :: s.next.2.tokens := by
  rw [tokens]
  split <;> rfl

theorem tokens_nil (o : Nat) : tokens ⟨[], o⟩ = [⟨.finish, ⟨o, o⟩, ""⟩] := by
  have h : (skipBlanks ⟨[], o⟩).rest = [] := rfl
  rw [tokens_eq, if_pos h]
  rfl

theorem skipBlanks_blank {c : Char} (hc : isBlank c = true) (cs : List Char) (o : Nat) :
    skipBlanks ⟨c :: cs, o⟩ = skipBlanks ⟨cs, o + c.utf8Size⟩ := by
  simp [skipBlanks, hc, byteLength, Nat.add_assoc]

theorem skipBlanks_cons {c : Char} (hc : isBlank c = false) (cs : List Char) (o : Nat) :
    skipBlanks ⟨c :: cs, o⟩ = ⟨c :: cs, o⟩ := by
  simp [skipBlanks, hc, byteLength]

theorem next_blank {c : Char} (hc : isBlank c = true) (cs : List Char) (o : Nat) :
    next ⟨c :: cs, o⟩ = next ⟨cs, o + c.utf8Size⟩ := by
  rw [next, next, skipBlanks_blank hc]

theorem next_cons {c : Char} (hc : isBlank c = false) (cs : List Char) (o : Nat) :
    next ⟨c :: cs, o⟩ =
      (⟨(lexeme c cs).1, ⟨o, o + byteLength (c :: cs.take (lexeme c cs).2)⟩,
        String.ofList (c :: cs.take (lexeme c cs).2)⟩,
       ⟨cs.drop (lexeme c cs).2, o + byteLength (c :: cs.take (lexeme c cs).2)⟩) := by
  rw [next, skipBlanks_cons hc]
  rfl

theorem tokens_blank {c : Char} (hc : isBlank c) (cs : List Char) (o : Nat) :
    tokens ⟨c :: cs, o⟩ = tokens ⟨cs, o + c.utf8Size⟩ := by
  rw [tokens_eq, tokens_eq ⟨cs, _⟩, next_blank hc, skipBlanks_blank hc]

theorem tokens_cons {c : Char} (hc : isBlank c = false) (cs : List Char) (o : Nat) :
    tokens ⟨c :: cs, o⟩ =
      ⟨(lexeme c cs).1, ⟨o, o + byteLength (c :: cs.take (lexeme c cs).2)⟩,
        String.ofList (c :: cs.take (lexeme c cs).2)⟩ ::
        tokens ⟨cs.drop (lexeme c cs).2, o + byteLength (c :: cs.take (lexeme c cs).2)⟩ := by
  rw [tokens_eq, next_cons hc, skipBlanks_cons hc, if_neg (List.cons_ne_nil c cs)]

theorem tokens_blanks {pre : List Char} (h : ∀ c ∈ pre, isBlank c = true) (v : List Char)
    (o : Nat) : tokens ⟨pre ++ v, o⟩ = tokens ⟨v, o + byteLength pre⟩ := by
  induction pre generalizing o with
  | nil => rfl
  | cons c cs ih =>
    rw [List.cons_append, tokens_blank (h c List.mem_cons_self),
      ih (fun d hd => h d (List.mem_cons_of_mem c hd))]
    simp [byteLength, Nat.add_assoc]

theorem tokens_ne_nil (s : Scanner) : s.tokens ≠ [] := by
  rw [tokens_eq]
  split <;> exact List.cons_ne_nil _ _

/-- Only the end mark stands in a text of blanks. -/
theorem blank_of_tokens_singleton {v : List Char} {o : Nat} {e : Token}
    (h : tokens ⟨v, o⟩ = [e]) : ∀ c ∈ v, isBlank c = true := by
  induction v generalizing o with
  | nil =>
    intro c hc
    cases hc
  | cons c cs ih =>
    cases hc : isBlank c with
    | true =>
      rw [tokens_blank hc] at h
      intro d hd
      rcases List.mem_cons.mp hd with rfl | hd
      · exact hc
      · exact ih h d hd
    | false =>
      rw [tokens_cons hc] at h
      exact absurd (List.cons.inj h).2 (tokens_ne_nil _)

/-- No token begins before the place where its scan began. -/
theorem start_of_tokens {v : List Char} {o : Nat} {t : Token} {ts : List Token}
    (h : tokens ⟨v, o⟩ = t :: ts) : o ≤ t.span.start := by
  induction v generalizing o with
  | nil =>
    rw [tokens_nil] at h
    cases h
    exact Nat.le_refl o
  | cons c cs ih =>
    cases hc : isBlank c with
    | true =>
      rw [tokens_blank hc] at h
      exact Nat.le_trans (Nat.le_add_right ..) (ih h)
    | false =>
      rw [tokens_cons hc] at h
      cases h
      exact Nat.le_refl o

/-- The end mark comes last, and nowhere else. -/
theorem exists_tokens_eq_append : ∀ (n : Nat) (cs : List Char) (o : Nat), cs.length ≤ n →
    ∃ body e, tokens ⟨cs, o⟩ = body ++ [e] ∧ e.face = (.finish, "") ∧
      ∀ t ∈ body, t.kind ≠ .finish
  | _, [], o, _ => ⟨[], _, tokens_nil o, rfl, by simp⟩
  | n + 1, c :: cs, o, hn => by
    have hcs : cs.length ≤ n := Nat.le_of_succ_le_succ hn
    cases hc : isBlank c with
    | true =>
      rw [tokens_blank hc]
      exact exists_tokens_eq_append n cs _ hcs
    | false =>
      rw [tokens_cons hc]
      obtain ⟨body, e, hbody, he, hkind⟩ := exists_tokens_eq_append n
        (cs.drop (lexeme c cs).2) (o + byteLength (c :: cs.take (lexeme c cs).2))
        (by rw [List.length_drop]; omega)
      refine ⟨_ :: body, e, by rw [hbody]; rfl, he, ?_⟩
      rintro t ht
      rcases List.mem_cons.mp ht with rfl | ht
      · exact lexeme_ne_finish c cs
      · exact hkind t ht

end Scanner

theorem exists_tokenize_eq (text : String) : ∃ e, tokenize text = properTokens text ++ [e] ∧
    e.face = (.finish, "") ∧ ∀ t ∈ properTokens text, t.kind ≠ .finish := by
  obtain ⟨body, e, h, he, hkind⟩ :=
    Scanner.exists_tokens_eq_append _ text.toList 0 (Nat.le_refl _)
  have hbody : properTokens text = body := by
    rw [properTokens, tokenize, Scanner.ofText, h, List.dropLast_concat]
  exact ⟨e, by rw [hbody]; exact h, he, by rwa [hbody]⟩

end FormulaField
