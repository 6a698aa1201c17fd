import FormulaField.Proofs.Parse

/-!
Where a syntax error points. The tokens before the reported one can still be completed to a
sentence, and with it they cannot: the reader refuses a token, limits aside, only if no sentence
goes on like that. `Refusal` lists what a step can answer instead of a reading, and for each answer
what the end of the text would have meant at that place.
-/

namespace FormulaField

open Reading

/-! ### What a step can fail by -/

theorem eq_of_bind_eq_error {α β : Type} {x : Except Failure α} {f : α → Except Failure β}
    {g : Failure} (h : x >>= f = .error g) :
    x = .error g ∨ ∃ a, x = .ok a ∧ f a = .error g := by
  cases x with
  | ok a => exact Or.inr ⟨a, rfl, h⟩
  | error g' => cases h; exact Or.inl rfl

theorem error_of_countOperation {r : Reading} {taken : Bool} {f : Failure}
    (h : r.countOperation taken = .error f) : f.error = .tooLong := by
  unfold countOperation at h
  split at h
  · cases h
  · cases h; rfl

theorem error_of_primary {r : Reading} {e : Expr} {f : Failure} (h : r.primary e = .error f) :
    f.error = .tooLong := by
  unfold primary at h
  split at h
  · cases h
  · rcases eq_of_bind_eq_error h with h | ⟨r₁, -, h⟩
    · exact error_of_countOperation h
    · cases h

theorem error_of_closeProduct {r : Reading} {e : Expr} {f : Failure}
    (h : r.closeProduct e = .error f) : f.error = .tooLong := by
  simp only [closeProduct] at h
  split at h
  · cases h
  · rcases eq_of_bind_eq_error h with h | ⟨r₁, -, h⟩
    · exact error_of_countOperation h
    · cases h

theorem error_of_closeSum {r : Reading} {e : Expr} {f : Failure}
    (h : r.closeSum e = .error f) : f.error = .tooLong := by
  unfold closeSum at h
  split at h
  · cases h
  · rcases eq_of_bind_eq_error h with h | ⟨r₁, -, h⟩
    · exact error_of_countOperation h
    · cases h

theorem error_of_descend {r : Reading} {f : Failure} (h : r.descend = .error f) :
    f.error = .tooDeep := by
  simp only [descend] at h
  split at h
  · cases h
  · cases h; rfl

theorem error_of_endTerm {r : Reading} {e : Expr} {f : Failure} (ho : r.operand = some e)
    (h : r.endTerm = .error f) : f.error = .tooLong := by
  simp only [endTerm, ho] at h
  exact error_of_closeProduct h

theorem error_of_endSum {r : Reading} {e : Expr} {f : Failure} (ho : r.operand = some e)
    (h : r.endSum = .error f) : f.error = .tooLong := by
  rcases eq_of_bind_eq_error h with h | ⟨p, -, h⟩
  · exact error_of_endTerm ho h
  · exact error_of_closeSum h

theorem error_of_finish {r : Reading} {f : Failure} (h : r.finish = .error f) :
    f.error = .unexpectedEnd ∨ f.error = .tooLong := by
  rw [finish_eq] at h
  cases ho : r.operand with
  | none =>
    rw [endSum_due r ho] at h
    cases h
    exact Or.inl rfl
  | some e =>
    rcases eq_of_bind_eq_error h with h | ⟨p, -, h⟩
    · exact Or.inr (error_of_endSum ho h)
    · split at h
      · cases h
      · cases h; exact Or.inl rfl

/-- The errors by which a token may be refused. An unexpected token stands where the end of the text
would be unexpected too, a trailing one where the text could have ended. -/
inductive Refusal (r : Reading) (t : Token) : ParseError → Prop
  | tooDeep : Refusal r t .tooDeep
  | tooLong : Refusal r t .tooLong
  | invalidNumber : t.kind = .number → literalValue? t.text = none →
      Refusal r t (.invalidNumber t.text)
  | unexpected (expected : Expected) {f : Failure} : r.finish = .error f →
      f.error = .unexpectedEnd → Refusal r t (.unexpected expected t.text t.span)
  | trailing {p : Expr × Reading} : r.finish = .ok p → Refusal r t (.trailing t.text t.span)

theorem refusal_of_takeOperand {r : Reading} {t : Token} {f : Failure} (ho : r.operand = none)
    (h : r.takeOperand t = .error f) : Refusal r t f.error := by
  unfold takeOperand at h
  split at h
  · next hkind =>
    split at h
    · rw [error_of_primary h]; exact .tooLong
    · next hvalue => cases h; exact .invalidNumber hkind hvalue
  · rw [error_of_descend h]; exact .tooDeep
  · rw [error_of_descend h]; exact .tooDeep
  · rw [error_of_descend h]; exact .tooDeep
  · cases h
    have hfinish : r.finish = .error (r.failAt .unexpectedEnd) := by
      rw [finish_eq, endSum_due r ho]; rfl
    exact .unexpected .operand hfinish rfl

theorem refusal_of_takeClosing {r r₁ : Reading} {t : Token} {e : Expr} {f : Failure}
    (hend : r.endSum = .ok (e, r₁)) (h : r₁.takeClosing e t = .error f) : Refusal r t f.error := by
  unfold takeClosing at h
  split at h
  · next houter =>
    cases h
    exact .trailing (finish_of_outermost hend houter)
  · next group outer houter =>
    split at h
    · rw [error_of_primary h]; exact .tooLong
    · cases h
      exact .unexpected .closing (finish_of_enclosed hend houter) rfl

theorem refusal_of_step {r : Reading} {t : Token} {f : Failure} (h : r.step t = .error f) :
    Refusal r t f.error := by
  cases ho : r.operand with
  | none =>
    simp only [step, ho] at h
    exact refusal_of_takeOperand ho h
  | some e =>
    by_cases hop : ∃ o : Operation, t.kind = .operator o.operator
    · obtain ⟨o, ht⟩ := hop
      cases hlevel : o.level with
      | additive =>
        rw [step_sum ht hlevel ho] at h
        rcases eq_of_bind_eq_error h with h | ⟨p, -, h⟩
        · rw [error_of_endSum ho h]; exact .tooLong
        · cases h
      | term =>
        rw [step_product ht hlevel ho] at h
        rcases eq_of_bind_eq_error h with h | ⟨p, -, h⟩
        · rw [error_of_endTerm ho h]; exact .tooLong
        · cases h
      | power =>
        cases o <;> cases hlevel
        rw [step_power ht ho] at h
        cases h
      | unary | signed | primary => cases o <;> cases hlevel
    · rw [step_other (fun o ht => hop ⟨o, ht⟩) ho] at h
      rcases eq_of_bind_eq_error h with h | ⟨⟨p, r₁⟩, hend, h⟩
      · rw [error_of_endSum ho h]; exact .tooLong
      · exact refusal_of_takeClosing hend h

/-! ### Where a reading stops -/

/-- A run that fails has one token that is refused, and takes all before it. -/
theorem exists_of_run_eq_error {r : Reading} {ts : List Token} {f : Failure}
    (h : r.run ts = .error f) :
    ∃ pre t post r', ts = pre ++ t :: post ∧ r.run pre = .ok r' ∧ r'.step t = .error f := by
  induction ts generalizing r with
  | nil => rw [run_nil] at h; cases h
  | cons t ts ih =>
    rw [run_cons] at h
    rcases eq_of_bind_eq_error h with h | ⟨r₁, hstep, h⟩
    · exact ⟨[], t, ts, r, rfl, run_nil r, h⟩
    · obtain ⟨pre, u, post, r', rfl, hrun, hu⟩ := ih h
      refine ⟨t :: pre, u, post, r', rfl, ?_, hu⟩
      rw [run_cons, hstep]
      exact hrun

/-- At the end of a sentence only a limit can be exceeded. -/
theorem Sentence.limit_of_finish {ts : List Token} {r : Reading} {f : Failure} (h : Sentence ts)
    (hr : (start 0 0).run ts = .ok r) (hf : r.finish = .error f) :
    f.error = .tooDeep ∨ f.error = .tooLong := by
  obtain ⟨e, he⟩ := h
  have hsettles := he.settles_finish {}
  rw [hr] at hsettles
  change Settles _ _ _ _ r.finish at hsettles
  rw [hf] at hsettles
  exact hsettles.error_eq

/-- At a token that some sentence goes on with, only a limit can be exceeded. -/
theorem Viable.limit_of_step {ts : List Token} {t : Token} {r : Reading} {f : Failure}
    (h : Viable (ts ++ [t])) (hr : (start 0 0).run ts = .ok r) (hf : r.step t = .error f) :
    f.error = .tooDeep ∨ f.error = .tooLong := by
  obtain ⟨us, e, he⟩ := h
  have hsettles := he.settles_finish {}
  have hrun : (start 0 0).run ((ts ++ [t]) ++ us) = .error f := by
    rw [run_append, run_append, hr]
    change (r.run [t] >>= (run · us)) = _
    rw [run_singleton, hf]
    rfl
  rw [hrun] at hsettles
  change Settles _ _ _ _ (.error f) at hsettles
  exact hsettles.error_eq

/-- The reader's answer to a text that it refuses: the text is empty, or a token is refused by the
reading of those before it, or the tokens are all taken and do not make an expression. -/
theorem refusal_of_parse_eq_error {source : String} {g : ParseError}
    (h : parse source = .error g) :
    (properTokens source = [] ∧ g = .empty) ∨
    (∃ pre t post r f, properTokens source = pre ++ t :: post ∧ (start 0 0).run pre = .ok r ∧
      r.step t = .error f ∧ f.error = g ∧ Refusal r t g) ∨
    (∃ r f, (start 0 0).run (properTokens source) = .ok r ∧ r.finish = .error f ∧ f.error = g ∧
      (g = .unexpectedEnd ∨ g = .tooLong)) := by
  rw [parse_eq] at h
  split at h
  · next hempty =>
    cases h
    exact Or.inl ⟨hempty, rfl⟩
  · refine Or.inr ?_
    cases hrun : (start 0 0).run (properTokens source) >>= finish with
    | ok p => rw [hrun] at h; cases h
    | error f =>
      rw [hrun] at h
      cases h
      rcases eq_of_bind_eq_error hrun with hrun | ⟨r, hr, hf⟩
      · obtain ⟨pre, t, post, r, hts, hr, ht⟩ := exists_of_run_eq_error hrun
        exact Or.inl ⟨pre, t, post, r, f, hts, hr, ht, rfl, refusal_of_step ht⟩
      · exact Or.inr ⟨r, f, hr, hf, rfl, error_of_finish hf⟩

theorem hopeless_of_unexpected {source found : String} {expected : Expected} {span : Span}
    (h : parse source = .error (.unexpected expected found span)) :
    ∃ pre t post, properTokens source = pre ++ t :: post ∧ t.text = found ∧ t.span = span ∧
      Viable pre ∧ ¬Sentence pre ∧ ¬Viable (pre ++ [t]) := by
  rcases refusal_of_parse_eq_error h with ⟨-, hg⟩ |
    ⟨pre, t, post, r, f, hts, hr, ht, hg, hrefusal⟩ | ⟨r, f, -, -, -, hg | hg⟩
  · cases hg
  · obtain ⟨⟩ | ⟨⟩ | ⟨⟩ | ⟨_, hfinish, hend⟩ | ⟨⟩ := hrefusal
    refine ⟨pre, t, post, hts, rfl, rfl, ((covers_start 0 0 {}).run hr).viable, ?_, ?_⟩
    · intro hsentence
      rcases hsentence.limit_of_finish hr hfinish with h | h <;> rw [hend] at h <;> cases h
    · intro hviable
      rcases hviable.limit_of_step hr ht with h | h <;> rw [hg] at h <;> cases h
  · cases hg
  · cases hg

theorem hopeless_of_trailing {source found : String} {span : Span}
    (h : parse source = .error (.trailing found span)) :
    ∃ pre t post, properTokens source = pre ++ t :: post ∧ t.text = found ∧ t.span = span ∧
      Sentence pre ∧ ¬Viable (pre ++ [t]) := by
  rcases refusal_of_parse_eq_error h with ⟨-, hg⟩ |
    ⟨pre, t, post, r, f, hts, hr, ht, hg, hrefusal⟩ | ⟨r, f, -, -, -, hg | hg⟩
  · cases hg
  · obtain ⟨⟩ | ⟨⟩ | ⟨⟩ | ⟨⟩ | ⟨hfinish⟩ := hrefusal
    refine ⟨pre, t, post, hts, rfl, rfl, ⟨_, ((covers_start 0 0 {}).run hr).derives hfinish⟩, ?_⟩
    intro hviable
    rcases hviable.limit_of_step hr ht with h | h <;> rw [hg] at h <;> cases h
  · cases hg
  · cases hg

theorem viable_of_unexpectedEnd {source : String} (h : parse source = .error .unexpectedEnd) :
    Viable (properTokens source) ∧ ¬Sentence (properTokens source) := by
  rcases refusal_of_parse_eq_error h with ⟨-, hg⟩ | ⟨_, _, _, _, _, -, -, -, -, hrefusal⟩ |
    ⟨r, f, hr, hf, hg, -⟩
  · cases hg
  · cases hrefusal
  · refine ⟨((covers_start 0 0 {}).run hr).viable, fun hsentence => ?_⟩
    rcases hsentence.limit_of_finish hr hf with h | h <;> rw [hg] at h <;> cases h

theorem parse_eq_empty_iff (source : String) :
    parse source = .error .empty ↔ properTokens source = [] := by
  constructor
  · intro h
    rcases refusal_of_parse_eq_error h with ⟨hempty, -⟩ |
      ⟨_, _, _, _, _, -, -, -, -, hrefusal⟩ | ⟨_, _, -, -, -, hg | hg⟩
    · exact hempty
    · cases hrefusal
    · cases hg
    · cases hg
  · intro hempty
    rw [parse_eq, if_pos hempty]

/-- A number is invalid only if it is a number token without a value. -/
theorem valueless_of_invalidNumber {source text : String}
    (h : parse source = .error (.invalidNumber text)) :
    ∃ t ∈ properTokens source, t.kind = .number ∧ literalValue? t.text = none := by
  rcases refusal_of_parse_eq_error h with ⟨-, hg⟩ |
    ⟨pre, t, post, r, f, hts, -, -, -, hrefusal⟩ | ⟨_, _, -, -, -, hg | hg⟩
  · cases hg
  · obtain ⟨⟩ | ⟨⟩ | ⟨hkind, hvalue⟩ | ⟨⟩ | ⟨⟩ := hrefusal
    exact ⟨t, by simp [hts], hkind, hvalue⟩
  · cases hg
  · cases hg

/-- A syntax error points at the first token that leaves no hope: the tokens before an unexpected one
begin some sentence but are none, the tokens before a trailing one are a sentence, and in both cases
no sentence goes on with that token; an unexpected end means that the tokens begin a sentence and are
none; and only a text without tokens is empty. -/
theorem parse_error_at_first_hopeless_token (source : String) :
    (∀ expected found span, parse source = .error (.unexpected expected found span) →
      ∃ pre t post, properTokens source = pre ++ t :: post ∧ t.text = found ∧ t.span = span ∧
        Viable pre ∧ ¬Sentence pre ∧ ¬Viable (pre ++ [t])) ∧
    (∀ found span, parse source = .error (.trailing found span) →
      ∃ pre t post, properTokens source = pre ++ t :: post ∧ t.text = found ∧ t.span = span ∧
        Sentence pre ∧ ¬Viable (pre ++ [t])) ∧
    (parse source = .error .unexpectedEnd →
      Viable (properTokens source) ∧ ¬Sentence (properTokens source)) ∧
    (parse source = .error .empty ↔ properTokens source = []) := by
  refine ⟨?_, ?_, viable_of_unexpectedEnd, parse_eq_empty_iff source⟩
  · intro expected found span h
    exact hopeless_of_unexpected h
  · intro found span h
    exact hopeless_of_trailing h

/-- A closing parenthesis where an operand is due, a number behind a whole expression, and an operator
at the end. Places are counted in bytes, and the no-break space has two. -/
theorem three_hopeless_texts :
    parse "2*)3" = .error (.unexpected .operand ")" ⟨2, 3⟩) ∧
    (∃ pre t post, properTokens "2*)3" = pre ++ t :: post ∧ t.text = ")" ∧ t.span = ⟨2, 3⟩ ∧
      Viable pre ∧ ¬Sentence pre ∧ ¬Viable (pre ++ [t])) ∧
    parse "2\u00A03" = .error (.trailing "3" ⟨3, 4⟩) ∧
    (∃ pre t post, properTokens "2\u00A03" = pre ++ t :: post ∧ t.text = "3" ∧ t.span = ⟨3, 4⟩ ∧
      Sentence pre ∧ ¬Viable (pre ++ [t])) ∧
    parse "2-" = .error .unexpectedEnd ∧ Viable (properTokens "2-") ∧
    ¬Sentence (properTokens "2-") := by
  have herror : ∀ {source : String} {e : ParseError},
      (match parse source with | .ok _ => none | .error e => some e) = some e →
      parse source = .error e := by
    intro source e h
    split at h
    · cases h
    · next herror =>
      cases h
      exact herror
  have hparenthesis : parse "2*)3" = .error (.unexpected .operand ")" ⟨2, 3⟩) :=
    herror (by decide +kernel)
  have hnumber : parse "2\u00A03" = .error (.trailing "3" ⟨3, 4⟩) := herror (by decide +kernel)
  have hend : parse "2-" = .error .unexpectedEnd := herror (by decide +kernel)
  obtain ⟨hunexpected, -, -, -⟩ := parse_error_at_first_hopeless_token "2*)3"
  obtain ⟨-, htrailing, -, -⟩ := parse_error_at_first_hopeless_token "2\u00A03"
  obtain ⟨-, -, hmissing, -⟩ := parse_error_at_first_hopeless_token "2-"
  exact ⟨hparenthesis, hunexpected _ _ _ hparenthesis, hnumber, htrailing _ _ hnumber, hend,
    hmissing hend⟩

end FormulaField
