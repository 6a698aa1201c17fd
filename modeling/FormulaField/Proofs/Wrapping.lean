import Mathlib.Data.List.Chain
import FormulaField.Proofs.Counters
import FormulaField.Proofs.Expression
import FormulaField.Proofs.Places
import FormulaField.Proofs.Values

/-!
A tag inside a formula acts as if it stood in parentheses. Its value is spliced in as text, so that
the minus sign of a negative value becomes a token of its own; but where an operand is due the sign
is read as the sign of that operand, and what it takes in besides the number can only be a power. So
only two places are left out: behind a closing parenthesis a minus sign would be a subtraction, and
before a power it would cover the power as well.
-/

namespace FormulaField

open Reading

/-- The tokens of a piece, which have no place. -/
def Piece.tokens (p : Piece) : List Token := (faces p.text).map Token.ofFace

theorem Piece.tokens_operator (o : Operator) :
    (Piece.literal (String.singleton o.char)).tokens = [o.token] := by
  rw [tokens, text_operator, faces_operator, faces_nil]
  rfl

/-! ### The value of a formula from the tokens of its pieces -/

/-- What the reader makes of tokens. -/
def readTokens (ts : List Token) : Except Failure (Expr × Reading) := (start 0 0).run ts >>= finish

theorem evaluate_of_readTokens {ps : List Piece} (h : ∀ p ∈ ps, p.Legible)
    (hchain : ps.IsChain fun p q => p.IsOperator ∨ q.IsOperator)
    (hne : ps.flatMap Piece.tokens ≠ []) :
    (Formula.mk ps).evaluate.mapError ParseError.unplaced =
      (answer (readTokens (ps.flatMap Piece.tokens))).map Expr.eval := by
  have hfaces : (faces (ps.flatMap Piece.text)).map Token.ofFace = ps.flatMap Piece.tokens := by
    rw [faces_of_legible h hchain, List.map_flatMap]
    rfl
  have hne' : faces (ps.flatMap Piece.text) ≠ [] := by
    intro hnil
    rw [hnil] at hfaces
    exact hne hfaces.symm
  have hparse := parse_unplaced (Formula.mk ps).expression
  rw [Formula.expression, String.toList_ofList, if_neg hne', hfaces] at hparse
  rw [readTokens, ← hparse, Formula.evaluate, calculate, Formula.expression]
  cases parse (String.ofList (ps.flatMap Piece.text)) <;> rfl

/-! ### The tokens of a tag -/

theorem faces_of_numberForm {u : List Char} (h : NumberForm u) :
    faces u = [(.number, String.ofList u)] := by
  have hfaces := faces_numberForm h breaks_nil
  rwa [List.append_nil, faces_nil] at hfaces

/-- The value of a tag is one number token, or a minus sign and a number token. -/
theorem tokens_tag (t : Tag) : ∃ number x, number.kind = .number ∧
    literalValue? number.text = some x ∧ ((Piece.tag t).tokens = [number] ∨
      (valueText t.value).head? = some '-' ∧
        (Piece.tag t).tokens = [Operator.minus.token, number]) := by
  obtain ⟨u, hu, htext⟩ := exists_valueText t.value
  obtain ⟨x, hx⟩ := hu.exists_value
  refine ⟨.ofFace (.number, String.ofList u), x, rfl, hx, ?_⟩
  rcases htext with htext | htext
  · refine Or.inl ?_
    rw [Piece.tokens, Piece.text, htext, faces_of_numberForm hu]
    rfl
  · refine Or.inr ⟨by rw [htext]; rfl, ?_⟩
    have hfaces := faces_operator .minus u
    rw [faces_of_numberForm hu] at hfaces
    rw [Piece.tokens, Piece.text, htext]
    exact congrArg (List.map Token.ofFace) hfaces

theorem flatMap_tokens_ne_nil {ps : List Piece} {t : Tag} (h : Piece.tag t ∈ ps) :
    ps.flatMap Piece.tokens ≠ [] := by
  intro hnil
  have htag := List.flatMap_eq_nil_iff.mp hnil _ h
  obtain ⟨number, x, -, -, htokens | ⟨-, htokens⟩⟩ := tokens_tag t <;> rw [htokens] at htag <;>
    cases htag

/-! ### Where an operand is due -/

/-- What the grammar derives without an operation acts in parentheses as one operand, unless it is
nested too deep. -/
theorem run_wrapped {r : Reading} {ts : List Token} {e : Expr} (ho : r.operand = none)
    (hd : r.depth ≤ r.limits.depth) (hn : r.operations ≤ r.limits.operations)
    (h : Derives .additive ts e) (he : e.operations = 0) :
    (∃ f, r.run (Operator.leftParen.token :: (ts ++ [Operator.rightParen.token])) = .error f ∧
      f.error = .tooDeep) ∨
    r.depth + e.nesting < r.limits.depth ∧
      ∃ b, r.run (Operator.leftParen.token :: (ts ++ [Operator.rightParen.token])) =
        primary { r with operand := b } (.paren e) := by
  have hparen : Derives .primary
      (Operator.leftParen.token :: (ts ++ [Operator.rightParen.token])) (.paren e) :=
    .paren rfl h rfl
  obtain ⟨x, hx, hrun⟩ := hparen.reads r.group r.outer hd hn
  obtain ⟨group, outer, operand, d, n, lim⟩ := r
  cases ho
  simp only [Expr.operations, Expr.nesting, he] at hx
  rw [hrun]
  cases x with
  | ok r₁ =>
    obtain ⟨hdepth, -, b, rfl⟩ := hx
    exact Or.inr ⟨hdepth, b, rfl⟩
  | error f =>
    rcases hx with ⟨hf, -⟩ | ⟨-, hlong⟩
    · exact Or.inl ⟨f, rfl, hf⟩
    · exact absurd hn (Nat.not_le_of_lt hlong)

/-- A reading that has not failed keeps to its limits. -/
theorem within_limits {ts : List Token} {r : Reading} (h : (start 0 0).run ts = .ok r) :
    r.depth ≤ r.limits.depth ∧ r.operations ≤ r.limits.operations := by
  have hleaves := leaves_run (sound_start {} 0 0) ts
  rw [h] at hleaves
  have haccounted : ∃ held, r.Accounted {} 0 0 held := by
    change r.Sound {} 0 0 at hleaves
    unfold Reading.Sound at hleaves
    split at hleaves
    · exact ⟨_, hleaves⟩
    · exact ⟨_, hleaves.toAccounted⟩
  obtain ⟨held, haccounted⟩ := haccounted
  have hdepth := haccounted.shallow
  have hoperations := haccounted.short
  rw [Nat.zero_max] at hdepth hoperations
  rw [haccounted.limits]
  exact ⟨hdepth, hoperations⟩

theorem SameContext.refl (r : Reading) (b : Option Expr) : SameContext r { r with operand := b } := by
  have hleft : ∀ {β : Type} (p? : Option (Expr × β)), Option.Rel SameValue p? p? := by
    rintro β (_ | p)
    · exact .none
    · exact .some ⟨rfl, rfl⟩
  have hgroup : ∀ g : Pending, g.Alike g := fun g => ⟨hleft _, hleft _, hleft _⟩
  exact ⟨hgroup _, List.forall₂_same.mpr fun g _ => hgroup g⟩

/-- A minus sign and a number complete the term as the negative number in parentheses does, and
so does the power that waits for them. -/
theorem answers_sign {r : Reading} {number : Token} {x : Float} {ts : List Token} (b : Option Expr)
    (ho : r.operand = none) (hd : r.depth < r.limits.depth) (hkind : number.kind = .number)
    (hx : literalValue? number.text = some x) (hts : ∀ t ∈ ts.head?, t.kind ≠ .operator .caret) :
    Parallel SameAnswer
      (r.run [Operator.minus.token, number] >>= fun r => r.run ts >>= finish)
      (primary { r with operand := b } (.paren (.signed .minus (.number x))) >>=
        fun r => r.run ts >>= finish) := by
  obtain ⟨⟨sum, product, signs, power⟩, outer, operand, d, n, lim⟩ := r
  cases ho
  have hnumber : ∀ r : Reading, r.operand = none → r.step number = r.primary (.number x) := by
    intro r ho
    simp only [step, ho, takeOperand, hkind, hx]
  have hdescend : ∀ g : Pending, descend ⟨g, outer, none, d, n, lim⟩ =
      .ok ⟨g, outer, none, d + 1, n, lim⟩ := fun g => if_pos hd
  have hparen : (Expr.signed .minus (.number x)).eval =
      (Expr.paren (.signed .minus (.number x))).eval := rfl
  have hvalue : ∀ signs, ((Expr.number x).withSigns (.minus :: signs)).eval =
      ((Expr.signed .minus (.number x)).paren.withSigns signs).eval := eval_withSigns hparen
  rw [run_cons, step_sign (s := .minus) rfl rfl]
  cases power with
  | none =>
    simp only [addSign, hdescend]
    change Parallel SameAnswer (run _ [number] >>= _) _
    rw [run_singleton, hnumber _ rfl]
    refine parallel_of_endTerm hts rfl rfl ?_
    change Parallel SameCompletion (Reading.closeProduct _ _) (Reading.closeProduct _ _)
    rw [closeProduct_withSigns ⟨⟨sum, product, .minus :: signs, none⟩, outer, _, d + 1, n, lim⟩,
      closeProduct_withSigns ⟨⟨sum, product, signs, none⟩, outer, _, d, n, lim⟩]
    simp only [List.length_cons, Nat.add_sub_add_right]
    exact SameContext.closeProduct (SameContext.refl _ _) (hvalue signs)
  | some p =>
    obtain ⟨base, more⟩ := p
    simp only [addSign, hdescend]
    change Parallel SameAnswer (run _ [number] >>= _) _
    rw [run_singleton, hnumber _ rfl]
    refine Parallel.bind (R := Alike) ?_ fun _ _ h => h.answers ts
    simp only [primary, countOperation, List.length_cons, Nat.add_sub_add_right]
    split
    · exact .ok ⟨SameContext.refl _ _, .some (eval_binary .pow rfl (hvalue more))⟩
    · exact .error _

/-- Behind an operand neither a number nor an opening parenthesis is taken. -/
theorem step_refused {r : Reading} {e : Expr} {t : Token} (ho : r.operand = some e)
    (hother : ∀ o : Operation, t.kind ≠ .operator o.operator)
    (ht : t.kind ≠ .operator .rightParen) : ∃ f, r.step t = .error f := by
  rw [step_other hother ho]
  cases r.endSum with
  | error f => exact ⟨f, rfl⟩
  | ok p =>
    change ∃ f, p.2.takeClosing p.1 t = .error f
    unfold takeClosing
    split
    · exact ⟨_, rfl⟩
    · rw [if_neg ht]
      exact ⟨_, rfl⟩

/-- An operand is due behind every operator but a closing parenthesis. -/
theorem due_of_step {r r' : Reading} {o : Operator} (ho : o ≠ .rightParen)
    (h : r.step o.token = .ok r') : r'.operand = none := by
  cases hoperand : r.operand with
  | none =>
    have hsign : ∀ s, (r.addSign s).operand = none := by
      intro s
      unfold addSign
      split <;> exact hoperand
    simp only [step, hoperand, takeOperand, Operator.token, Token.ofFace] at h
    split at h
    · contradiction
    · cases eq_of_descend h
      rfl
    · cases eq_of_descend h
      exact hsign .plus
    · cases eq_of_descend h
      exact hsign .minus
    · cases h
  | some e =>
    by_cases hop : ∃ p : Operation, o.token.kind = .operator p.operator
    · obtain ⟨p, hp⟩ := hop
      cases hlevel : p.level with
      | additive =>
        rw [step_sum hp hlevel hoperand] at h
        obtain ⟨q, -, h⟩ := eq_of_bind_eq_ok h
        cases h
        rfl
      | term =>
        rw [step_product hp hlevel hoperand] at h
        obtain ⟨q, -, h⟩ := eq_of_bind_eq_ok h
        cases h
        rfl
      | power =>
        cases p <;> cases hlevel
        rw [step_power hp hoperand] at h
        cases h
        rfl
      | unary | signed | primary => cases p <;> cases hlevel
    · have hright : o.token.kind ≠ .operator .rightParen := fun h => ho (TokenKind.operator.inj h)
      obtain ⟨f, hf⟩ := step_refused hoperand (fun p hp => hop ⟨p, hp⟩) hright
      rw [hf] at h
      cases h

/-! ### The whole formula -/

/-- The same value, or none on either side, or the second is nested too deep. -/
def Concur (x y : Except Failure (Expr × Reading)) : Prop :=
  (∃ p q, x = .ok p ∧ y = .ok q ∧ p.1.eval = q.1.eval) ∨ (∃ f g, x = .error f ∧ y = .error g) ∨
    ∃ g, y = .error g ∧ g.error = .tooDeep

theorem Parallel.concur {x y : Except Failure (Expr × Reading)} (h : Parallel SameAnswer x y) :
    Concur x y := by
  cases h with
  | ok hpq => exact Or.inl ⟨_, _, rfl, rfl, hpq⟩
  | error f => exact Or.inr (Or.inl ⟨f, f, rfl, rfl⟩)

/-- The tokens of a tag and those of the tag in parentheses come to the same behind a reading that
keeps to its limits. -/
theorem concur_tag (tag : Tag) {r : Reading} {ts : List Token} (hd : r.depth ≤ r.limits.depth)
    (hn : r.operations ≤ r.limits.operations)
    (hsign : (valueText tag.value).head? ≠ some '-' ∨
      r.operand = none ∧ ∀ t ∈ ts.head?, t.kind ≠ .operator .caret) :
    Concur (r.run (Piece.tag tag).tokens >>= fun r => r.run ts >>= finish)
      (r.run (Operator.leftParen.token :: ((Piece.tag tag).tokens ++ [Operator.rightParen.token]))
        >>= fun r => r.run ts >>= finish) := by
  obtain ⟨number, x, hkind, hx, htokens⟩ := tokens_tag tag
  have hderives : Derives .primary [number] (.number x) := .number hkind hx
  rcases htokens with htokens | ⟨hhead, htokens⟩ <;> rw [htokens]
  · cases ho : r.operand with
    | none =>
      have hterm : Derives .additive [number] (.number x) :=
        .term (.unary (.power (.primary hderives)))
      rcases run_wrapped ho hd hn hterm rfl with ⟨f, hrun, hf⟩ | ⟨-, b, hrun⟩
      · exact Or.inr (Or.inr ⟨f, by rw [hrun]; rfl, hf⟩)
      · have hnumber : r.run [number] = r.primary (.number x) := by
          simp only [run_singleton, step, ho, takeOperand, hkind, hx]
        rw [hrun, hnumber]
        refine Parallel.concur (Parallel.bind (R := Alike) ?_ fun _ _ h => h.answers ts)
        exact (SameContext.refl r b).primary rfl
    | some e =>
      have hoperation : ∀ o : Operation, number.kind ≠ .operator o.operator := by
        simp [hkind]
      obtain ⟨f, hf⟩ := step_refused ho hoperation (by simp [hkind])
      obtain ⟨g, hg⟩ := step_refused (t := Operator.leftParen.token) ho
        (fun o => by cases o <;> decide) (by decide)
      refine Or.inr (Or.inl ⟨f, g, ?_, ?_⟩)
      · rw [run_singleton, hf]
        rfl
      · rw [run_cons, hg]
        rfl
  · obtain ⟨ho, hts⟩ := hsign.resolve_left fun h => h hhead
    have hterm : Derives .additive [Operator.minus.token, number] (.signed .minus (.number x)) :=
      .term (.unary (.sign rfl (.power (.primary hderives))))
    rcases run_wrapped ho hd hn hterm rfl with ⟨f, hrun, hf⟩ | ⟨hdepth, b, hrun⟩
    · exact Or.inr (Or.inr ⟨f, by rw [hrun]; rfl, hf⟩)
    · rw [hrun]
      have hd : r.depth < r.limits.depth := Nat.lt_of_le_of_lt (Nat.le_add_right ..) hdepth
      exact (answers_sign b ho hd hkind hx hts).concur

theorem not_isOperator_tag (tag : Tag) : ¬(Piece.tag tag).IsOperator := by
  rintro ⟨o, h⟩
  cases h

section
variable {before after : List Piece} {tag : Tag}

/-- An operand is due where a tag stands, unless a parenthesis was closed before it. -/
theorem due_before_tag (hchain : (before ++ .tag tag :: after).IsChain
      fun p q => p.IsOperator ∨ q.IsOperator) (hlast : before.getLast? ≠ some (.literal ")"))
    {r : Reading} (hr : (start 0 0).run (before.flatMap Piece.tokens) = .ok r) :
    r.operand = none := by
  rcases List.eq_nil_or_concat before with rfl | ⟨earlier, p, rfl⟩
  · cases hr
    rfl
  · rw [List.concat_eq_append, List.append_assoc, List.singleton_append,
      List.isChain_append_cons_cons] at hchain
    obtain ⟨o, rfl⟩ := hchain.2.1.resolve_right (not_isOperator_tag tag)
    have ho : o ≠ .rightParen := by
      rintro rfl
      exact hlast (by rw [List.concat_eq_append, List.getLast?_concat]; rfl)
    rw [List.concat_eq_append, List.flatMap_append, List.flatMap_singleton, Piece.tokens_operator,
      run_append] at hr
    obtain ⟨r₁, -, hstep⟩ := eq_of_bind_eq_ok hr
    rw [run_singleton] at hstep
    exact due_of_step ho hstep

/-- What follows a tag begins with no power, unless the next piece is one. -/
theorem no_power_after_tag (hchain : (before ++ .tag tag :: after).IsChain
      fun p q => p.IsOperator ∨ q.IsOperator) (hnext : after.head? ≠ some (.literal "^")) :
    ∀ t ∈ (after.flatMap Piece.tokens).head?, t.kind ≠ .operator .caret := by
  cases after with
  | nil =>
    intro t ht
    cases ht
  | cons p ps =>
    rw [List.isChain_append_cons_cons] at hchain
    obtain ⟨o, rfl⟩ := hchain.2.1.resolve_left (not_isOperator_tag tag)
    rw [List.flatMap_cons, Piece.tokens_operator]
    rintro t ⟨⟩ ht
    cases TokenKind.operator.inj ht
    exact hnext rfl

theorem isChain_wrapped (hchain : (before ++ .tag tag :: after).IsChain
      fun p q => p.IsOperator ∨ q.IsOperator) :
    (before ++ .literal "(" :: .tag tag :: .literal ")" :: after).IsChain
      fun p q => p.IsOperator ∨ q.IsOperator := by
  have hleft : (Piece.literal "(").IsOperator := ⟨.leftParen, rfl⟩
  have hright : (Piece.literal ")").IsOperator := ⟨.rightParen, rfl⟩
  obtain ⟨hbefore, hafter, -⟩ := List.isChain_append.mp hchain
  obtain ⟨-, hafter⟩ := List.isChain_cons.mp hafter
  refine List.isChain_append.mpr ⟨hbefore, ?_, ?_⟩
  · exact .cons_cons (Or.inl hleft) (.cons_cons (Or.inr hright)
      (List.isChain_cons.mpr ⟨fun _ _ => Or.inl hright, hafter⟩))
  · rintro p - q ⟨⟩
    exact Or.inr hleft

theorem concur_wrapped (hchain : (before ++ .tag tag :: after).IsChain
      fun p q => p.IsOperator ∨ q.IsOperator)
    (hsign : (valueText tag.value).head? ≠ some '-' ∨
      before.getLast? ≠ some (.literal ")") ∧ after.head? ≠ some (.literal "^")) :
    Concur (readTokens ((before ++ .tag tag :: after).flatMap Piece.tokens))
      (readTokens ((before ++ .literal "(" :: .tag tag :: .literal ")" :: after).flatMap
        Piece.tokens)) := by
  have hleft : (Piece.literal "(").tokens = [Operator.leftParen.token] :=
    Piece.tokens_operator .leftParen
  have hright : (Piece.literal ")").tokens = [Operator.rightParen.token] :=
    Piece.tokens_operator .rightParen
  have hwrapped : (before ++ .literal "(" :: .tag tag :: .literal ")" :: after).flatMap
      Piece.tokens = before.flatMap Piece.tokens ++
        ((Operator.leftParen.token :: ((Piece.tag tag).tokens ++ [Operator.rightParen.token])) ++
          after.flatMap Piece.tokens) := by
    simp [hleft, hright]
  rw [hwrapped, List.flatMap_append, List.flatMap_cons]
  simp only [readTokens, run_append, bind_assoc]
  cases hr : (start 0 0).run (before.flatMap Piece.tokens) with
  | error f => exact Or.inr (Or.inl ⟨f, f, rfl, rfl⟩)
  | ok r =>
    obtain ⟨hd, hn⟩ := within_limits hr
    refine concur_tag tag hd hn (hsign.imp_right ?_)
    rintro ⟨hlast, hnext⟩
    exact ⟨due_before_tag hchain hlast hr, no_power_after_tag hchain hnext⟩

end

/-- A tag acts as one operand in parentheses: with parentheses around it the formula has the same
value, or none as before, or it is now nested too deep. This can fail only for a value with a minus
sign, behind a closing parenthesis or before a power. -/
theorem wrapped_tag_acts_alike {before after : List Piece} {tag : Tag}
    (hlegible : ∀ p ∈ before ++ .tag tag :: after, p.Legible)
    (hchain : (before ++ .tag tag :: after).IsChain fun p q => p.IsOperator ∨ q.IsOperator)
    (hsign : (valueText tag.value).head? ≠ some '-' ∨
      before.getLast? ≠ some (.literal ")") ∧ after.head? ≠ some (.literal "^")) :
    let f : Formula := ⟨before ++ .tag tag :: after⟩
    let wrapped : Formula := ⟨before ++ .literal "(" :: .tag tag :: .literal ")" :: after⟩
    (∃ x, f.evaluate = .ok x ∧ wrapped.evaluate = .ok x) ∨
    (∃ e e', f.evaluate = .error e ∧ wrapped.evaluate = .error e') ∨
    wrapped.evaluate = .error .tooDeep := by
  intro f wrapped
  have hlegible' : ∀ p ∈ wrapped.pieces, p.Legible := by
    intro p hp
    simp only [wrapped, List.mem_append, List.mem_cons] at hp
    rcases hp with hp | rfl | rfl | rfl | hp
    · exact hlegible p (by simp [hp])
    · exact Or.inl ⟨.leftParen, rfl⟩
    · trivial
    · exact Or.inl ⟨.rightParen, rfl⟩
    · exact hlegible p (by simp [hp])
  have hf := evaluate_of_readTokens hlegible hchain (flatMap_tokens_ne_nil (t := tag) (by simp))
  have hwrapped := evaluate_of_readTokens hlegible' (isChain_wrapped hchain)
    (flatMap_tokens_ne_nil (t := tag) (by simp [wrapped]))
  rcases concur_wrapped hchain hsign with ⟨p, q, hp, hq, hvalue⟩ | ⟨g, g', hg, hg'⟩ | ⟨g, hg, hdeep⟩
  · rw [hp] at hf
    rw [hq] at hwrapped
    refine Or.inl ⟨p.1.eval, mapError_eq_ok_iff.mp hf, ?_⟩
    rw [hvalue]
    exact mapError_eq_ok_iff.mp hwrapped
  · rw [hg] at hf
    rw [hg'] at hwrapped
    obtain ⟨e, he, -⟩ := exists_of_mapError_eq_error hf
    obtain ⟨e', he', -⟩ := exists_of_mapError_eq_error hwrapped
    exact Or.inr (Or.inl ⟨e, e', he, he'⟩)
  · rw [hg] at hwrapped
    obtain ⟨e, he, hplaced⟩ := exists_of_mapError_eq_error hwrapped
    rw [hdeep] at hplaced
    refine Or.inr (Or.inr ?_)
    cases e <;> cases hplaced
    exact he

/-- The value of `2*-3+1` is `-5`, and does not change when the negative tag is put in parentheses. -/
theorem wrapped_negative_factor :
    let tag : Tag := ⟨"t", "T", Float.ofBits 0xC008000000000000, []⟩
    let before : List Piece := [.literal "2", .literal "*"]
    let after : List Piece := [.literal "+", .literal "1"]
    (∀ p ∈ before ++ .tag tag :: after, p.Legible) ∧
    (before ++ .tag tag :: after).IsChain (fun p q => p.IsOperator ∨ q.IsOperator) ∧
    (valueText tag.value).head? = some '-' ∧
    before.getLast? ≠ some (.literal ")") ∧ after.head? ≠ some (.literal "^") ∧
    (Formula.mk (before ++ .literal "(" :: .tag tag :: .literal ")" :: after)).evaluate =
      (Formula.mk (before ++ .tag tag :: after)).evaluate ∧
    (Formula.mk (before ++ .tag tag :: after)).evaluate = .ok (Float.ofBits 0xC014000000000000) := by
  intro tag before after
  have hlegible : ∀ p ∈ before ++ .tag tag :: after, p.Legible := by
    have hnumbers : isTypedNumber "2" = true ∧ isTypedNumber "1" = true := by decide +kernel
    intro p hp
    simp only [before, after, List.mem_append, List.mem_cons, List.not_mem_nil, or_false] at hp
    rcases hp with (rfl | rfl) | rfl | rfl | rfl
    · exact Or.inr hnumbers.1
    · exact Or.inl ⟨.star, rfl⟩
    · trivial
    · exact Or.inl ⟨.plus, rfl⟩
    · exact Or.inr hnumbers.2
  have hstar : (Piece.literal "*").IsOperator := ⟨.star, rfl⟩
  have hplus : (Piece.literal "+").IsOperator := ⟨.plus, rfl⟩
  have hchain : (before ++ .tag tag :: after).IsChain fun p q => p.IsOperator ∨ q.IsOperator :=
    .cons_cons (Or.inr hstar) (.cons_cons (Or.inl hstar) (.cons_cons (Or.inr hplus)
      (.cons_cons (Or.inl hplus) (.singleton _))))
  have hlast : before.getLast? ≠ some (.literal ")") := by simp [before]
  have hnext : after.head? ≠ some (.literal "^") := by simp [after]
  have hvalue : (Formula.mk (before ++ .tag tag :: after)).evaluate.toOption =
      some (Float.ofBits 0xC014000000000000) := by
    decide +kernel
  have hshallow : (Formula.mk (before ++ .literal "(" :: .tag tag :: .literal ")" ::
      after)).evaluate.toOption.isSome = true := by
    decide +kernel
  refine ⟨hlegible, hchain, by decide +kernel, hlast, hnext, ?_⟩
  rcases wrapped_tag_acts_alike hlegible hchain (Or.inr ⟨hlast, hnext⟩) with
    ⟨x, hx, hx'⟩ | ⟨e, -, he, -⟩ | hdeep
  · rw [hx] at hvalue
    rw [hx, hx', Option.some_inj.mp hvalue]
    exact ⟨rfl, rfl⟩
  · rw [he] at hvalue
    cases hvalue
  · rw [hdeep] at hshallow
    cases hshallow

end FormulaField
