import FormulaField.Proofs.Places
import FormulaField.Proofs.Readback

/-!
The grouped text of a tree is read as that tree. Every sign and every operation stands in parentheses,
so that the text of a tree is a primary of the grammar whatever the tree is, and a primary may stand
on either side of every operation and behind every sign. What the reader gives back has a parenthesis
node around every sign and operation, and those of the tree itself are gone.
-/

namespace FormulaField

open Text

theorem Sign.toList_symbol (s : Sign) : s.symbol.toList = [s.operator.char] := by cases s <;> rfl

theorem Operation.toList_symbol (o : Operation) : o.symbol.toList = [o.operator.char] := by
  cases o <;> rfl

namespace Expr

/-- The tree without its parentheses. -/
def bare : Expr → Expr
  | number x => number x
  | signed s e => signed s e.bare
  | binary a o b => binary a.bare o b.bare
  | paren e => e.bare

/-- The tree that its grouped text shows: in parentheses is every sign and every operation, and
nothing else. -/
def regrouped : Expr → Expr
  | number x => number x
  | signed s e => paren (signed s e.regrouped)
  | binary a o b => paren (binary a.regrouped o b.regrouped)
  | paren e => e.regrouped

/-- How deep the grouped text is nested. A sign counts twice, as itself and for its parentheses. -/
def groupedDepth : Expr → Nat
  | number _ => 0
  | signed _ e => 2 + e.groupedDepth
  | binary a _ b => 1 + max a.groupedDepth b.groupedDepth
  | paren e => e.groupedDepth

/-- Every number in the tree is NaN, or finite and without a sign. -/
def Writable : Expr → Prop
  | number x => x.isNaN = true ∨ x.isFinite = true ∧ isNegative x = false
  | signed _ e => e.Writable
  | binary a _ b => a.Writable ∧ b.Writable
  | paren e => e.Writable

theorem bare_regrouped (e : Expr) : e.regrouped.bare = e.bare := by
  induction e with
  | number x => rfl
  | signed s e ih => simp only [regrouped, bare, ih]
  | binary a o b iha ihb => simp only [regrouped, bare, iha, ihb]
  | paren e ih => exact ih

/-- Parentheses do not change the value. -/
theorem eval_bare (e : Expr) : e.bare.eval = e.eval := by
  induction e with
  | number x => rfl
  | signed s e ih => simp only [bare, eval, ih]
  | binary a o b iha ihb => simp only [bare, eval, iha, ihb]
  | paren e ih => exact ih

theorem nesting_regrouped (e : Expr) : e.regrouped.nesting = e.groupedDepth := by
  induction e with
  | number x => rfl
  | signed s e ih => simp only [regrouped, nesting, groupedDepth, ih]; omega
  | binary a o b iha ihb => simp only [regrouped, nesting, groupedDepth, iha, ihb]; omega
  | paren e ih => exact ih

theorem operations_regrouped (e : Expr) : e.regrouped.operations = e.operations := by
  induction e with
  | number x => rfl
  | signed s e ih => exact ih
  | binary a o b iha ihb => simp only [regrouped, operations, iha, ihb]
  | paren e ih => exact ih

/-! ### The tokens of a grouped text -/

/-- The tokens of the grouped text, which have no place. -/
def groupedTokens : Expr → List Token
  | number x => [.ofFace (.number, numberDisplay x)]
  | signed s e => Operator.leftParen.token ::
      ((s.operator.token :: e.groupedTokens) ++ [Operator.rightParen.token])
  | binary a o b => Operator.leftParen.token ::
      ((a.groupedTokens ++ o.operator.token :: b.groupedTokens) ++ [Operator.rightParen.token])
  | paren e => e.groupedTokens

/-- The text of a number in a tree is a number, and it reads back. -/
theorem numberDisplay_spec {x : Float}
    (h : x.isNaN = true ∨ x.isFinite = true ∧ isNegative x = false) :
    ∃ u, numberDisplay x = String.ofList u ∧ NumberForm u ∧
      literalValue? (String.ofList u) = some x := by
  refine ⟨numberText ['i', 'n', 'f'] x, rfl, ?_⟩
  rcases h with hnan | ⟨hfinite, hsign⟩
  · have htext : numberText ['i', 'n', 'f'] x = nanWord := by
      rw [numberText, if_pos hnan]
      rfl
    have hvalue : x = notANumber := by
      have hx : x = Float.nan := by simpa using hnan
      rw [hx]
      rfl
    rw [htext, hvalue]
    exact ⟨.notANumber rfl, rfl⟩
  · rw [numberText_of_unsigned hsign hfinite]
    exact ⟨numberForm_magnitudeText x, literalValue?_magnitudeText hsign hfinite⟩

/-- The tokens of a grouped text are a primary, whatever the tree. -/
theorem derives_groupedTokens {e : Expr} (h : e.Writable) :
    Derives .primary e.groupedTokens e.regrouped := by
  induction e with
  | number x =>
    obtain ⟨u, hdisplay, -, hvalue⟩ := numberDisplay_spec h
    exact .number rfl (by rw [← hvalue, ← hdisplay]; rfl)
  | signed s e ih => exact .paren rfl (.term (.unary (.sign rfl (.power (.primary (ih h)))))) rfl
  | binary a o b iha ihb =>
    have ha := iha h.1
    have hb := ihb h.2
    refine .paren rfl ?_ rfl
    cases hlevel : o.level with
    | additive =>
      exact .sum (.term (.unary (.power (.primary ha)))) rfl hlevel (.unary (.power (.primary hb)))
    | term =>
      exact .term (.product (.unary (.power (.primary ha))) rfl hlevel (.power (.primary hb)))
    | power =>
      cases o <;> cases hlevel
      exact .term (.unary (.power (.pow (.primary ha) rfl (.exponent hb))))
    | unary | signed | primary => cases o <;> cases hlevel
  | paren e ih => exact ih h

/-- The grouped text of a tree keeps apart from whatever breaks a word. -/
theorem tokens_grouped {e : Expr} (h : e.Writable) {v : List Char} (hv : Breaks v) :
    (faces (e.grouped.toList ++ v)).map Token.ofFace =
      e.groupedTokens ++ (faces v).map Token.ofFace := by
  induction e generalizing v with
  | number x =>
    obtain ⟨u, hdisplay, hform, -⟩ := numberDisplay_spec h
    rw [grouped, groupedTokens, hdisplay, String.toList_ofList, faces_numberForm hform hv]
    rfl
  | signed s e ih =>
    have htext : (signed s e).grouped.toList ++ v = Operator.leftParen.char ::
        s.operator.char :: (e.grouped.toList ++ Operator.rightParen.char :: v) := by
      simp [grouped, Sign.toList_symbol, Operator.char]
    have he := ih h (breaks_operator .rightParen v)
    rw [htext, faces_operator, faces_operator, List.map_cons, List.map_cons, he, faces_operator]
    simp [groupedTokens, Operator.token]
  | binary a o b iha ihb =>
    have htext : (binary a o b).grouped.toList ++ v = Operator.leftParen.char ::
        (a.grouped.toList ++ ' ' :: o.operator.char :: ' ' ::
          (b.grouped.toList ++ Operator.rightParen.char :: v)) := by
      simp [grouped, Operation.toList_symbol, Operator.char]
    have hblank : isBlank ' ' = true := by decide
    have ha := iha h.1 (breaks_padding (Or.inl hblank)
      (o.operator.char :: ' ' :: (b.grouped.toList ++ Operator.rightParen.char :: v)))
    have hb := ihb h.2 (breaks_operator .rightParen v)
    rw [htext, faces_operator, List.map_cons, ha, faces_blank hblank, faces_operator,
      faces_blank hblank, List.map_cons, hb, faces_operator]
    simp [groupedTokens, Operator.token]
  | paren e ih => exact ih h hv

/-- The grouped text of a tree is read as the tree, up to parentheses, and so with its value. -/
theorem parse_grouped {e : Expr} (hwritable : e.Writable)
    (hoperations : e.operations ≤ maxOperations) (hdepth : e.groupedDepth ≤ maxDepth) :
    ∃ e', parse e.grouped = .ok e' ∧ e'.bare = e.bare ∧ e'.eval = e.eval := by
  have htokens : (faces e.grouped.toList).map Token.ofFace = e.groupedTokens := by
    simpa [faces_nil] using tokens_grouped hwritable breaks_nil
  have hderives : Derives .additive ((faces e.grouped.toList).map Token.ofFace) e.regrouped := by
    rw [htokens]
    exact .term (.unary (.power (.primary (derives_groupedTokens hwritable))))
  refine ⟨e.regrouped, ?_, bare_regrouped e, ?_⟩
  · exact parse_of_faces hderives (by rwa [nesting_regrouped]) (by rwa [operations_regrouped])
  · rw [← eval_bare, bare_regrouped, eval_bare]

/-- A negative exponent under a sign, with parentheses that are lost. -/
theorem parse_grouped_power :
    let e : Expr := .signed .minus (.binary (.paren (.number Float.nan)) .pow
      (.signed .minus (.number (Float.ofBits 0x3FE0000000000000))))
    e.Writable ∧ e.operations ≤ maxOperations ∧ e.groupedDepth ≤ maxDepth ∧
      e.grouped = "(-(NaN ^ (-0.5)))" ∧
      ∃ e', parse e.grouped = .ok e' ∧ e'.bare = e.bare ∧ e'.eval = e.eval := by
  intro e
  have hwritable : e.Writable :=
    ⟨Or.inl (by decide +kernel), Or.inr ⟨by decide +kernel, by decide +kernel⟩⟩
  have hoperations : e.operations ≤ maxOperations := by decide +kernel
  have hdepth : e.groupedDepth ≤ maxDepth := by decide +kernel
  exact ⟨hwritable, hoperations, hdepth, by decide +kernel,
    parse_grouped hwritable hoperations hdepth⟩

end Expr

end FormulaField
