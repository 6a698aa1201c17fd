import FormulaField.Proofs.Faces
import FormulaField.Proofs.Run

/-!
The text that a formula is evaluated by has the tokens that its pieces show. The pieces are written
with nothing between them, so a piece might run into the next one, as `1e` would into `+5`. But the
editor commits a literal only if it is an operator or a number, in whatever order it is called; and
then the pieces keep apart, as long as no two operands are neighbours.
-/

namespace FormulaField

open Text

/-- The piece is one operator character. -/
def Piece.IsOperator (p : Piece) : Prop := ∃ o : Operator, p = .literal (String.singleton o.char)

/-- A literal is one operator character, or a number with something typed. -/
def Piece.WellFormed : Piece → Prop
  | .literal s => (∃ o : Operator, s = String.singleton o.char) ∨ s ≠ "" ∧ isTypedNumber s = true
  | .tag _ => True

/-- A literal is one operator character, or a text that counts as a number, be it empty. -/
def Piece.Legible : Piece → Prop
  | .literal s => (∃ o : Operator, s = String.singleton o.char) ∨ isTypedNumber s = true
  | .tag _ => True

theorem Piece.WellFormed.legible {p : Piece} (h : p.WellFormed) : p.Legible := by
  cases p with
  | literal s => exact h.imp_right And.right
  | tag t => trivial

/-- Every piece is well-formed. -/
def Formula.WellFormed (f : Formula) : Prop := ∀ p ∈ f.pieces, p.WellFormed

/-! ### What the editor commits -/

theorem Formula.mem_of_takeTag? {id : String} {pieces rest : List Piece} {t : Tag}
    (h : takeTag? id pieces = some (t, rest)) : ∀ p ∈ rest, p ∈ pieces := by
  induction pieces generalizing rest with
  | nil => cases h
  | cons q qs ih =>
    unfold takeTag? at h
    split at h
    · cases h
      intro p hp
      exact List.mem_cons_of_mem q hp
    · obtain ⟨⟨t', rest'⟩, htake, hrest⟩ := Option.map_eq_some_iff.mp h
      cases hrest
      intro p hp
      rcases List.mem_cons.mp hp with rfl | hp
      · exact List.mem_cons_self
      · exact List.mem_cons_of_mem q (ih htake p hp)

namespace Formula.WellFormed

variable {f : Formula} {ps : List Piece}

theorem append (h : f.WellFormed) (hps : ∀ p ∈ ps, p.WellFormed) :
    (Formula.mk (f.pieces ++ ps)).WellFormed := by
  intro p hp
  rcases List.mem_append.mp hp with hp | hp
  · exact h p hp
  · exact hps p hp

theorem removeTag (h : f.WellFormed) (id : String) : (f.removeTag id).2.WellFormed := by
  unfold Formula.removeTag
  split
  · next htake =>
    intro p hp
    exact h p (Formula.mem_of_takeTag? htake p hp)
  · exact h

theorem chooseOption (h : f.WellFormed) (id option : String) :
    (f.chooseOption id option).2.WellFormed := by
  intro p hp
  obtain ⟨q, hq, rfl⟩ := List.mem_map.mp hp
  cases q with
  | literal s => exact h _ hq
  | tag t =>
    change (if t.id = id then Piece.tag (t.withOption option) else Piece.tag t).WellFormed
    split <;> trivial

theorem withoutLast (h : f.WellFormed) : (Editor.withoutLast f).WellFormed := by
  unfold Editor.withoutLast
  split
  · exact h
  · exact h.removeTag _
  · intro p hp
    exact h p (List.dropLast_subset _ hp)

end Formula.WellFormed

namespace Editor

theorem wellFormed_committed (e : Editor) : ∀ p ∈ e.committed, p.WellFormed := by
  intro p hp
  unfold committed at hp
  split at hp
  · next h =>
    rw [List.mem_singleton] at hp
    subst hp
    exact Or.inr h
  · cases hp

/-- Every call keeps the literals in order. -/
theorem wellFormed_nextFormula {e : Editor} (h : e.store.formula.WellFormed) (call : Call) :
    (e.nextFormula call).WellFormed := by
  cases call with
  | input | setInput | receive | calculate => exact h
  | key k =>
    cases k with
    | backspace =>
      simp only [nextFormula]
      split
      · exact h.withoutLast
      · exact h
    | operator o =>
      refine (h.append e.wellFormed_committed).append ?_
      intro p hp
      rw [List.mem_singleton] at hp
      subst hp
      exact Or.inl ⟨o, rfl⟩
    | enter => exact h.append e.wellFormed_committed
    | other => exact h
  | accept candidate =>
    refine h.append ?_
    intro p hp
    rw [List.mem_singleton] at hp
    subst hp
    trivial
  | chooseOption id option => exact h.chooseOption id option
  | removeTag id => exact h.removeTag id
  | clear =>
    intro p hp
    cases hp

theorem wellFormed_run {e : Editor} (h : e.store.formula.WellFormed) (calls : List (Float × Call)) :
    (e.run calls).store.formula.WellFormed := by
  induction calls generalizing e with
  | nil => exact h
  | cons c rest ih =>
    obtain ⟨now, call⟩ := c
    refine ih ?_
    rw [formula_perform]
    exact wellFormed_nextFormula h call

end Editor

/-! ### What the expression says -/

/-- The text of an operand keeps apart from whatever breaks a word. -/
theorem separable_of_legible {p : Piece} (h : p.Legible) (hoperand : ¬p.IsOperator) :
    Separable p.text := by
  cases p with
  | literal s =>
    rcases h with ⟨o, rfl⟩ | hnumber
    · exact absurd ⟨o, rfl⟩ hoperand
    · exact separable_of_isTypedNumber hnumber
  | tag t => exact separable_valueText t.value

theorem text_operator (o : Operator) :
    (Piece.literal (String.singleton o.char)).text = [o.char] := by
  simp [Piece.text]

/-- Behind an operand stands an operator or nothing. -/
theorem breaks_flatMap {p : Piece} {ps : List Piece}
    (h : (p :: ps).IsChain fun p q => p.IsOperator ∨ q.IsOperator) (hoperand : ¬p.IsOperator) :
    Breaks (ps.flatMap Piece.text) := by
  cases ps with
  | nil => exact breaks_nil
  | cons q qs =>
    rcases h.rel with hp | ⟨o, rfl⟩
    · exact absurd hp hoperand
    · rw [List.flatMap_cons, text_operator]
      exact breaks_operator o _

/-- The tokens of the pieces, one after another, are those of the expression. -/
theorem faces_of_legible {ps : List Piece} (h : ∀ p ∈ ps, p.Legible)
    (hchain : ps.IsChain fun p q => p.IsOperator ∨ q.IsOperator) :
    faces (ps.flatMap Piece.text) = ps.flatMap fun p => faces p.text := by
  induction ps with
  | nil => exact faces_nil
  | cons p ps ih =>
    have hrest := ih (fun q hq => h q (List.mem_cons_of_mem p hq)) hchain.of_cons
    rw [List.flatMap_cons, List.flatMap_cons, ← hrest]
    -- an operator keeps apart from anything, an operand only from what breaks a word
    by_cases hp : p.IsOperator
    · obtain ⟨o, rfl⟩ := hp
      rw [text_operator, List.singleton_append, faces_operator, faces_operator, faces_nil]
      rfl
    · exact separable_of_legible (h p List.mem_cons_self) hp _ (breaks_flatMap hchain hp)

theorem faces_flatMap {ps : List Piece} (h : ∀ p ∈ ps, p.WellFormed)
    (hchain : ps.IsChain fun p q => p.IsOperator ∨ q.IsOperator) :
    faces (ps.flatMap Piece.text) = ps.flatMap fun p => faces p.text :=
  faces_of_legible (fun p hp => (h p hp).legible) hchain

/-- A formula of the editor says to the evaluator what it shows: its literals are operators and
numbers, and the expression of any such formula in which no two operands are neighbours has the
tokens of its pieces, in order, and no others. -/
theorem tokenize_expression :
    (∀ config fallback calls, ((Editor.new config fallback).run calls).store.formula.WellFormed) ∧
    (∀ f : Formula, f.WellFormed → f.pieces.IsChain (fun p q => p.IsOperator ∨ q.IsOperator) →
      (tokenize f.expression).map Token.face =
        (f.pieces.flatMap fun p => (properTokens (String.ofList p.text)).map Token.face) ++
          [(.finish, "")]) := by
  constructor
  · intro config fallback calls
    refine Editor.wellFormed_run ?_ calls
    intro p hp
    cases hp
  · intro f h hchain
    rw [Formula.expression, map_face_tokenize, faces_flatMap h hchain]
    rfl

/-- A hexadecimal number that ends like an exponent keeps apart from the sum behind it. -/
theorem tokenize_hexadecimal_sum :
    (Formula.mk [.literal "0x1e", .literal "+", .literal "5."]).WellFormed ∧
    [Piece.literal "0x1e", .literal "+", .literal "5."].IsChain
      (fun p q => p.IsOperator ∨ q.IsOperator) ∧
    (tokenize (Formula.mk [.literal "0x1e", .literal "+", .literal "5."]).expression).map
        Token.face =
      ([Piece.literal "0x1e", .literal "+", .literal "5."].flatMap fun p =>
        (properTokens (String.ofList p.text)).map Token.face) ++ [(.finish, "")] ∧
    (tokenize (Formula.mk [.literal "0x1e", .literal "+", .literal "5."]).expression).map
        Token.face =
      [(.number, "0x1e"), (.operator .plus, "+"), (.number, "5."), (.finish, "")] := by
  have hformed : (Formula.mk [.literal "0x1e", .literal "+", .literal "5."]).WellFormed := by
    have hnumbers : isTypedNumber "0x1e" = true ∧ isTypedNumber "5." = true := by decide +kernel
    intro p hp
    simp only [List.mem_cons, List.not_mem_nil, or_false] at hp
    rcases hp with rfl | rfl | rfl
    · exact Or.inr ⟨by decide, hnumbers.1⟩
    · exact Or.inl ⟨.plus, rfl⟩
    · exact Or.inr ⟨by decide, hnumbers.2⟩
  have hplus : (Piece.literal "+").IsOperator := ⟨.plus, rfl⟩
  have hchain : [Piece.literal "0x1e", .literal "+", .literal "5."].IsChain
      (fun p q => p.IsOperator ∨ q.IsOperator) :=
    .cons_cons (Or.inr hplus) (.cons_cons (Or.inl hplus) (.singleton _))
  exact ⟨hformed, hchain, tokenize_expression.2 _ hformed hchain, by decide +kernel⟩

end FormulaField
