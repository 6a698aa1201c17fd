import FormulaField.Proofs.Run
import FormulaField.Proofs.TypedTokens

/-!
The number that Enter commits to an empty formula. What the editor took for a number is from then on
read by the evaluator, and the two read the same number wherever something is typed. Blanks alone are
zero to the editor and no expression to the evaluator, so they are committed and have no value.
-/

namespace FormulaField

open Text

/-! ### The value of a committed text -/

section
variable {text : String}

theorem calculate_of_isTypedNumber (h : isTypedNumber text = true) (hmark : '\uFEFF' ∉ text.toList)
    (hblank : isAllBlank text = false) : calculate text = .ok (typedNumber text) := by
  obtain ⟨pre, c, cs, post, htrim, htext, hpre, hpost, -, -⟩ := exists_core hmark hblank
  have hform : TypedForm (c :: cs) :=
    ((isTypedNumber_iff htrim).mp h).resolve_left (List.cons_ne_nil c cs)
  exact calculate_of_typedForm hform htrim htext hpre hpost

/-- Nothing but blanks counts as zero. -/
theorem typedNumber_of_isAllBlank (h : isAllBlank text = true) :
    typedNumber text = Float.ofBits 0 := by
  have hpadding : ∀ c ∈ text.toList, isPadding c = true := by
    intro c hc
    rw [isPadding, List.all_eq_true.mp h c hc, Bool.true_or]
  have htrim : trimBy isPadding text.toList = [] := by
    rw [trimBy, List.dropWhile_eq_nil_iff.mpr hpadding]
    rfl
  simp only [typedNumber, htrim, if_true]

theorem calculate_of_isAllBlank (h : isAllBlank text = true) : calculate text = .error .empty := by
  have hblank : ∀ c ∈ text.toList, isBlank c = true := List.all_eq_true.mp h
  obtain ⟨e, htokens, -⟩ := tokens_finish hblank 0
  have hproper : properTokens text = [] := by
    rw [properTokens, tokenize, Scanner.ofText, htokens]
    rfl
  rw [calculate, parse_eq, if_pos hproper]
  rfl

end

/-- A formula of one literal is evaluated by the literal's text. -/
theorem Formula.calculate_literal (text : String) :
    (Formula.mk [.literal text]).calculate = (FormulaField.calculate text).toOption := by
  have hexpression : (Formula.mk [.literal text]).expression = text := by
    simp [Formula.expression, Piece.text]
  rw [Formula.calculate, Formula.evaluate, hexpression]

namespace Editor

/-- Enter makes the buffer the whole formula, and the formula has the value that was typed. -/
def ReadsBack (e : Editor) (now : Float) : Prop :=
  (e.key .enter now).state.store.formula.pieces = [.literal e.buffer] ∧
  (e.key .enter now).state.calculate.value = some (typedNumber e.buffer)

section
variable {e : Editor}

theorem pieces_enter (now : Float) (hformula : e.store.formula.pieces = []) :
    (e.key .enter now).state.store.formula.pieces = e.committed := by
  change (e.enter now).state.store.formula.pieces = e.committed
  rw [formula_enter, nextFormula, hformula]
  rfl

theorem committed_of_isTypedNumber (hbuffer : e.buffer ≠ "")
    (hnumber : isTypedNumber e.buffer = true) : e.committed = [.literal e.buffer] :=
  if_pos ⟨hbuffer, hnumber⟩

/-- The value after Enter is the value of the text that was committed. -/
theorem calculate_enter (now : Float) (hformula : e.store.formula.pieces = [])
    (hbuffer : e.buffer ≠ "") (hnumber : isTypedNumber e.buffer = true) :
    (e.key .enter now).state.calculate.value = (FormulaField.calculate e.buffer).toOption := by
  have hpieces : (e.key .enter now).state.store.formula = ⟨[.literal e.buffer]⟩ := by
    rw [← committed_of_isTypedNumber hbuffer hnumber, ← pieces_enter now hformula]
  change (e.key .enter now).state.store.formula.calculate = _
  rw [hpieces, Formula.calculate_literal]

/-- Enter commits the buffer to an empty formula exactly if it is a number. The number is read back
as it was typed if there is anything but blanks in it, and no byte order mark. Blanks alone count as
zero, so they are committed, but they leave a formula without a value. -/
theorem readsBack_after_enter (now : Float) (hformula : e.store.formula.pieces = [])
    (hbuffer : e.buffer ≠ "") :
    ((e.key .enter now).state.store.formula.pieces = [.literal e.buffer] ↔
      isTypedNumber e.buffer = true) ∧
    (isAllBlank e.buffer = true → typedNumber e.buffer = Float.ofBits 0 ∧
      (e.key .enter now).state.store.formula.pieces = [.literal e.buffer] ∧
      (e.key .enter now).state.calculate.value = none) ∧
    (isTypedNumber e.buffer = true → isAllBlank e.buffer = false →
      '\uFEFF' ∉ e.buffer.toList → e.ReadsBack now) := by
  have hcommitted : isTypedNumber e.buffer = true →
      (e.key .enter now).state.store.formula.pieces = [.literal e.buffer] := by
    intro hnumber
    rw [pieces_enter now hformula, committed_of_isTypedNumber hbuffer hnumber]
  refine ⟨⟨?_, hcommitted⟩, ?_, ?_⟩
  · intro hpieces
    rw [pieces_enter now hformula, committed] at hpieces
    split at hpieces
    · next h => exact h.2
    · cases hpieces
  · intro hblank
    have hzero := typedNumber_of_isAllBlank hblank
    have hnumber : isTypedNumber e.buffer = true := by
      rw [isTypedNumber, hzero]
      rfl
    refine ⟨hzero, hcommitted hnumber, ?_⟩
    rw [calculate_enter now hformula hbuffer hnumber, calculate_of_isAllBlank hblank,
      Except.toOption]
  · intro hnumber hblank hmark
    refine ⟨hcommitted hnumber, ?_⟩
    rw [calculate_enter now hformula hbuffer hnumber,
      calculate_of_isTypedNumber hnumber hmark hblank, Except.toOption]

end

/-- A new editor in which a text has been typed. -/
def typed (text : String) : Editor := ((new {} (.sequence [])).input text (Float.ofBits 0)).state

/-- A hexadecimal number between an ordinary and a no-break space is read back. Two blanks are
committed as zero, and are not. -/
theorem readsBack_hexadecimal :
    ((typed " 0x1E\u00A0").store.formula.pieces = [] ∧ (typed " 0x1E\u00A0").buffer ≠ "" ∧
      isTypedNumber (typed " 0x1E\u00A0").buffer = true ∧
      typedNumber (typed " 0x1E\u00A0").buffer = Float.ofBits 0x403E000000000000 ∧
      (typed " 0x1E\u00A0").ReadsBack (Float.ofBits 0)) ∧
    ((typed "  ").store.formula.pieces = [] ∧ (typed "  ").buffer ≠ "" ∧
      isAllBlank (typed "  ").buffer = true ∧ typedNumber (typed "  ").buffer = Float.ofBits 0 ∧
      ((typed "  ").key .enter (Float.ofBits 0)).state.store.formula.pieces = [.literal "  "] ∧
      ((typed "  ").key .enter (Float.ofBits 0)).state.calculate.value = none) := by
  have hbuffer : (typed " 0x1E\u00A0").buffer ≠ "" := by decide
  have hnumber : isTypedNumber (typed " 0x1E\u00A0").buffer = true := by decide +kernel
  have hblanks : (typed "  ").buffer ≠ "" := by decide
  have hempty : isAllBlank (typed "  ").buffer = true := by decide
  exact ⟨⟨rfl, hbuffer, hnumber, by decide +kernel,
      (readsBack_after_enter (Float.ofBits 0) rfl hbuffer).2.2 hnumber (by decide) (by decide)⟩,
    rfl, hblanks, hempty, (readsBack_after_enter (Float.ofBits 0) rfl hblanks).2.1 hempty⟩

/-- Enter commits two blanks to an empty formula as a number, and the number is not read back; nor is
a number behind a byte order mark. -/
theorem not_readsBack_blanks :
    ((typed "  ").store.formula.pieces = [] ∧ (typed "  ").buffer ≠ "" ∧
      isTypedNumber (typed "  ").buffer = true ∧ ¬(typed "  ").ReadsBack (Float.ofBits 0)) ∧
    ((typed "\uFEFF5").store.formula.pieces = [] ∧ (typed "\uFEFF5").buffer ≠ "" ∧
      isTypedNumber (typed "\uFEFF5").buffer = true ∧
      ¬(typed "\uFEFF5").ReadsBack (Float.ofBits 0)) := by
  have hblanks : isTypedNumber (typed "  ").buffer = true := by decide +kernel
  have hmark : isTypedNumber (typed "\uFEFF5").buffer = true := by decide +kernel
  refine ⟨⟨rfl, by decide, hblanks, ?_⟩, rfl, by decide, hmark, ?_⟩
  · rintro ⟨-, hvalue⟩
    have hempty : isAllBlank (typed "  ").buffer = true := by decide
    rw [calculate_enter _ rfl (by decide) hblanks, calculate_of_isAllBlank hempty] at hvalue
    cases hvalue
  · rintro ⟨-, hvalue⟩
    have herror : (FormulaField.calculate (typed "\uFEFF5").buffer).toOption = none := by
      decide +kernel
    rw [calculate_enter _ rfl (by decide) hmark, herror] at hvalue
    cases hvalue

end Editor

end FormulaField
