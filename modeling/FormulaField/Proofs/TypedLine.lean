import Mathlib.Logic.ExistsUnique
import FormulaField.Proofs.NumberToken
import FormulaField.Proofs.Run

/-!
Typing a whole text and pressing Enter. A text falls apart into operators and the runs of other
characters between them, in one way only. Each operator key commits the run before it or drops it, and
Enter commits the last run or leaves it in the field; so the expression is the text without the runs
that are no numbers, and it is the text itself when every run is one.
-/

namespace FormulaField

/-- A text as runs of characters and the operators between them. -/
structure Line where
  first : String
  rest : List (Operator × String)

namespace Line

/-- The characters of operators and the runs behind them. -/
def restChars (rest : List (Operator × String)) : List Char :=
  rest.flatMap fun (o, run) => o.char :: run.toList

/-- The whole text. -/
def text (line : Line) : String := String.ofList (line.first.toList ++ restChars line.rest)

/-- The runs, in order. -/
def runs (line : Line) : List String := line.first :: line.rest.map Prod.snd

/-- The run behind the last operator. -/
def last (line : Line) : String := line.runs.getLast (List.cons_ne_nil _ _)

/-- No operator character stands in a run. -/
def Plain (line : Line) : Prop := ∀ run ∈ line.runs, ∀ c ∈ run.toList, Operator.ofChar? c = none

instance (line : Line) : Decidable line.Plain :=
  decidable_of_iff (line.runs.all fun run => run.toList.all fun c => (Operator.ofChar? c).isNone)
    (by simp [Plain])

/-- The run if it is a number, and nothing otherwise. -/
def kept (run : String) : String := if isTypedNumber run then run else ""

/-- The line without the runs that are no numbers. -/
def numbers (line : Line) : Line :=
  ⟨kept line.first, line.rest.map fun (o, run) => (o, kept run)⟩

/-! ### One line for every text -/

/-- The line that a sequence of characters is. -/
def ofChars : List Char → Line
  | [] => ⟨"", []⟩
  | c :: cs =>
    match Operator.ofChar? c with
    | some o => ⟨"", (o, (ofChars cs).first) :: (ofChars cs).rest⟩
    | none => ⟨String.singleton c ++ (ofChars cs).first, (ofChars cs).rest⟩

section
variable {c : Char} {cs : List Char}

theorem ofChars_operator (o : Operator) :
    ofChars (o.char :: cs) = ⟨"", (o, (ofChars cs).first) :: (ofChars cs).rest⟩ := by
  rw [ofChars, Operator.ofChar?_char]

theorem ofChars_plain (h : Operator.ofChar? c = none) :
    ofChars (c :: cs) = ⟨String.singleton c ++ (ofChars cs).first, (ofChars cs).rest⟩ := by
  rw [ofChars, h]

theorem text_ofChars (cs : List Char) : (ofChars cs).text = String.ofList cs := by
  suffices h : (ofChars cs).first.toList ++ restChars (ofChars cs).rest = cs by rw [text, h]
  induction cs with
  | nil => rfl
  | cons c cs ih =>
    cases ho : Operator.ofChar? c with
    | some o =>
      rw [Operator.eq_char_of_ofChar? ho, ofChars_operator]
      simpa [restChars] using ih
    | none =>
      rw [ofChars_plain ho]
      simpa using ih

theorem plain_ofChars (cs : List Char) : (ofChars cs).Plain := by
  induction cs with
  | nil => simp [Plain, ofChars, runs]
  | cons c cs ih =>
    have hfirst := ih (ofChars cs).first List.mem_cons_self
    have hrest : ∀ run ∈ (ofChars cs).rest.map Prod.snd, ∀ c ∈ run.toList,
        Operator.ofChar? c = none :=
      fun run hrun => ih run (List.mem_cons_of_mem _ hrun)
    intro run hrun
    cases ho : Operator.ofChar? c with
    | some o =>
      rw [Operator.eq_char_of_ofChar? ho, ofChars_operator] at hrun
      rcases List.mem_cons.mp hrun with rfl | hrun
      · simp
      · rcases List.mem_cons.mp hrun with rfl | hrun
        · exact hfirst
        · exact hrest run hrun
    | none =>
      rw [ofChars_plain ho] at hrun
      rcases List.mem_cons.mp hrun with rfl | hrun
      · intro d hd
        rw [String.toList_append, String.toList_singleton, List.singleton_append] at hd
        rcases List.mem_cons.mp hd with rfl | hd
        · exact ho
        · exact hfirst d hd
      · exact hrest run hrun

/-- Plain characters in front of a line belong to its first run. -/
theorem ofChars_append (run : List Char) (h : ∀ c ∈ run, Operator.ofChar? c = none) :
    ofChars (run ++ cs) = ⟨String.ofList run ++ (ofChars cs).first, (ofChars cs).rest⟩ := by
  induction run with
  | nil => simp
  | cons c run ih =>
    rw [List.cons_append, ofChars_plain (h c List.mem_cons_self),
      ih fun d hd => h d (List.mem_cons_of_mem c hd), ← String.append_assoc]
    congr 2
    simp

/-- A plain line is found again in its text. -/
theorem ofChars_text {line : Line} (h : line.Plain) : ofChars line.text.toList = line := by
  obtain ⟨first, rest⟩ := line
  rw [text, String.toList_ofList]
  induction rest generalizing first with
  | nil =>
    rw [ofChars_append _ (h first List.mem_cons_self)]
    simp [restChars, ofChars]
  | cons p rest ih =>
    obtain ⟨o, run⟩ := p
    have hrest : Plain ⟨run, rest⟩ := fun r hr => h r (List.mem_cons_of_mem _ hr)
    rw [ofChars_append _ (h first List.mem_cons_self)]
    change Line.mk (_ ++ (ofChars (o.char :: (run.toList ++ restChars rest))).first)
      (ofChars (o.char :: (run.toList ++ restChars rest))).rest = _
    rw [ofChars_operator, ih run hrest]
    simp

end

/-- Every text is one plain line. -/
theorem existsUnique (s : String) : ∃! line : Line, line.Plain ∧ line.text = s := by
  refine ⟨ofChars s.toList, ⟨plain_ofChars _, ?_⟩, ?_⟩
  · rw [text_ofChars, String.ofList_toList]
  · rintro line ⟨hplain, rfl⟩
    exact (ofChars_text hplain).symm

theorem numbers_eq_self {line : Line} (h : ∀ run ∈ line.runs, isTypedNumber run = true) :
    line.numbers = line := by
  obtain ⟨first, rest⟩ := line
  have hfirst : kept first = first := if_pos (h first List.mem_cons_self)
  have hrest : (rest.map fun (o, run) => (o, kept run)) = rest.map id := by
    refine List.map_congr_left fun p hp => ?_
    have hnumber := h p.2 (List.mem_cons_of_mem _ (List.mem_map_of_mem hp))
    exact congrArg (Prod.mk p.1) (if_pos hnumber)
  rw [numbers, hfirst, hrest, List.map_id]

end Line

/-! ### Typing -/

/-- The call that typing a character makes: operators are keys, all else goes into the field. -/
def keystroke (c : Char) : Call :=
  match Operator.ofChar? c with
  | some o => .key (.operator o)
  | none => .input (String.singleton c)

namespace Editor

section
variable {e : Editor} {now : Float}

theorem buffer_input (text : String) : (e.input text now).state.buffer = e.buffer ++ text := by
  rw [input]
  split
  · next htext => simp [quiet, htext]
  · rfl

theorem buffer_typeOperator (o : Operator) : (e.typeOperator o now).state.buffer = "" := by
  rw [typeOperator]
  split
  · next hbuffer => exact hbuffer
  · rfl

theorem buffer_enter : (e.enter now).state.buffer =
    if isTypedNumber e.buffer then "" else e.buffer := by
  rw [enter]
  split
  · next hbuffer =>
    rw [hbuffer, ite_self]
    exact hbuffer
  · split
    · rfl
    · rfl

/-- Plain characters gather in the field. -/
theorem run_plain {cs : List Char} (hplain : ∀ c ∈ cs, Operator.ofChar? c = none)
    {calls : List (Float × Call)} (hcalls : calls.map Prod.snd = cs.map keystroke) :
    (e.run calls).buffer = e.buffer ++ String.ofList cs ∧
      (e.run calls).store.formula = e.store.formula := by
  induction cs generalizing e calls with
  | nil =>
    obtain rfl := List.map_eq_nil_iff.mp hcalls
    simp [run]
  | cons c cs ih =>
    obtain ⟨⟨now, call⟩, rest, rfl, hcall, hrest⟩ := List.map_eq_cons_iff.mp hcalls
    have hstroke : call = .input (String.singleton c) := by
      rw [keystroke, hplain c List.mem_cons_self] at hcall
      exact hcall
    subst hstroke
    have hstep := ih (e := (e.perform now (.input (String.singleton c))).state)
      (fun d hd => hplain d (List.mem_cons_of_mem c hd)) hrest
    have hbuffer : (e.perform now (.input (String.singleton c))).state.buffer =
        e.buffer ++ String.singleton c := buffer_input (String.singleton c)
    rw [hbuffer, formula_perform] at hstep
    refine ⟨?_, hstep.2⟩
    rw [run, hstep.1, String.append_assoc]
    congr 1
    simp

theorem text_committed (e : Editor) :
    e.committed.flatMap Piece.text = (Line.kept e.buffer).toList := by
  unfold committed Line.kept
  by_cases hnumber : isTypedNumber e.buffer = true
  · rw [if_pos hnumber]
    by_cases hbuffer : e.buffer = ""
    · rw [if_neg fun h => h.1 hbuffer, hbuffer]
      rfl
    · rw [if_pos ⟨hbuffer, hnumber⟩]
      simp [Piece.text]
  · rw [if_neg hnumber, if_neg fun h => hnumber h.2]
    rfl

/-- What is typed behind the first run, up to Enter. -/
theorem run_rest {rest : List (Operator × String)}
    (hplain : ∀ p ∈ rest, ∀ c ∈ p.2.toList, Operator.ofChar? c = none)
    {calls : List (Float × Call)}
    (hcalls : calls.map Prod.snd = (Line.restChars rest).map keystroke ++ [.key .enter]) :
    (e.run calls).store.formula.pieces.flatMap Piece.text =
        e.store.formula.pieces.flatMap Piece.text ++ (Line.numbers ⟨e.buffer, rest⟩).text.toList ∧
      (e.run calls).buffer = if isTypedNumber (Line.mk e.buffer rest).last then ""
        else (Line.mk e.buffer rest).last := by
  induction rest generalizing e calls with
  | nil =>
    obtain ⟨⟨now, call⟩, none, rfl, rfl, hnone⟩ := List.map_eq_cons_iff.mp hcalls
    obtain rfl := List.map_eq_nil_iff.mp hnone
    refine ⟨?_, buffer_enter⟩
    change (e.perform now (.key .enter)).state.store.formula.pieces.flatMap Piece.text = _
    rw [formula_perform, nextFormula, List.flatMap_append, text_committed]
    simp [Line.numbers, Line.text, Line.restChars]
  | cons p rest ih =>
    obtain ⟨o, run⟩ := p
    -- the operator, the run behind it, and what is left
    rw [Line.restChars, List.flatMap_cons, List.cons_append, List.map_cons, List.cons_append,
      List.map_append, List.append_assoc] at hcalls
    obtain ⟨⟨now, call⟩, behind, rfl, hcall, hbehind⟩ := List.map_eq_cons_iff.mp hcalls
    obtain ⟨typed, left, rfl, htyped, hleft⟩ := List.map_eq_append_iff.mp hbehind
    have hstroke : call = .key (.operator o) := by
      rw [keystroke, Operator.ofChar?_char] at hcall
      exact hcall
    subst hstroke
    let e₁ := (e.perform now (.key (.operator o))).state
    have hempty : e₁.buffer = "" := buffer_typeOperator o
    have hformula : e₁.store.formula = e.nextFormula (.key (.operator o)) := formula_perform ..
    obtain ⟨hbuffer, hsame⟩ := run_plain (e := e₁)
      (hplain (o, run) List.mem_cons_self) htyped
    rw [hempty, String.empty_append, String.ofList_toList] at hbuffer
    obtain ⟨htext, hlast⟩ := ih (e := e₁.run typed)
      (fun p hp => hplain p (List.mem_cons_of_mem _ hp)) hleft
    have hrun : e.run ((now, .key (.operator o)) :: (typed ++ left)) = (e₁.run typed).run left :=
      run_append ..
    rw [hbuffer] at htext hlast
    rw [hrun]
    refine ⟨?_, hlast⟩
    rw [htext, hsame, hformula, nextFormula, List.flatMap_append, List.flatMap_append,
      text_committed]
    simp [Line.numbers, Line.text, Line.restChars, Piece.text]

end

/-- Every text is one line of runs and operators. Typing it into an empty editor, whatever the times,
and pressing Enter gives the expression of the runs that are numbers with all the operators; the last
run stays in the field if it is no number; and the value is that of the expression. So a text whose
runs are all numbers becomes the expression as it stands. -/
theorem typed_text_reproduced (s : String) :
    (∃! line : Line, line.Plain ∧ line.text = s) ∧
    ∀ line : Line, line.Plain → line.text = s → ∀ (e : Editor) (calls : List (Float × Call)),
      e.store.formula.pieces = [] → e.buffer = "" →
      calls.map Prod.snd = s.toList.map keystroke ++ [.key .enter] →
      (e.run calls).store.formula.expression = line.numbers.text ∧
      (e.run calls).buffer = (if isTypedNumber line.last then "" else line.last) ∧
      (e.run calls).calculate.value = (FormulaField.calculate line.numbers.text).toOption ∧
      ((∀ run ∈ line.runs, isTypedNumber run = true) →
        (e.run calls).store.formula.expression = s) := by
  refine ⟨Line.existsUnique s, ?_⟩
  rintro line hplain rfl e calls hformula hbuffer hcalls
  obtain ⟨first, rest⟩ := line
  rw [Line.text, String.toList_ofList, List.map_append, List.append_assoc] at hcalls
  obtain ⟨typed, left, rfl, htyped, hleft⟩ := List.map_eq_append_iff.mp hcalls
  obtain ⟨hfirst, hsame⟩ := run_plain (e := e) (hplain first List.mem_cons_self) htyped
  rw [hbuffer, String.empty_append, String.ofList_toList] at hfirst
  have hrest : ∀ p ∈ rest, ∀ c ∈ p.2.toList, Operator.ofChar? c = none := by
    intro p hp
    exact hplain p.2 (List.mem_cons_of_mem _ (List.mem_map_of_mem hp))
  obtain ⟨htext, hlast⟩ := run_rest hrest hleft
  rw [hsame, hformula, hfirst] at htext
  rw [hfirst] at hlast
  rw [run_append]
  have hexpression : ((e.run typed).run left).store.formula.expression =
      (Line.numbers ⟨first, rest⟩).text := by
    rw [Formula.expression, htext, List.flatMap_nil, List.nil_append, String.ofList_toList]
  refine ⟨hexpression, hlast, ?_, ?_⟩
  · change (FormulaField.calculate ((e.run typed).run left).store.formula.expression).toOption = _
    rw [hexpression]
  · intro hnumbers
    rw [hexpression, Line.numbers_eq_self hnumbers]

/-- Of `1e2+ab* 3` the letters are dropped, and the blank before the number stays. -/
theorem typed_text_with_word :
    let calls := ("1e2+ab* 3".toList.map fun c => (Float.ofBits 0, keystroke c)) ++
      [(Float.ofBits 0, .key .enter)]
    let line : Line := ⟨"1e2", [(.plus, "ab"), (.star, " 3")]⟩
    line.Plain ∧ line.text = "1e2+ab* 3" ∧
    ((new {} (.sequence [])).run calls).store.formula.expression = "1e2+* 3" ∧
    ((new {} (.sequence [])).run calls).buffer = "" := by
  intro calls line
  have hplain : line.Plain := by decide
  have htext : line.text = "1e2+ab* 3" := by decide
  have hcalls : calls.map Prod.snd = "1e2+ab* 3".toList.map keystroke ++ [.key .enter] := by
    simp [calls]
  have h := (typed_text_reproduced "1e2+ab* 3").2 line hplain htext (new {} (.sequence [])) calls
    rfl rfl hcalls
  refine ⟨hplain, htext, h.1.trans ?_, h.2.1.trans ?_⟩ <;> decide +kernel

end Editor

end FormulaField
