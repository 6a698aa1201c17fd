import FormulaField.Proofs.Faces
import FormulaField.Proofs.Parse

/-!
The places of tokens show in errors and nowhere else. Reading tokens without their places gives the
same trees, and the same errors without the places that they point at, so what the reader makes of a
text follows from the kinds and texts of its tokens.
-/

namespace FormulaField

open Reading

/-- The error without the place that it points at. -/
def ParseError.unplaced : ParseError → ParseError
  | unexpected expected found _ => unexpected expected found ⟨0, 0⟩
  | trailing found _ => trailing found ⟨0, 0⟩
  | e => e

/-- The failure without the place that its error points at. -/
def Failure.unplaced (f : Failure) : Failure := { f with error := f.error.unplaced }

/-- The token without its place. -/
def Token.unplaced (t : Token) : Token := { t with span := ⟨0, 0⟩ }

/-- The token of this kind and text that has no place. -/
def Token.ofFace (face : TokenKind × String) : Token := ⟨face.1, ⟨0, 0⟩, face.2⟩

/-- The token of an operator that has no place. -/
def Operator.token (o : Operator) : Token := .ofFace (.operator o, String.ofList [o.char])

theorem mapError_bind {ε ε' α β : Type} (g : ε → ε') (x : Except ε α) (f : α → Except ε β) :
    (x >>= f).mapError g = x.mapError g >>= fun a => (f a).mapError g := by
  cases x <;> rfl

section
variable {ε ε' α : Type} {g : ε → ε'} {x : Except ε α}

theorem mapError_eq_ok_iff {a : α} : x.mapError g = .ok a ↔ x = .ok a := by
  cases x <;> simp [Except.mapError]

theorem exists_of_mapError_eq_error {e' : ε'} (h : x.mapError g = .error e') :
    ∃ e, x = .error e ∧ g e = e' := by
  cases x with
  | ok a => cases h
  | error e => exact ⟨e, rfl, Except.error.inj h⟩

end

/-! ### What points at no token -/

section
variable (r : Reading) (e : Expr)

theorem unplaced_countOperation (taken : Bool) :
    (r.countOperation taken).mapError Failure.unplaced = r.countOperation taken := by
  unfold countOperation
  split <;> rfl

theorem unplaced_primary : (r.primary e).mapError Failure.unplaced = r.primary e := by
  unfold primary
  split
  · rfl
  · rw [mapError_bind, unplaced_countOperation]
    rfl

theorem unplaced_descend : r.descend.mapError Failure.unplaced = r.descend := by
  simp only [descend]
  split <;> rfl

theorem unplaced_closeProduct :
    (r.closeProduct e).mapError Failure.unplaced = r.closeProduct e := by
  simp only [closeProduct]
  split
  · rfl
  · rw [mapError_bind, unplaced_countOperation]
    rfl

theorem unplaced_closeSum : (r.closeSum e).mapError Failure.unplaced = r.closeSum e := by
  unfold closeSum
  split
  · rfl
  · rw [mapError_bind, unplaced_countOperation]
    rfl

theorem unplaced_endTerm : r.endTerm.mapError Failure.unplaced = r.endTerm := by
  unfold endTerm
  split
  · rfl
  · exact unplaced_closeProduct r _

theorem unplaced_endSum : r.endSum.mapError Failure.unplaced = r.endSum := by
  unfold endSum
  rw [mapError_bind, unplaced_endTerm]
  congr 1
  funext p
  exact unplaced_closeSum p.2 p.1

theorem unplaced_finish : r.finish.mapError Failure.unplaced = r.finish := by
  rw [finish_eq, mapError_bind, unplaced_endSum]
  congr 1
  funext p
  cases p.2.outer <;> rfl

end

/-! ### One token and many -/

section
variable (r : Reading) (t : Token)

theorem takeOperand_unplaced :
    r.takeOperand t.unplaced = (r.takeOperand t).mapError Failure.unplaced := by
  unfold takeOperand
  simp only [Token.unplaced]
  split
  · split
    · exact (unplaced_primary ..).symm
    · rfl
  · exact (unplaced_descend _).symm
  · exact (unplaced_descend _).symm
  · exact (unplaced_descend _).symm
  · rfl

theorem takeClosing_unplaced (e : Expr) :
    r.takeClosing e t.unplaced = (r.takeClosing e t).mapError Failure.unplaced := by
  unfold takeClosing
  cases r.outer with
  | nil => rfl
  | cons group outer =>
    by_cases ht : t.kind = .operator .rightParen
    · simp only [Token.unplaced, ht, if_true]
      exact (unplaced_primary ..).symm
    · simp only [Token.unplaced, ht, if_false]
      rfl

theorem step_unplaced : r.step t.unplaced = (r.step t).mapError Failure.unplaced := by
  cases ho : r.operand with
  | none =>
    simp only [step, ho]
    exact takeOperand_unplaced r t
  | some e =>
    by_cases hop : ∃ o : Operation, t.kind = .operator o.operator
    · obtain ⟨o, ht⟩ := hop
      have ht' : t.unplaced.kind = .operator o.operator := ht
      cases hlevel : o.level with
      | additive =>
        rw [step_sum ht hlevel ho, step_sum ht' hlevel ho, mapError_bind, unplaced_endSum]
        rfl
      | term =>
        rw [step_product ht hlevel ho, step_product ht' hlevel ho, mapError_bind, unplaced_endTerm]
        rfl
      | power =>
        cases o <;> cases hlevel
        rw [step_power ht ho, step_power ht' ho]
        rfl
      | unary | signed | primary => cases o <;> cases hlevel
    · have hother : ∀ o : Operation, t.kind ≠ .operator o.operator := fun o ht => hop ⟨o, ht⟩
      rw [step_other hother ho, step_other (t := t.unplaced) hother ho, mapError_bind,
        unplaced_endSum]
      congr 1
      funext p
      exact takeClosing_unplaced p.2 t p.1

end

theorem run_unplaced (r : Reading) (ts : List Token) :
    r.run (ts.map Token.unplaced) = (r.run ts).mapError Failure.unplaced := by
  induction ts generalizing r with
  | nil => rfl
  | cons t ts ih =>
    rw [List.map_cons, run_cons, run_cons, step_unplaced, mapError_bind]
    congr 1
    funext r₁
    exact ih r₁

/-- What the reader makes of a text follows from the kinds and texts of its tokens, up to the places
that errors point at. -/
theorem parse_unplaced (source : String) : (parse source).mapError ParseError.unplaced =
    if faces source.toList = [] then .error .empty
    else answer ((start 0 0).run ((faces source.toList).map Token.ofFace) >>= finish) := by
  have htokens : (faces source.toList).map Token.ofFace =
      (properTokens source).map Token.unplaced := by
    rw [faces, String.ofList_toList, List.map_map]
    rfl
  have hnil : faces source.toList = [] ↔ properTokens source = [] := by
    rw [faces, String.ofList_toList, List.map_eq_nil_iff]
  rw [parse_eq, htokens, run_unplaced]
  simp only [hnil]
  split
  · rfl
  · have hfinish : ((start 0 0).run (properTokens source) >>= finish).mapError Failure.unplaced =
        ((start 0 0).run (properTokens source)).mapError Failure.unplaced >>= finish := by
      rw [mapError_bind]
      congr 1
      funext r
      exact unplaced_finish r
    rw [← hfinish]
    cases (start 0 0).run (properTokens source) >>= finish <;> rfl

/-- A text whose tokens derive a tree within the limits is read as this tree. -/
theorem parse_of_faces {source : String} {e : Expr}
    (h : Derives .additive ((faces source.toList).map Token.ofFace) e)
    (hdepth : e.nesting ≤ maxDepth) (hoperations : e.operations ≤ maxOperations) :
    parse source = .ok e := by
  obtain ⟨p, hp, rfl⟩ := (h.settles_finish {}).exists_ok hdepth hoperations
  have hne : faces source.toList ≠ [] := by
    intro hnil
    exact h.ne_nil (by rw [hnil]; rfl)
  rw [← mapError_eq_ok_iff, parse_unplaced, if_neg hne, hp]
  rfl

end FormulaField
