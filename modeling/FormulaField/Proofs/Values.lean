import Mathlib.Data.List.Forall2
import FormulaField.Proofs.Acceptance

/-!
The reader does not look into the trees that it builds. Two readings are alike if they differ in
nothing but trees, and the trees have the same values; then they take and refuse the same tokens,
stay alike, and come to the same value. While the operand is being completed it does not even matter
what it was before: the readings need only stand in the same context.
-/

namespace FormulaField

open Reading

/-- Two trees with the same value, and the same of whatever comes with them. -/
def SameValue {β : Type} (p q : Expr × β) : Prop := p.1.eval = q.1.eval ∧ p.2 = q.2

/-- The same waits, up to trees of the same values. -/
inductive Pending.Alike : Pending → Pending → Prop
  | mk {sum sum' product product' signs power power'} : Option.Rel SameValue sum sum' →
      Option.Rel SameValue product product' → Option.Rel SameValue power power' →
      Alike ⟨sum, product, signs, power⟩ ⟨sum', product', signs, power'⟩

/-- The readings agree in all but the operand, up to trees of the same values. -/
inductive SameContext : Reading → Reading → Prop
  | mk {group group' outer outer' operand operand' d n lim} : group.Alike group' →
      List.Forall₂ Pending.Alike outer outer' →
      SameContext ⟨group, outer, operand, d, n, lim⟩ ⟨group', outer', operand', d, n, lim⟩

/-- The readings agree up to trees of the same values. -/
structure Reading.Alike (r r' : Reading) : Prop where
  context : SameContext r r'
  operand : Option.Rel (fun e e' => e.eval = e'.eval) r.operand r'.operand

/-- The same failure, or results that are related. -/
inductive Parallel {α β : Type} (R : α → β → Prop) : Except Failure α → Except Failure β → Prop
  | ok {a b} : R a b → Parallel R (.ok a) (.ok b)
  | error (f : Failure) : Parallel R (.error f) (.error f)

/-- A completed tree of the same value, in the same context. -/
def SameCompletion (p q : Expr × Reading) : Prop := p.1.eval = q.1.eval ∧ SameContext p.2 q.2

theorem Parallel.bind {α β γ δ : Type} {R : α → β → Prop} {S : γ → δ → Prop} {x : Except Failure α}
    {y : Except Failure β} {f : α → Except Failure γ} {g : β → Except Failure δ}
    (h : Parallel R x y) (k : ∀ a b, R a b → Parallel S (f a) (g b)) :
    Parallel S (x >>= f) (y >>= g) := by
  cases h with
  | ok hab => exact k _ _ hab
  | error f => exact .error f

/-- The value of a tree behind signs follows from the value of the tree. -/
theorem eval_withSigns {e e' : Expr} (h : e.eval = e'.eval) (signs : List Sign) :
    (e.withSigns signs).eval = (e'.withSigns signs).eval := by
  induction signs generalizing e e' with
  | nil => exact h
  | cons s ss ih =>
    have hs : (Expr.signed s e).eval = (Expr.signed s e').eval := by
      simp only [Expr.eval, h]
    exact ih hs

theorem eval_binary {a a' b b' : Expr} (o : Operation) (ha : a.eval = a'.eval)
    (hb : b.eval = b'.eval) : (Expr.binary a o b).eval = (Expr.binary a' o b').eval := by
  simp only [Expr.eval, ha, hb]

/-! ### Completing what waits -/

section
variable {r r' : Reading} {e e' : Expr}

theorem SameContext.countOperation (h : SameContext r r') (taken : Bool) :
    Parallel SameContext (r.countOperation taken) (r'.countOperation taken) := by
  obtain ⟨hgroup, houter⟩ := h
  unfold Reading.countOperation
  split
  · exact .ok ⟨hgroup, houter⟩
  · exact .error _

theorem SameContext.primary (h : SameContext r r') (he : e.eval = e'.eval) :
    Parallel Alike (r.primary e) (r'.primary e') := by
  obtain ⟨⟨hsum, hproduct, hpower⟩, houter⟩ := h
  cases hpower with
  | none => exact .ok ⟨⟨⟨hsum, hproduct, .none⟩, houter⟩, .some he⟩
  | some hpq =>
    obtain ⟨hbase, hmore⟩ := hpq
    simp only [Reading.primary, hmore]
    refine Parallel.bind (SameContext.countOperation
      ⟨⟨hsum, hproduct, .some ⟨hbase, hmore⟩⟩, houter⟩ true) ?_
    rintro _ _ ⟨⟨hsum, hproduct, -⟩, houter⟩
    exact .ok ⟨⟨⟨hsum, hproduct, .none⟩, houter⟩,
      .some (eval_binary .pow hbase (eval_withSigns he _))⟩

theorem SameContext.closeProduct (h : SameContext r r') (he : e.eval = e'.eval) :
    Parallel SameCompletion (r.closeProduct e) (r'.closeProduct e') := by
  obtain ⟨⟨hsum, hproduct, hpower⟩, houter⟩ := h
  have he := eval_withSigns he
  cases hproduct with
  | none => exact .ok ⟨he _, ⟨hsum, .none, hpower⟩, houter⟩
  | some hpq =>
    obtain ⟨hleft, ho⟩ := hpq
    simp only [Reading.closeProduct, ho]
    refine Parallel.bind (SameContext.countOperation
      ⟨⟨hsum, .some ⟨hleft, ho⟩, hpower⟩, houter⟩ false) ?_
    rintro _ _ ⟨⟨hsum, -, hpower⟩, houter⟩
    exact .ok ⟨eval_binary _ hleft (he _), ⟨hsum, .none, hpower⟩, houter⟩

theorem SameContext.closeSum (h : SameContext r r') (he : e.eval = e'.eval) :
    Parallel SameCompletion (r.closeSum e) (r'.closeSum e') := by
  obtain ⟨⟨hsum, hproduct, hpower⟩, houter⟩ := h
  cases hsum with
  | none => exact .ok ⟨he, ⟨.none, hproduct, hpower⟩, houter⟩
  | some hpq =>
    obtain ⟨hleft, ho⟩ := hpq
    simp only [Reading.closeSum, ho]
    refine Parallel.bind (SameContext.countOperation
      ⟨⟨.some ⟨hleft, ho⟩, hproduct, hpower⟩, houter⟩ false) ?_
    rintro _ _ ⟨⟨-, hproduct, hpower⟩, houter⟩
    exact .ok ⟨eval_binary _ hleft he, ⟨.none, hproduct, hpower⟩, houter⟩

/-- Signs may as well be set before the operand ahead of its completion. -/
theorem closeProduct_withSigns (r : Reading) (e : Expr) : r.closeProduct e =
    Reading.closeProduct { r with
      group := { r.group with signs := [] }
      depth := r.depth - r.group.signs.length } (e.withSigns r.group.signs) := rfl

theorem SameContext.failAt (h : SameContext r r') (error : ParseError) :
    r.failAt error = r'.failAt error := by
  obtain ⟨-, -⟩ := h
  rfl

theorem SameContext.failPast (h : SameContext r r') (error : ParseError) :
    r.failPast error = r'.failPast error := by
  obtain ⟨-, -⟩ := h
  rfl

theorem Reading.Alike.due (h : r.Alike r') (ho : r.operand = none) : r'.operand = none := by
  have hoperand := h.operand
  rw [ho] at hoperand
  generalize r'.operand = operand' at hoperand
  cases hoperand
  rfl

theorem Reading.Alike.exists_operand (h : r.Alike r') (ho : r.operand = some e) :
    ∃ e', r'.operand = some e' ∧ e.eval = e'.eval := by
  have hoperand := h.operand
  rw [ho] at hoperand
  generalize r'.operand = operand' at hoperand
  obtain ⟨he⟩ := hoperand
  exact ⟨_, rfl, he⟩

theorem Reading.Alike.endTerm (h : r.Alike r') : Parallel SameCompletion r.endTerm r'.endTerm := by
  cases ho : r.operand with
  | none =>
    rw [endTerm_due r ho, endTerm_due r' (h.due ho), h.context.failAt]
    exact .error _
  | some e =>
    obtain ⟨e', ho', he⟩ := h.exists_operand ho
    simp only [Reading.endTerm, ho, ho']
    exact h.context.closeProduct he

/-- What completes the term completes the sum. -/
theorem Parallel.endSum (h : Parallel SameCompletion r.endTerm r'.endTerm) :
    Parallel SameCompletion r.endSum r'.endSum :=
  h.bind fun _ _ hp => hp.2.closeSum hp.1

/-! ### One token and many -/

theorem Reading.Alike.descend (h : r.Alike r') : Parallel Alike r.descend r'.descend := by
  obtain ⟨⟨hgroup, houter⟩, hoperand⟩ := h
  simp only [Reading.descend]
  split
  · exact .ok ⟨⟨hgroup, houter⟩, hoperand⟩
  · exact .error _

theorem Reading.Alike.addSign (h : r.Alike r') (s : Sign) : (r.addSign s).Alike (r'.addSign s) := by
  obtain ⟨⟨⟨hsum, hproduct, hpower⟩, houter⟩, hoperand⟩ := h
  cases hpower with
  | none => exact ⟨⟨⟨hsum, hproduct, .none⟩, houter⟩, hoperand⟩
  | some hpq =>
    obtain ⟨hbase, hmore⟩ := hpq
    simp only [Reading.addSign, hmore]
    exact ⟨⟨⟨hsum, hproduct, .some ⟨hbase, rfl⟩⟩, houter⟩, hoperand⟩

theorem Reading.Alike.takeOperand (h : r.Alike r') (t : Token) :
    Parallel Alike (r.takeOperand t) (r'.takeOperand t) := by
  unfold Reading.takeOperand
  split
  · split
    · exact h.context.primary rfl
    · rw [h.context.failPast]
      exact .error _
  · obtain ⟨⟨hgroup, houter⟩, hoperand⟩ := h
    refine Reading.Alike.descend ⟨⟨⟨.none, .none, .none⟩, .cons hgroup houter⟩, hoperand⟩
  · exact (h.addSign .plus).descend
  · exact (h.addSign .minus).descend
  · rw [h.context.failAt]
    exact .error _

theorem SameContext.takeClosing (h : SameContext r r') (he : e.eval = e'.eval) (t : Token) :
    Parallel Alike (r.takeClosing e t) (r'.takeClosing e' t) := by
  have htrailing := h.failAt (.trailing t.text t.span)
  have hunexpected := h.failAt (.unexpected .closing t.text t.span)
  obtain ⟨hgroup, houter⟩ := h
  unfold Reading.takeClosing
  cases houter with
  | nil =>
    simp only [htrailing]
    exact .error _
  | cons hfirst hrest =>
    simp only
    split
    · exact SameContext.primary ⟨hfirst, hrest⟩ (by simpa only [Expr.eval] using he)
    · rw [hunexpected]
      exact .error _

/-- A token that is no power sees no more of an operand than the term that it completes. -/
theorem step_of_endTerm {t : Token} (ht : t.kind ≠ .operator .caret) (ho : r.operand = some e)
    (ho' : r'.operand = some e') (h : Parallel SameCompletion r.endTerm r'.endTerm) :
    Parallel Alike (r.step t) (r'.step t) := by
  by_cases hop : ∃ o : Operation, t.kind = .operator o.operator
  · obtain ⟨o, hkind⟩ := hop
    cases hlevel : o.level with
    | additive =>
      rw [step_sum hkind hlevel ho, step_sum hkind hlevel ho']
      refine h.endSum.bind ?_
      rintro ⟨p, r₁⟩ ⟨p', r₁'⟩ ⟨hp, ⟨-, hproduct, hpower⟩, houter⟩
      exact .ok ⟨⟨⟨.some ⟨hp, rfl⟩, hproduct, hpower⟩, houter⟩, .none⟩
    | term =>
      rw [step_product hkind hlevel ho, step_product hkind hlevel ho']
      refine h.bind ?_
      rintro ⟨p, r₁⟩ ⟨p', r₁'⟩ ⟨hp, ⟨hsum, -, hpower⟩, houter⟩
      exact .ok ⟨⟨⟨hsum, .some ⟨hp, rfl⟩, hpower⟩, houter⟩, .none⟩
    | power =>
      cases o <;> cases hlevel
      exact absurd hkind ht
    | unary | signed | primary => cases o <;> cases hlevel
  · have hother : ∀ o : Operation, t.kind ≠ .operator o.operator := fun o h => hop ⟨o, h⟩
    rw [step_other hother ho, step_other hother ho']
    exact h.endSum.bind fun _ _ hp => hp.2.takeClosing hp.1 t

theorem Reading.Alike.step (h : r.Alike r') (t : Token) : Parallel Alike (r.step t) (r'.step t) := by
  cases ho : r.operand with
  | none =>
    simp only [Reading.step, ho, h.due ho]
    exact h.takeOperand t
  | some e =>
    obtain ⟨e', ho', he⟩ := h.exists_operand ho
    by_cases ht : t.kind = .operator .caret
    · rw [step_power ht ho, step_power ht ho']
      obtain ⟨⟨⟨hsum, hproduct, -⟩, houter⟩, -⟩ := h
      exact .ok ⟨⟨⟨hsum, hproduct, .some ⟨he, rfl⟩⟩, houter⟩, .none⟩
    · exact step_of_endTerm ht ho ho' h.endTerm

theorem Reading.Alike.run (h : r.Alike r') (ts : List Token) :
    Parallel Alike (r.run ts) (r'.run ts) := by
  induction ts generalizing r r' with
  | nil => exact .ok h
  | cons t ts ih =>
    rw [run_cons, run_cons]
    exact (h.step t).bind fun _ _ h => ih h

/-! ### The value in the end -/

/-- Two answers of the same value. -/
def SameAnswer (p q : Expr × Reading) : Prop := p.1.eval = q.1.eval

theorem Parallel.finish (h : Parallel SameCompletion r.endTerm r'.endTerm) :
    Parallel SameAnswer r.finish r'.finish := by
  rw [finish_eq, finish_eq]
  refine h.endSum.bind ?_
  rintro ⟨p, r₁⟩ ⟨p', r₁'⟩ ⟨hp, -, houter⟩
  cases houter with
  | nil => exact .ok hp
  | cons => exact .error _

/-- Alike readings come to the same value. -/
theorem Reading.Alike.answers (h : r.Alike r') (ts : List Token) :
    Parallel SameAnswer (r.run ts >>= Reading.finish) (r'.run ts >>= Reading.finish) :=
  (h.run ts).bind fun _ _ h => h.endTerm.finish

/-- Readings whose terms are completed alike come to the same value, unless a power follows. -/
theorem parallel_of_endTerm {ts : List Token} (hts : ∀ t ∈ ts.head?, t.kind ≠ .operator .caret)
    (ho : r.operand = some e) (ho' : r'.operand = some e')
    (h : Parallel SameCompletion r.endTerm r'.endTerm) :
    Parallel SameAnswer (r.run ts >>= Reading.finish) (r'.run ts >>= Reading.finish) := by
  cases ts with
  | nil => exact h.finish
  | cons t ts =>
    rw [run_cons, run_cons, bind_assoc, bind_assoc]
    exact (step_of_endTerm (hts t rfl) ho ho' h).bind fun _ _ h => h.answers ts

end

end FormulaField
