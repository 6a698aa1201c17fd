import FormulaField.Proofs.Grammar

/-!
Whatever the grammar derives, the reader takes. A reading knows nothing of the tree that it is
inside of, so each level of the grammar says what its tokens do to a reading at which that level is
due: a power leaves its tree as the operand, a unary also leaves signs that still wait, a term and a
sum give their tree once the reading is told to complete them. `Settles` carries the limits along:
the outcome is the stated one exactly if the tree fits, and else it is the error of a limit that the
tree exceeds.
-/

namespace FormulaField

/-- The outcome of something that needs so much depth and so many operations: a result with `Q` if
both are within the limits, and the error of an exceeded limit if not. -/
def Settles {α : Type} (limits : Limits) (depth operations : Nat) (Q : α → Prop) :
    Except Failure α → Prop
  | .ok a => depth ≤ limits.depth ∧ operations ≤ limits.operations ∧ Q a
  | .error f => (f.error = .tooDeep ∧ limits.depth < depth) ∨
      (f.error = .tooLong ∧ limits.operations < operations)

section
variable {α β : Type} {lim : Limits} {d d' n n' : Nat} {Q R : α → Prop} {S : β → Prop}
  {x : Except Failure α} {f : α → Except Failure β}

/-- What is needed may be told in other numbers, as long as they fit in the same cases. -/
theorem Settles.congr (h : Settles lim d n Q x) (hd : d ≤ lim.depth ↔ d' ≤ lim.depth)
    (hn : n ≤ lim.operations ↔ n' ≤ lim.operations) (hQ : ∀ a, Q a → R a) :
    Settles lim d' n' R x := by
  cases x with
  | ok a =>
    obtain ⟨h₁, h₂, h₃⟩ := h
    exact ⟨hd.mp h₁, hn.mp h₂, hQ a h₃⟩
  | error g =>
    rcases h with ⟨he, h⟩ | ⟨he, h⟩
    · exact Or.inl ⟨he, by omega⟩
    · exact Or.inr ⟨he, by omega⟩

/-- The second of two stages may rely on the first one having been within the limits. -/
theorem Settles.bind (h : Settles lim d n Q x) (hd : d ≤ d') (hn : n ≤ n')
    (k : ∀ a, d ≤ lim.depth → n ≤ lim.operations → Q a → Settles lim d' n' S (f a)) :
    Settles lim d' n' S (x >>= f) := by
  cases x with
  | ok a => exact k a h.1 h.2.1 h.2.2
  | error g =>
    rcases h with ⟨he, h⟩ | ⟨he, h⟩
    · exact Or.inl ⟨he, by omega⟩
    · exact Or.inr ⟨he, by omega⟩

/-- What follows a stage may be told for the stated results alone. -/
theorem Settles.bind_congr {f' : α → Except Failure β} (h : Settles lim d n Q x)
    (hf : ∀ a, d ≤ lim.depth → Q a → f a = f' a) : x >>= f = x >>= f' := by
  cases x with
  | ok a => exact hf a h.1 h.2.2
  | error g => rfl

/-- With enough depth and operations there is a result. -/
theorem Settles.exists_ok (h : Settles lim d n Q x) (hd : d ≤ lim.depth)
    (hn : n ≤ lim.operations) : ∃ a, x = .ok a ∧ Q a := by
  cases x with
  | ok a => exact ⟨a, rfl, h.2.2⟩
  | error g => rcases h with ⟨-, h⟩ | ⟨-, h⟩ <;> omega

/-- Only the limits can stand in the way of a result. -/
theorem Settles.error_eq {g : Failure} (h : Settles lim d n Q (.error g)) :
    g.error = .tooDeep ∨ g.error = .tooLong := by
  rcases h with ⟨he, -⟩ | ⟨he, -⟩
  · exact Or.inl he
  · exact Or.inr he

end

namespace Reading

/-- Takes the tokens one after another. -/
def run (r : Reading) (ts : List Token) : Except Failure Reading := ts.foldlM step r

/-- Completes the term whose last power is the operand. -/
def endTerm (r : Reading) : Except Failure (Expr × Reading) :=
  match r.operand with
  | none => .error (r.failAt .unexpectedEnd)
  | some e => r.closeProduct e

/-- Completes the sum whose last power is the operand. -/
def endSum (r : Reading) : Except Failure (Expr × Reading) :=
  r.endTerm >>= fun p => p.2.closeSum p.1

theorem run_nil (r : Reading) : r.run [] = .ok r := rfl

theorem run_cons (r : Reading) (t : Token) (ts : List Token) :
    r.run (t :: ts) = r.step t >>= (run · ts) := by
  simp only [run, List.foldlM_cons]

theorem run_append (r : Reading) (ts us : List Token) :
    r.run (ts ++ us) = r.run ts >>= (run · us) := by
  simp only [run, List.foldlM_append]

theorem run_singleton (r : Reading) (t : Token) : r.run [t] = r.step t := by
  rw [run_cons]
  cases r.step t <;> rfl

theorem finish_eq (r : Reading) : r.finish = r.endSum >>= fun p =>
    match p.2.outer with
    | [] => .ok p
    | _ => .error (p.2.failAt .unexpectedEnd) := by
  unfold finish endSum endTerm
  cases r.operand with
  | none => rfl
  | some e => simp only [bind_assoc]; rfl

theorem finish_of_outermost {r r₁ : Reading} {e : Expr} (hend : r.endSum = .ok (e, r₁))
    (houter : r₁.outer = []) : r.finish = .ok (e, r₁) := by
  obtain ⟨group, outer, operand, d, n, lim⟩ := r₁
  subst houter
  rw [finish_eq, hend]
  rfl

theorem finish_of_enclosed {r r₁ : Reading} {e : Expr} {group : Pending} {outer : List Pending}
    (hend : r.endSum = .ok (e, r₁)) (houter : r₁.outer = group :: outer) :
    r.finish = .error (r₁.failAt .unexpectedEnd) := by
  obtain ⟨group₁, outer₁, operand, d, n, lim⟩ := r₁
  subst houter
  rw [finish_eq, hend]
  rfl

end Reading

open Reading

section
variable {g : Pending} {outer : List Pending} {operand : Option Expr} {d n : Nat} {lim : Limits}

theorem settles_countOperation (taken : Bool) {d' : Nat} (hd : d' ≤ lim.depth) :
    Settles lim d' (n + 1) (· = ⟨g, outer, operand, d, n + 1, lim⟩)
      (countOperation ⟨g, outer, operand, d, n, lim⟩ taken) := by
  unfold countOperation
  split
  · next h => exact ⟨hd, h, rfl⟩
  · next h => exact Or.inr ⟨rfl, Nat.lt_succ_of_le (Nat.le_of_not_lt h)⟩

theorem settles_descend (hn : n ≤ lim.operations) :
    Settles lim (d + 1) n (· = ⟨g, outer, operand, d + 1, n, lim⟩)
      (descend ⟨g, outer, operand, d, n, lim⟩) := by
  simp only [descend]
  split
  · next h => exact ⟨h, hn, rfl⟩
  · next h => exact Or.inl ⟨rfl, Nat.lt_of_not_le h⟩

end

theorem withSigns_append (e : Expr) (ss us : List Sign) :
    e.withSigns (ss ++ us) = (e.withSigns ss).withSigns us := List.foldl_append

/-! ### Tokens that complete what waits before them -/

/-- A token that completes something before it is taken may be seen as coming after the completion:
an outcome that the limits alone can spoil is not one where an operand is still due. -/
theorem bind_step_eq {α : Type} {lim : Limits} {d n : Nat} {Q : α → Prop} {t : Token}
    {x : Except Failure Reading} {complete : Reading → Except Failure α}
    {k : α → Except Failure Reading} (h : Settles lim d n Q (x >>= complete))
    (hdue : ∀ r, r.operand = none → complete r = .error (r.failAt .unexpectedEnd))
    (hstep : ∀ r e, r.operand = some e → r.step t = complete r >>= k) :
    (x >>= fun r => r.step t) = (x >>= complete) >>= k := by
  cases x with
  | error f => rfl
  | ok r =>
    change r.step t = complete r >>= k
    cases ho : r.operand with
    | some e => exact hstep r e ho
    | none =>
      have h : Settles lim d n Q (complete r) := h
      rw [hdue r ho] at h
      rcases h.error_eq with h | h <;> cases h

theorem endTerm_due (r : Reading) (ho : r.operand = none) :
    r.endTerm = .error (r.failAt .unexpectedEnd) := by
  simp only [endTerm, ho]

theorem endSum_due (r : Reading) (ho : r.operand = none) :
    r.endSum = .error (r.failAt .unexpectedEnd) := by
  rw [endSum, endTerm_due r ho]; rfl

theorem step_product {r : Reading} {t : Token} {o : Operation} {e : Expr}
    (ht : t.kind = .operator o.operator) (ho : o.level = .term) (hr : r.operand = some e) :
    r.step t = r.endTerm >>= fun p =>
      .ok { p.2 with operand := none, group := { p.2.group with product := some (p.1, o) } } := by
  have hc : t.kind ≠ .operator .caret := by
    rw [ht]; cases o <;> simp_all [Operation.operator, Operation.level]
  have hm : o.operator.multiplicative? = some o := multiplicative?_eq_some_iff.mpr ⟨ho, rfl⟩
  simp only [step, hr, endTerm, takeOperator]
  rw [if_neg hc, ht]
  simp only [hm]
  rfl

theorem step_sum {r : Reading} {t : Token} {o : Operation} {e : Expr}
    (ht : t.kind = .operator o.operator) (ho : o.level = .additive) (hr : r.operand = some e) :
    r.step t = r.endSum >>= fun p =>
      .ok { p.2 with operand := none, group := { p.2.group with sum := some (p.1, o) } } := by
  have hc : t.kind ≠ .operator .caret := by
    rw [ht]; cases o <;> simp_all [Operation.operator, Operation.level]
  have hm : o.operator.multiplicative? = none := by
    cases o <;> simp_all [Operation.level, Operation.operator, Operator.multiplicative?]
  have ha : o.operator.additive? = some o := additive?_eq_some_iff.mpr ⟨ho, rfl⟩
  simp only [step, hr, endSum, endTerm, takeOperator]
  rw [if_neg hc, ht]
  simp only [hm, ha, bind_assoc]
  rfl

theorem step_power {r : Reading} {t : Token} {e : Expr} (ht : t.kind = .operator .caret)
    (hr : r.operand = some e) :
    r.step t = .ok { r with operand := none, group := { r.group with power := some (e, []) } } := by
  simp only [step, hr, takeOperator, ht, if_true]

/-- A token that is no operation completes the sum before it is looked at as a parenthesis. -/
theorem step_other {r : Reading} {t : Token} {e : Expr}
    (ht : ∀ o : Operation, t.kind ≠ .operator o.operator) (hr : r.operand = some e) :
    r.step t = r.endSum >>= fun p => p.2.takeClosing p.1 t := by
  have hc : t.kind ≠ .operator .caret := ht .pow
  simp only [step, hr, endSum, endTerm, takeOperator]
  rw [if_neg hc, bind_assoc]
  congr 1
  funext p
  split
  · next o ho =>
    have hm : o.multiplicative? = none := by
      cases o <;> first | rfl | exact absurd ho (ht .mul) | exact absurd ho (ht .div)
    have ha : o.additive? = none := by
      cases o <;> first | rfl | exact absurd ho (ht .add) | exact absurd ho (ht .sub)
    simp only [hm, ha]
  · rfl

/-! ### One rule of the grammar at a time -/

/-- What the tokens of a tree do to a reading at which their level is due. -/
def Reads : Level → List Token → Expr → Prop
  | .additive, ts, e => ∀ outer {d n lim}, d ≤ lim.depth → n ≤ lim.operations →
      Settles lim (d + e.nesting) (n + e.operations)
      (fun p => ∃ b, p = (e, ⟨{}, outer, some b, d, n + e.operations, lim⟩))
      (run ⟨{}, outer, none, d, n, lim⟩ ts >>= endSum)
  | .term, ts, e => ∀ sum outer {d n lim}, d ≤ lim.depth → n ≤ lim.operations →
      Settles lim (d + e.nesting) (n + e.operations)
      (fun p => ∃ b, p = (e, ⟨⟨sum, none, [], none⟩, outer, some b, d, n + e.operations, lim⟩))
      (run ⟨⟨sum, none, [], none⟩, outer, none, d, n, lim⟩ ts >>= endTerm)
  | .unary, ts, e => ∀ sum product signs outer {d n lim}, d ≤ lim.depth → n ≤ lim.operations →
      Settles lim (d + e.nesting) (n + e.operations)
      (fun r => ∃ b more, b.withSigns more = e ∧ r =
        ⟨⟨sum, product, more ++ signs, none⟩, outer, some b, d + more.length, n + e.operations, lim⟩)
      (run ⟨⟨sum, product, signs, none⟩, outer, none, d, n, lim⟩ ts)
  | .power, ts, e => ∀ sum product signs outer {d n lim}, d ≤ lim.depth → n ≤ lim.operations →
      Settles lim (d + e.nesting) (n + e.operations)
      (· = ⟨⟨sum, product, signs, none⟩, outer, some e, d, n + e.operations, lim⟩)
      (run ⟨⟨sum, product, signs, none⟩, outer, none, d, n, lim⟩ ts)
  | .signed, ts, e => ∀ sum product signs base more outer {d n lim},
      d ≤ lim.depth → n ≤ lim.operations →
      Settles lim (d + e.nesting) (n + e.operations + 1)
      (· = ⟨⟨sum, product, signs, none⟩, outer, some (.binary base .pow (e.withSigns more)),
        d - more.length, n + e.operations + 1, lim⟩)
      (run ⟨⟨sum, product, signs, some (base, more)⟩, outer, none, d, n, lim⟩ ts)
  | .primary, ts, e => ∀ g outer {d n lim}, d ≤ lim.depth → n ≤ lim.operations →
      ∃ x, Settles lim (d + e.nesting) (n + e.operations)
        (fun r => ∃ b, r = ⟨g, outer, b, d, n + e.operations, lim⟩) x ∧
      run ⟨g, outer, none, d, n, lim⟩ ts = x >>= (primary · e)

theorem reads_number {t : Token} {x : Float} (ht : t.kind = .number)
    (hx : literalValue? t.text = some x) : Reads .primary [t] (.number x) := by
  intro g outer d n lim hd hn
  refine ⟨.ok ⟨g, outer, none, d, n, lim⟩, ⟨hd, hn, none, rfl⟩, ?_⟩
  simp only [run_singleton, step, takeOperand, ht, hx]
  rfl

/-- A primary is a power when no power waits for it. -/
theorem reads_primary {ts : List Token} {e : Expr} (h : Reads .primary ts e) :
    Reads .power ts e := by
  intro sum product signs outer d n lim hd hn
  obtain ⟨x, hx, hrun⟩ := h ⟨sum, product, signs, none⟩ outer hd hn
  rw [hrun]
  refine hx.bind (Nat.le_refl _) (Nat.le_refl _) ?_
  rintro _ hd hn ⟨b, rfl⟩
  exact ⟨hd, hn, rfl⟩

/-- A primary is the exponent when a power waits for it. -/
theorem reads_exponent {ts : List Token} {e : Expr} (h : Reads .primary ts e) :
    Reads .signed ts e := by
  intro sum product signs base more outer d n lim hd hn
  obtain ⟨x, hx, hrun⟩ := h ⟨sum, product, signs, some (base, more)⟩ outer hd hn
  rw [hrun]
  refine hx.bind (Nat.le_refl _) (Nat.le_succ _) ?_
  rintro _ hd hn ⟨b, rfl⟩
  refine (settles_countOperation true hd).bind (Nat.le_refl _) (Nat.le_refl _) ?_
  rintro _ hd hn rfl
  exact ⟨hd, hn, rfl⟩

theorem step_sign {r : Reading} {t : Token} {s : Sign} (ho : r.operand = none)
    (ht : t.kind = .operator s.operator) : r.step t = (r.addSign s).descend := by
  unfold step takeOperand
  rw [ho]
  cases s <;> simp only [ht, Sign.operator]

theorem reads_exponentSign {t : Token} {ts : List Token} {s : Sign} {e : Expr}
    (ht : t.kind = .operator s.operator) (h : Reads .signed ts e) :
    Reads .signed (t :: ts) (.signed s e) := by
  intro sum product signs base more outer d n lim hd hn
  rw [run_cons, step_sign rfl ht]
  simp only [addSign, Expr.nesting, Expr.operations]
  refine (settles_descend hn).bind (by omega) (by omega) ?_
  rintro _ hdeep hn rfl
  refine (h sum product signs base (s :: more) outer hdeep hn).congr ?_ Iff.rfl ?_
  · omega
  · rintro _ rfl
    simp [Expr.withSigns]

theorem reads_pow {ts us : List Token} {t : Token} {a b : Expr} (ha : Reads .power ts a)
    (ht : t.kind = .operator .caret) (hb : Reads .signed us b) :
    Reads .power (ts ++ t :: us) (.binary a .pow b) := by
  intro sum product signs outer d n lim hd hn
  rw [run_append]
  simp only [Expr.nesting, Expr.operations]
  refine (ha sum product signs outer hd hn).bind (by omega) (by omega) ?_
  rintro _ hda hna rfl
  rw [run_cons, step_power ht rfl]
  refine (hb sum product signs a [] outer hd hna).congr (by omega) (by omega) ?_
  rintro _ rfl
  simp [Expr.withSigns, Nat.add_assoc]

theorem reads_power {ts : List Token} {e : Expr} (h : Reads .power ts e) :
    Reads .unary ts e := by
  intro sum product signs outer d n lim hd hn
  refine (h sum product signs outer hd hn).congr Iff.rfl Iff.rfl ?_
  rintro _ rfl
  exact ⟨e, [], rfl, rfl⟩

theorem reads_sign {t : Token} {ts : List Token} {s : Sign} {e : Expr}
    (ht : t.kind = .operator s.operator) (h : Reads .unary ts e) :
    Reads .unary (t :: ts) (.signed s e) := by
  intro sum product signs outer d n lim hd hn
  rw [run_cons, step_sign rfl ht]
  simp only [addSign, Expr.nesting, Expr.operations]
  refine (settles_descend hn).bind (by omega) (by omega) ?_
  rintro _ hdeep hn rfl
  refine (h sum product (s :: signs) outer hdeep hn).congr ?_ Iff.rfl ?_
  · omega
  · rintro _ ⟨b, more, rfl, rfl⟩
    refine ⟨b, more ++ [s], by rw [withSigns_append]; rfl, ?_⟩
    simp [Nat.add_assoc, Nat.add_comm 1]

theorem reads_unary {ts : List Token} {e : Expr} (h : Reads .unary ts e) :
    Reads .term ts e := by
  intro sum outer d n lim hd hn
  refine (h sum none [] outer hd hn).bind (Nat.le_refl _) (Nat.le_refl _) ?_
  rintro _ hd hn ⟨b, more, rfl, rfl⟩
  refine ⟨hd, hn, b, ?_⟩
  simp

theorem reads_product {ts us : List Token} {t : Token} {o : Operation} {a b : Expr}
    (ha : Reads .term ts a) (ht : t.kind = .operator o.operator) (ho : o.level = .term)
    (hb : Reads .unary us b) : Reads .term (ts ++ t :: us) (.binary a o b) := by
  intro sum outer d n lim hd hn
  have ha := ha sum outer hd hn
  simp only [run_append, run_cons, ← bind_assoc, Expr.nesting, Expr.operations]
  rw [bind_step_eq ha endTerm_due fun r e hr => step_product ht ho hr]
  rw [bind_assoc, bind_assoc]
  refine ha.bind (by omega) (by omega) ?_
  rintro _ hda hna ⟨_, rfl⟩
  refine (hb sum (some (a, o)) [] outer hd hna).bind (by omega) (by omega) ?_
  rintro _ hdb hnb ⟨c, more, rfl, rfl⟩
  simp only [endTerm, closeProduct, List.append_nil, Nat.add_sub_cancel]
  refine (settles_countOperation false hd).bind (by omega) (by omega) ?_
  rintro _ - hn rfl
  exact ⟨by omega, by omega, c, by simp only [Nat.add_assoc]⟩

theorem bind_endSum (x : Except Failure Reading) :
    x >>= endSum = (x >>= endTerm) >>= fun p => p.2.closeSum p.1 := by
  rw [bind_assoc]; rfl

theorem reads_term {ts : List Token} {e : Expr} (h : Reads .term ts e) :
    Reads .additive ts e := by
  intro outer d n lim hd hn
  rw [bind_endSum]
  refine (h none outer hd hn).bind (Nat.le_refl _) (Nat.le_refl _) ?_
  rintro _ hd hn ⟨b, rfl⟩
  exact ⟨hd, hn, b, rfl⟩

theorem reads_sum {ts us : List Token} {t : Token} {o : Operation} {a b : Expr}
    (ha : Reads .additive ts a) (ht : t.kind = .operator o.operator) (ho : o.level = .additive)
    (hb : Reads .term us b) : Reads .additive (ts ++ t :: us) (.binary a o b) := by
  intro outer d n lim hd hn
  have ha := ha outer hd hn
  simp only [run_append, run_cons, ← bind_assoc, Expr.nesting, Expr.operations]
  rw [bind_step_eq ha endSum_due fun r e hr => step_sum ht ho hr, bind_assoc, bind_assoc]
  refine ha.bind (by omega) (by omega) ?_
  rintro _ hda hna ⟨_, rfl⟩
  change Settles _ _ _ _ (run _ _ >>= endSum)
  rw [bind_endSum]
  refine (hb (some (a, o)) outer hd hna).bind (by omega) (by omega) ?_
  rintro _ hdb hnb ⟨c, rfl⟩
  simp only [closeSum]
  refine (settles_countOperation false hd).bind (by omega) (by omega) ?_
  rintro _ - hn rfl
  exact ⟨by omega, by omega, c, by simp only [Nat.add_assoc]⟩

theorem reads_paren {l r : Token} {ts : List Token} {e : Expr} (hl : l.kind = .operator .leftParen)
    (h : Reads .additive ts e) (hr : r.kind = .operator .rightParen) :
    Reads .primary (l :: (ts ++ [r])) (.paren e) := by
  intro g outer d n lim hd hn
  have hopen : step ⟨g, outer, none, d, n, lim⟩ l = descend ⟨{}, g :: outer, none, d, n, lim⟩ := by
    simp only [step, takeOperand, hl]
  have hdescend : Settles lim (d + 1) n (· = ⟨{}, g :: outer, none, d + 1, n, lim⟩)
      (descend ⟨{}, g :: outer, none, d, n, lim⟩) := settles_descend hn
  refine ⟨descend ⟨{}, g :: outer, none, d, n, lim⟩ >>= fun r => (r.run ts >>= endSum) >>= fun p =>
    .ok { p.2 with group := g, outer := outer, depth := p.2.depth - 1 }, ?_, ?_⟩
  · simp only [Expr.nesting, Expr.operations]
    refine hdescend.bind (by omega) (by omega) ?_
    rintro _ hd' - rfl
    refine (h (g :: outer) hd' hn).bind (by omega) (Nat.le_refl _) ?_
    rintro _ hd hn ⟨b, rfl⟩
    exact ⟨by omega, hn, some b, rfl⟩
  · rw [run_cons, hopen, bind_assoc]
    refine hdescend.bind_congr ?_
    rintro _ hd' rfl
    have h := h (g :: outer) hd' hn
    have hother : ∀ o : Operation, r.kind ≠ .operator o.operator := by
      intro o; rw [hr]; cases o <;> decide
    -- the closing parenthesis completes the inner sum before it is taken itself
    simp only [run_append, run_singleton]
    rw [bind_step_eq h endSum_due fun _ _ ho => step_other hother ho]
    refine (h.bind_congr ?_).trans (bind_assoc _ _ _).symm
    rintro _ - ⟨b, rfl⟩
    simp only [takeClosing, hr, if_true]
    rfl

/-- What the grammar derives, the reader takes. -/
theorem Derives.reads {l : Level} {ts : List Token} {e : Expr} (h : Derives l ts e) :
    Reads l ts e := by
  induction h with
  | term _ ih => exact reads_term ih
  | sum _ ht ho _ ih₁ ih₂ => exact reads_sum ih₁ ht ho ih₂
  | unary _ ih => exact reads_unary ih
  | product _ ht ho _ ih₁ ih₂ => exact reads_product ih₁ ht ho ih₂
  | power _ ih => exact reads_power ih
  | sign ht _ ih => exact reads_sign ht ih
  | primary _ ih => exact reads_primary ih
  | pow _ ht _ ih₁ ih₂ => exact reads_pow ih₁ ht ih₂
  | exponent _ ih => exact reads_exponent ih
  | exponentSign ht _ ih => exact reads_exponentSign ht ih
  | number ht hx => exact reads_number ht hx
  | paren hl _ hr ih => exact reads_paren hl ih hr

/-- A whole expression is read to its end, within the limits, and its tree is the answer. -/
theorem Derives.settles_finish {ts : List Token} {e : Expr} (h : Derives .additive ts e)
    (lim : Limits) : Settles lim e.nesting e.operations (·.1 = e)
      ((start 0 0 lim).run ts >>= finish) := by
  have h := h.reads [] (Nat.zero_le lim.depth) (Nat.zero_le lim.operations)
  have hfinish : finish = fun r => r.endSum >>= fun p =>
    match p.2.outer with
    | [] => .ok p
    | _ => .error (p.2.failAt .unexpectedEnd) := funext finish_eq
  rw [hfinish, ← bind_assoc]
  refine h.bind (by omega) (by omega) ?_
  rintro _ hd hn ⟨b, rfl⟩
  exact ⟨by omega, by omega, rfl⟩

/-- No tokens make two trees. -/
theorem Derives.unique {ts : List Token} {e e' : Expr} (h : Derives .additive ts e)
    (h' : Derives .additive ts e') : e = e' := by
  -- under limits that leave room for both trees the reader still has only one answer
  let lim : Limits := ⟨max e.nesting e'.nesting, max e.operations e'.operations⟩
  obtain ⟨p, hp, rfl⟩ :=
    (h.settles_finish lim).exists_ok (Nat.le_max_left ..) (Nat.le_max_left ..)
  obtain ⟨p', hp', rfl⟩ :=
    (h'.settles_finish lim).exists_ok (Nat.le_max_right ..) (Nat.le_max_right ..)
  rw [hp] at hp'
  cases hp'
  rfl

end FormulaField
