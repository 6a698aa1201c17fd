import FormulaField.Proofs.Acceptance

/-!
What a reading under way has read. Every part of a reading accounts for some of the tokens behind
it: a waiting left side for a whole chain and the operator after it, a run of signs for the signs,
an open parenthesis for everything up to it, the operand for a whole power. `Reading.Covers` puts
these together in the order of the text. It holds of the empty reading and every step keeps it, so
an answer is a derivation of all tokens read, and a reading that has not failed can still be
completed to a sentence.
-/

namespace FormulaField

open Reading

/-- The tokens of some signs. The signs are told from the innermost outwards. -/
inductive Signs : List Sign → List Token → Prop
  | nil : Signs [] []
  | cons {ss ts t s} : Signs ss ts → t.kind = .operator s.operator → Signs (s :: ss) (ts ++ [t])

/-- The tokens of a left side that may wait in a chain of this level. -/
inductive Left (l : Level) : Option (Expr × Operation) → List Token → Prop
  | nothing : Left l none []
  | waiting {ts t e o} : Derives l ts e → t.kind = .operator o.operator → o.level = l →
      Left l (some (e, o)) (ts ++ [t])

/-- The tokens of a base that may wait for its exponent. -/
inductive Base : Option (Expr × List Sign) → List Token → Prop
  | nothing : Base none []
  | waiting {ts t us e ss} : Derives .power ts e → t.kind = .operator .caret → Signs ss us →
      Base (some (e, ss)) (ts ++ t :: us)

/-- The tokens of all that waits inside one pair of parentheses. -/
def Pending.Covers (g : Pending) (ts : List Token) : Prop :=
  ∃ a b c d, ts = a ++ b ++ c ++ d ∧ Left .additive g.sum a ∧ Left .term g.product b ∧
    Signs g.signs c ∧ Base g.power d

/-- The tokens up to the innermost open parenthesis. -/
inductive Opened : List Pending → List Token → Prop
  | nil : Opened [] []
  | cons {g outer ts us t} : Opened outer ts → g.Covers us → t.kind = .operator .leftParen →
      Opened (g :: outer) (ts ++ us ++ [t])

/-- The tokens that have led to a reading. -/
def Reading.Covers (r : Reading) (ts : List Token) : Prop :=
  ∃ a b c, ts = a ++ b ++ c ∧ Opened r.outer a ∧ r.group.Covers b ∧
    match r.operand with
    | none => c = []
    | some e => r.group.power = none ∧ Derives .power c e

theorem Pending.covers_nil : Pending.Covers {} [] :=
  ⟨[], [], [], [], rfl, .nothing, .nothing, .nil, .nothing⟩

theorem covers_start (d n : Nat) (lim : Limits) : (start d n lim).Covers [] :=
  ⟨[], [], [], rfl, .nil, Pending.covers_nil, rfl⟩

/-! ### What the parts make of the tokens that follow -/

theorem Signs.derives_unary {ss : List Sign} {us : List Token} (h : Signs ss us) {ts : List Token}
    {e : Expr} (he : Derives .unary ts e) : Derives .unary (us ++ ts) (e.withSigns ss) := by
  induction h generalizing ts e with
  | nil => exact he
  | cons _ ht ih =>
    rw [List.append_assoc]
    exact ih (.sign ht he)

theorem Signs.derives_signed {ss : List Sign} {us : List Token} (h : Signs ss us)
    {ts : List Token} {e : Expr} (he : Derives .primary ts e) :
    Derives .signed (us ++ ts) (e.withSigns ss) := by
  replace he : Derives .signed ts e := .exponent he
  induction h generalizing ts e with
  | nil => exact he
  | cons _ ht ih =>
    rw [List.append_assoc]
    exact ih (.exponentSign ht he)

theorem Left.derives_term {p : Expr × Operation} {us ts : List Token} {e : Expr}
    (h : Left .term (some p) us) (he : Derives .unary ts e) :
    Derives .term (us ++ ts) (.binary p.1 p.2 e) := by
  cases h with
  | waiting ha ht ho =>
    rw [List.append_assoc]
    exact .product ha ht ho he

theorem Left.derives_additive {p : Expr × Operation} {us ts : List Token} {e : Expr}
    (h : Left .additive (some p) us) (he : Derives .term ts e) :
    Derives .additive (us ++ ts) (.binary p.1 p.2 e) := by
  cases h with
  | waiting ha ht ho =>
    rw [List.append_assoc]
    exact .sum ha ht ho he

theorem Base.derives_power {base : Expr} {ss : List Sign} {us ts : List Token} {e : Expr}
    (h : Base (some (base, ss)) us) (he : Derives .primary ts e) :
    Derives .power (us ++ ts) (.binary base .pow (e.withSigns ss)) := by
  cases h with
  | waiting ha ht hs =>
    rw [List.append_assoc]
    exact .pow ha ht (hs.derives_signed he)

/-! ### What is completed -/

theorem eq_of_bind_eq_ok {α β : Type} {x : Except Failure α} {f : α → Except Failure β} {b : β}
    (h : x >>= f = .ok b) : ∃ a, x = .ok a ∧ f a = .ok b := by
  cases x with
  | ok a => exact ⟨a, rfl, h⟩
  | error g => cases h

theorem eq_of_countOperation {r r' : Reading} {taken : Bool}
    (h : r.countOperation taken = .ok r') : r' = { r with operations := r.operations + 1 } := by
  unfold countOperation at h
  split at h
  · cases h; rfl
  · cases h

theorem eq_of_descend {r r' : Reading} (h : r.descend = .ok r') :
    r' = { r with depth := r.depth + 1 } := by
  simp only [descend] at h
  split at h
  · cases h; rfl
  · cases h

/-- A primary joins the base that waits for it, or else becomes the operand. -/
theorem covers_primary {r r' : Reading} {a b c : List Token} {e : Expr} (ha : Opened r.outer a)
    (hb : r.group.Covers b) (hc : Derives .primary c e) (h : r.primary e = .ok r') :
    r'.Covers (a ++ b ++ c) := by
  obtain ⟨⟨sum, product, signs, power⟩, outer, operand, d, n, lim⟩ := r
  cases power with
  | none =>
    cases h
    exact ⟨a, b, c, rfl, ha, hb, rfl, .primary hc⟩
  | some p =>
    obtain ⟨b₁, b₂, b₃, b₄, rfl, h₁, h₂, h₃, h₄⟩ := hb
    obtain ⟨r₁, hr₁, h⟩ := eq_of_bind_eq_ok h
    cases eq_of_countOperation hr₁
    cases h
    refine ⟨a, b₁ ++ b₂ ++ b₃, b₄ ++ c, by simp only [List.append_assoc], ha, ?_, rfl,
      h₄.derives_power hc⟩
    exact ⟨b₁, b₂, b₃, [], by rw [List.append_nil], h₁, h₂, h₃, .nothing⟩

/-- The parts of a reading with an operand: parentheses, left side, left factor, signs, power. -/
theorem Reading.Covers.parts {r : Reading} {ts : List Token} {e : Expr} (h : r.Covers ts)
    (he : r.operand = some e) : ∃ a b₁ b₂ b₃ c, ts = a ++ (b₁ ++ (b₂ ++ (b₃ ++ c))) ∧
      Opened r.outer a ∧ Left .additive r.group.sum b₁ ∧ Left .term r.group.product b₂ ∧
      Signs r.group.signs b₃ ∧ r.group.power = none ∧ Derives .power c e := by
  obtain ⟨a, b, c, rfl, ha, ⟨b₁, b₂, b₃, b₄, rfl, h₁, h₂, h₃, h₄⟩, hc⟩ := h
  rw [he] at hc
  obtain ⟨hp, hc⟩ := hc
  rw [hp] at h₄
  cases h₄
  refine ⟨a, b₁, b₂, b₃, c, ?_, ha, h₁, h₂, h₃, hp, hc⟩
  simp only [List.append_nil, List.append_assoc]

theorem covers_endTerm {r r' : Reading} {ts : List Token} {e : Expr} (h : r.Covers ts)
    (hend : r.endTerm = .ok (e, r')) : ∃ a b c, ts = a ++ (b ++ c) ∧ Opened r'.outer a ∧
      Left .additive r'.group.sum b ∧ Derives .term c e ∧ r'.group = ⟨r.group.sum, none, [], none⟩ := by
  unfold endTerm at hend
  split at hend
  · cases hend
  · next p ho =>
    obtain ⟨a, b₁, b₂, b₃, c, rfl, ha, h₁, h₂, h₃, hp, hc⟩ := h.parts ho
    obtain ⟨⟨sum, product, signs, power⟩, outer, operand, d, n, lim⟩ := r
    cases hp
    have hu := h₃.derives_unary (.power hc)
    cases product with
    | none =>
      cases h₂
      cases hend
      exact ⟨a, b₁, b₃ ++ c, rfl, ha, h₁, .unary hu, rfl⟩
    | some p =>
      obtain ⟨r₁, hr₁, hend⟩ := eq_of_bind_eq_ok hend
      cases eq_of_countOperation hr₁
      cases hend
      exact ⟨a, b₁, b₂ ++ (b₃ ++ c), rfl, ha, h₁, h₂.derives_term hu, rfl⟩

theorem covers_endSum {r r' : Reading} {ts : List Token} {e : Expr} (h : r.Covers ts)
    (hend : r.endSum = .ok (e, r')) : ∃ a c, ts = a ++ c ∧ Opened r'.outer a ∧
      Derives .additive c e ∧ r'.group = {} := by
  obtain ⟨⟨p, r₁⟩, hr₁, hend⟩ := eq_of_bind_eq_ok hend
  obtain ⟨a, b, c, rfl, ha, hb, hc, hg⟩ := covers_endTerm h hr₁
  obtain ⟨⟨sum, product, signs, power⟩, outer, operand, d, n, lim⟩ := r₁
  cases hg
  cases hsum : r.group.sum with
  | none =>
    simp only [closeSum, hsum] at hb hend
    cases hb
    cases hend
    exact ⟨a, c, rfl, ha, .term hc, rfl⟩
  | some p =>
    simp only [closeSum, hsum] at hb hend
    obtain ⟨r₁, hr₁, hend⟩ := eq_of_bind_eq_ok hend
    cases eq_of_countOperation hr₁
    cases hend
    exact ⟨a, b ++ c, rfl, ha, hb.derives_additive hc, rfl⟩

/-- An answer is a derivation of all tokens read. -/
theorem Reading.Covers.derives {r r' : Reading} {ts : List Token} {e : Expr} (h : r.Covers ts)
    (hfinish : r.finish = .ok (e, r')) : Derives .additive ts e := by
  rw [finish_eq] at hfinish
  obtain ⟨⟨p, r₁⟩, hr₁, hfinish⟩ := eq_of_bind_eq_ok hfinish
  obtain ⟨a, c, rfl, ha, hc, -⟩ := covers_endSum h hr₁
  obtain ⟨g, outer, operand, d, n, lim⟩ := r₁
  cases ha with
  | nil => cases hfinish; exact hc
  | cons => cases hfinish

/-! ### One step and a whole run -/

theorem covers_addSign {r : Reading} {ts : List Token} {t : Token} {s : Sign} (h : r.Covers ts)
    (ho : r.operand = none) (ht : t.kind = .operator s.operator) :
    (r.addSign s).Covers (ts ++ [t]) := by
  obtain ⟨⟨sum, product, signs, power⟩, outer, operand, d, n, lim⟩ := r
  cases ho
  obtain ⟨a, b, c, rfl, ha, ⟨b₁, b₂, b₃, b₄, rfl, h₁, h₂, h₃, h₄⟩, rfl⟩ := h
  cases h₄ with
  | nothing =>
    refine ⟨a, b₁ ++ b₂ ++ (b₃ ++ [t]), [], by simp only [List.append_assoc, List.append_nil], ha,
      ⟨b₁, b₂, b₃ ++ [t], [], by simp only [List.append_assoc, List.append_nil], h₁, h₂,
        .cons h₃ ht, .nothing⟩, rfl⟩
  | @waiting ts u us base ss hb hu hs =>
    refine ⟨a, b₁ ++ b₂ ++ b₃ ++ (ts ++ u :: (us ++ [t])), [], by simp, ha,
      ⟨b₁, b₂, b₃, ts ++ u :: (us ++ [t]), rfl, h₁, h₂, h₃, .waiting hb hu (.cons hs ht)⟩, rfl⟩

theorem covers_takeOperand {r r' : Reading} {ts : List Token} {t : Token} (h : r.Covers ts)
    (ho : r.operand = none) (hstep : r.takeOperand t = .ok r') : r'.Covers (ts ++ [t]) := by
  obtain ⟨g, outer, operand, d, n, lim⟩ := r
  cases ho
  have hparts := h
  obtain ⟨a, b, c, rfl, ha, hb, rfl⟩ := hparts
  rw [List.append_nil] at h ⊢
  unfold takeOperand at hstep
  split at hstep
  · next ht =>
    split at hstep
    · next x hx => exact covers_primary ha hb (.number ht hx) hstep
    · cases hstep
  · next ht =>
    cases eq_of_descend hstep
    exact ⟨a ++ b ++ [t], [], [], by simp, .cons ha hb ht, Pending.covers_nil, rfl⟩
  · next ht =>
    cases eq_of_descend hstep
    exact covers_addSign h rfl (s := .plus) ht
  · next ht =>
    cases eq_of_descend hstep
    exact covers_addSign h rfl (s := .minus) ht
  · cases hstep

theorem covers_takeClosing {r r' : Reading} {a c : List Token} {e : Expr} {t : Token}
    (ha : Opened r.outer a) (hc : Derives .additive c e) (h : r.takeClosing e t = .ok r') :
    r'.Covers (a ++ c ++ [t]) := by
  obtain ⟨g, outer, operand, d, n, lim⟩ := r
  cases ha with
  | nil => cases h
  | @cons g' outer a b l ha hb hl =>
    simp only [takeClosing] at h
    split at h
    · next hr =>
      have hcovers := covers_primary ha hb (.paren hl hc hr) h
      simpa using hcovers
    · cases h

/-- One token more is read, and it is accounted for. -/
theorem Reading.Covers.step {r r' : Reading} {ts : List Token} {t : Token} (h : r.Covers ts)
    (hstep : r.step t = .ok r') : r'.Covers (ts ++ [t]) := by
  cases hoperand : r.operand with
  | none =>
    simp only [Reading.step, hoperand] at hstep
    exact covers_takeOperand h hoperand hstep
  | some e =>
    by_cases hop : ∃ o : Operation, t.kind = .operator o.operator
    · obtain ⟨o, ho⟩ := hop
      -- what the operator completes moves into the link that it opens
      cases hlevel : o.level with
      | additive =>
        rw [step_sum ho hlevel hoperand] at hstep
        obtain ⟨⟨p, r₁⟩, hend, hstep⟩ := eq_of_bind_eq_ok hstep
        obtain ⟨a, c, rfl, ha, hc, hg⟩ := covers_endSum h hend
        cases hstep
        refine ⟨a, c ++ [t], [], by simp, ha, ⟨c ++ [t], [], [], [], by simp, ?_⟩, rfl⟩
        rw [hg]
        exact ⟨.waiting hc ho hlevel, .nothing, .nil, .nothing⟩
      | term =>
        rw [step_product ho hlevel hoperand] at hstep
        obtain ⟨⟨p, r₁⟩, hend, hstep⟩ := eq_of_bind_eq_ok hstep
        obtain ⟨a, b, c, rfl, ha, hb, hc, hg⟩ := covers_endTerm h hend
        cases hstep
        refine ⟨a, b ++ (c ++ [t]), [], by simp, ha, ⟨b, c ++ [t], [], [], by simp, hb, ?_⟩, rfl⟩
        rw [hg]
        exact ⟨.waiting hc ho hlevel, .nil, .nothing⟩
      | power =>
        cases o <;> cases hlevel
        rw [step_power ho hoperand] at hstep
        cases hstep
        obtain ⟨a, b₁, b₂, b₃, c, rfl, ha, h₁, h₂, h₃, -, hc⟩ := h.parts hoperand
        exact ⟨a, b₁ ++ b₂ ++ b₃ ++ (c ++ t :: []), [], by simp, ha,
          ⟨b₁, b₂, b₃, c ++ t :: [], rfl, h₁, h₂, h₃, .waiting hc ho .nil⟩, rfl⟩
      | unary | signed | primary => cases o <;> cases hlevel
    · rw [step_other (fun o ho => hop ⟨o, ho⟩) hoperand] at hstep
      obtain ⟨⟨p, r₁⟩, hend, hstep⟩ := eq_of_bind_eq_ok hstep
      obtain ⟨a, c, rfl, ha, hc, -⟩ := covers_endSum h hend
      exact covers_takeClosing ha hc hstep

theorem Reading.Covers.run {r r' : Reading} {ts us : List Token} (h : r.Covers ts)
    (hrun : r.run us = .ok r') : r'.Covers (ts ++ us) := by
  induction us generalizing r ts with
  | nil =>
    cases hrun
    rwa [List.append_nil]
  | cons t us ih =>
    rw [run_cons] at hrun
    obtain ⟨r₁, hstep, hrun⟩ := eq_of_bind_eq_ok hrun
    rw [List.append_cons]
    exact ih (h.step hstep) hrun

/-! ### A reading that has not failed can be completed -/

/-- Inside one pair of parentheses, a power completes all that waits before it. -/
theorem sentence_of_power {g : Pending} {a b c ts : List Token} {e : Expr}
    (ha : Left .additive g.sum a) (hb : Left .term g.product b) (hc : Signs g.signs c)
    (he : Derives .power ts e) : Sentence (a ++ (b ++ (c ++ ts))) := by
  obtain ⟨sum, product, signs, power⟩ := g
  have hunary := hc.derives_unary (.power he)
  have hterm : ∃ p, Derives .term (b ++ (c ++ ts)) p := by
    cases product with
    | none => cases hb; exact ⟨_, .unary hunary⟩
    | some q => exact ⟨_, hb.derives_term hunary⟩
  obtain ⟨p, hp⟩ := hterm
  cases sum with
  | none => cases ha; exact ⟨p, .term hp⟩
  | some q => exact ⟨_, ha.derives_additive hp⟩

theorem Pending.Covers.sentence {g : Pending} {us ts : List Token} {e : Expr} (h : g.Covers us)
    (he : Derives .primary ts e) : Sentence (us ++ ts) := by
  obtain ⟨a, b, c, d, rfl, ha, hb, hc, hd⟩ := h
  simp only [List.append_assoc]
  cases hpower : g.power with
  | none =>
    rw [hpower] at hd
    cases hd
    exact sentence_of_power ha hb hc (.primary he)
  | some q =>
    rw [hpower] at hd
    exact sentence_of_power ha hb hc (hd.derives_power he)

/-- Once the inside of the innermost parentheses is complete, closing them all makes a sentence. -/
theorem Opened.viable {outer : List Pending} {ts us : List Token} (h : Opened outer ts)
    (hus : Sentence us) : Viable (ts ++ us) := by
  induction h generalizing us with
  | nil => exact ⟨[], by simpa using hus⟩
  | @cons g outer a b l ha hb hl ih =>
    obtain ⟨e, he⟩ := hus
    let r : Token := ⟨.operator .rightParen, ⟨0, 0⟩, ")"⟩
    obtain ⟨more, hmore⟩ := ih (hb.sentence (.paren hl he (r := r) rfl))
    exact ⟨r :: more, by simpa using hmore⟩

/-- The numeral zero, which can stand wherever an operand is due. -/
def zeroToken : Token := ⟨.number, ⟨0, 0⟩, "0"⟩

theorem derives_zeroToken : ∃ x, Derives .primary [zeroToken] (.number x) := by
  have h : (literalValue? zeroToken.text).isSome := by decide
  obtain ⟨x, hx⟩ := Option.isSome_iff_exists.mp h
  exact ⟨x, .number rfl hx⟩

theorem Reading.Covers.viable {r : Reading} {ts : List Token} (h : r.Covers ts) : Viable ts := by
  cases ho : r.operand with
  | none =>
    obtain ⟨a, b, c, rfl, ha, hb, hc⟩ := h
    rw [ho] at hc
    subst hc
    -- the operand that is due can be a zero
    obtain ⟨x, hx⟩ := derives_zeroToken
    obtain ⟨more, hmore⟩ := ha.viable (hb.sentence hx)
    exact ⟨zeroToken :: more, by simpa using hmore⟩
  | some e =>
    obtain ⟨a, b₁, b₂, b₃, c, rfl, ha, h₁, h₂, h₃, -, hc⟩ := h.parts ho
    exact ha.viable (sentence_of_power h₁ h₂ h₃ hc)

end FormulaField
