import FormulaField.Proofs.Coverage
import FormulaField.Proofs.Scan

/-!
Reading a text as an expression. The reader works on the tokens before the end mark, and it answers
with a tree exactly if they derive it and it keeps to the two limits; the tree uses every token once
and in order, and it is the only one. A text that derives a tree beyond a limit is told so.
-/

namespace FormulaField

open Reading

/-- What the end of a reading says about the text. -/
def answer : Except Failure (Expr × Reading) → Except ParseError Expr
  | .ok p => .ok p.1
  | .error f => .error f.error

theorem resume_fst {r : Reading} {ts : List Token} {e : Token} (hts : ∀ t ∈ ts, t.kind ≠ .finish)
    (he : e.kind = .finish) : (Cursor.resume r (ts ++ [e])).1 = answer (r.run ts >>= finish) := by
  induction ts generalizing r with
  | nil =>
    change (Cursor.resume r [e]).1 = answer r.finish
    rw [Cursor.resume, if_pos he, Cursor.resume.stop]
    cases r.finish <;> rfl
  | cons t ts ih =>
    rw [List.cons_append, Cursor.resume, if_neg (hts t List.mem_cons_self), run_cons, bind_assoc]
    cases r.step t with
    | ok r₁ => exact ih fun u hu => hts u (List.mem_cons_of_mem t hu)
    | error f => rfl

theorem parse_eq (source : String) : parse source =
    if properTokens source = [] then .error .empty
    else answer ((start 0 0).run (properTokens source) >>= finish) := by
  obtain ⟨e, htokens, he, hkind⟩ := exists_tokenize_eq source
  have he : e.kind = .finish := congrArg Prod.fst he
  rw [parse, htokens, Cursor.ofTokens, Cursor.next, ← resume_fst hkind he]
  cases hts : properTokens source with
  | nil => simp [Cursor.atEnd, he]
  | cons t ts =>
    have ht : t.kind ≠ .finish := hkind t (by rw [hts]; exact List.mem_cons_self)
    simp [Cursor.atEnd, ht]

theorem derives_of_parse_eq_ok {source : String} {e : Expr} (h : parse source = .ok e) :
    Derives .additive (properTokens source) e := by
  rw [parse_eq] at h
  split at h
  · cases h
  · cases hrun : (start 0 0).run (properTokens source) >>= finish with
    | error f => rw [hrun] at h; cases h
    | ok p =>
      rw [hrun] at h
      cases h
      obtain ⟨r, hr, hfinish⟩ := eq_of_bind_eq_ok hrun
      exact ((covers_start 0 0 {}).run hr).derives hfinish

/-- A text that derives a tree is read as that tree, or breaks a limit and is told which. -/
theorem parse_of_derives {source : String} {e : Expr}
    (h : Derives .additive (properTokens source) e) :
    (parse source = .ok e ∧ e.nesting ≤ maxDepth ∧ e.operations ≤ maxOperations) ∨
    (parse source = .error .tooDeep ∧ maxDepth < e.nesting) ∨
    (parse source = .error .tooLong ∧ maxOperations < e.operations) := by
  have hsettles := h.settles_finish {}
  rw [parse_eq, if_neg h.ne_nil]
  cases hrun : (start 0 0).run (properTokens source) >>= finish with
  | ok p =>
    rw [hrun] at hsettles
    obtain ⟨hdepth, hoperations, rfl⟩ := hsettles
    exact Or.inl ⟨rfl, hdepth, hoperations⟩
  | error f =>
    rw [hrun] at hsettles
    rcases hsettles with ⟨hf, h⟩ | ⟨hf, h⟩
    · exact Or.inr (Or.inl ⟨congrArg Except.error hf, h⟩)
    · exact Or.inr (Or.inr ⟨congrArg Except.error hf, h⟩)

/-- The reader accepts exactly the grammar within the two limits and builds its derivation tree,
which uses every token once and in order and is the only one; a tree beyond a limit is refused by
the error of that limit. -/
theorem parse_eq_ok_iff_derives (source : String) :
    (∀ e, parse source = .ok e ↔
      Derives .additive (properTokens source) e ∧ e.nesting ≤ 256 ∧ e.operations ≤ 4096) ∧
    (∀ e, Derives .additive (properTokens source) e →
      (properTokens source).map Token.symbol = e.symbols) ∧
    (∀ e e', Derives .additive (properTokens source) e →
      Derives .additive (properTokens source) e' → e = e') ∧
    (∀ e, Derives .additive (properTokens source) e → ¬(e.nesting ≤ 256 ∧ e.operations ≤ 4096) →
      (parse source = .error .tooDeep ∧ 256 < e.nesting) ∨
      (parse source = .error .tooLong ∧ 4096 < e.operations)) := by
  refine ⟨fun e => ⟨fun h => ?_, ?_⟩, fun e h => h.map_symbol, fun e e' => Derives.unique, ?_⟩
  · have hderives := derives_of_parse_eq_ok h
    rcases parse_of_derives hderives with ⟨-, hlimits⟩ | ⟨hdeep, -⟩ | ⟨hlong, -⟩
    · exact ⟨hderives, hlimits⟩
    · rw [h] at hdeep; cases hdeep
    · rw [h] at hlong; cases hlong
  · rintro ⟨hderives, hdepth, hoperations⟩
    rcases parse_of_derives hderives with ⟨h, -⟩ | ⟨-, hdeep⟩ | ⟨-, hlong⟩
    · exact h
    · exact absurd hdepth (Nat.not_le_of_lt hdeep)
    · exact absurd hoperations (Nat.not_le_of_lt hlong)
  · intro e hderives hbeyond
    rcases parse_of_derives hderives with ⟨-, hlimits⟩ | h
    · exact absurd hlimits hbeyond
    · exact h

end FormulaField
