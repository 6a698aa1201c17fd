import Mathlib.Data.List.Basic
import FormulaField.Proofs.NumberToken

/-!
Where the tokens of a text stand. They are pieces of the text, taken from the left, and what lies
between them is blank while nothing in them is; so the places of the tokens say of every byte of the
text whether it is blank. Behind the last token the scanner stands still, and gives the end mark as
often as it is asked.
-/

namespace FormulaField

open Text

/-! ### What is in a token -/

theorem not_isBlank_of_isWordChar {c : Char} (h : isWordChar c = true) : isBlank c = false := by
  rw [← Bool.not_eq_true]
  intro hblank
  rw [isWordChar_of_isBlank hblank] at h
  cases h

/-- There is no blank in the text. -/
def Solid (cs : List Char) : Prop := ∀ c ∈ cs, isBlank c = false

theorem solid_cons {c : Char} {cs : List Char} : Solid (c :: cs) ↔ isBlank c = false ∧ Solid cs :=
  List.forall_mem_cons

theorem Solid.append {u v : List Char} (hu : Solid u) (hv : Solid v) : Solid (u ++ v) := by
  intro c hc
  rcases List.mem_append.mp hc with hc | hc
  · exact hu c hc
  · exact hv c hc

theorem solid_takeWhile {p : Char → Bool} (hp : ∀ c, p c = true → isWordChar c = true)
    (cs : List Char) : Solid (cs.takeWhile p) := fun c hc =>
  not_isBlank_of_isWordChar (hp c (List.mem_takeWhile_imp hc))

theorem solid_takeSign (cs : List Char) : Solid (takeSign cs).1.toList := by
  unfold takeSign
  split <;> simp [Solid] <;> decide

theorem Exponent.solid_text {cs rest : List Char} {e : Exponent} (h : scan? cs = some (e, rest)) :
    Solid e.text := by
  cases cs with
  | nil => cases h
  | cons mark cs =>
    simp only [scan?] at h
    split at h
    · next hmark =>
      split at h
      · cases h
      · cases h
        have hblank : isBlank mark = false := by rcases hmark with rfl | rfl <;> decide
        exact solid_cons.mpr ⟨hblank,
          (solid_takeSign cs).append (solid_takeWhile (fun _ => isWordChar_of_isDigit) _)⟩
    · cases h

theorem Numeral.solid_fractionText (cs : List Char) :
    Solid (((scanFraction cs).1.map ('.' :: ·)).getD []) := by
  unfold scanFraction
  split
  · exact solid_cons.mpr ⟨by decide, solid_takeWhile (fun _ => isWordChar_of_isDigit) _⟩
  · simp [Solid]

theorem Numeral.solid_text (cs : List Char) : Solid (scan cs).1.text := by
  have hwhole : Solid (cs.takeWhile Char.isDigit) :=
    solid_takeWhile (fun _ => isWordChar_of_isDigit) cs
  have hfraction := solid_fractionText (cs.dropWhile Char.isDigit)
  cases h : Exponent.scan? (scanFraction (cs.dropWhile Char.isDigit)).2 with
  | some p =>
    rw [scan_of_some h]
    exact (hwhole.append hfraction).append (Exponent.solid_text h)
  | none =>
    rw [scan_of_none h]
    exact (hwhole.append hfraction).append (by simp [Solid])

theorem solid_take_numeralLength (cs : List Char) : Solid (cs.take (numeralLength cs)) := by
  rcases take_numeralLength cs with htake | ⟨mark, r, digits, -, hmark, -, htake⟩ <;> rw [htake]
  · exact Numeral.solid_text cs
  · rw [solid_cons, solid_cons]
    exact ⟨by decide, not_isBlank_of_isWordChar (isWordChar_of_ofMark? hmark),
      solid_takeWhile (fun _ => isWordChar_of_radixDigit) _⟩

/-- A token that begins with no blank has none. -/
theorem solid_lexeme {c : Char} (hc : isBlank c = false) (cs : List Char) :
    Solid (c :: cs.take (lexeme c cs).2) := by
  have hsingle : Solid (c :: cs.take 0) := solid_cons.mpr ⟨hc, by simp [Solid]⟩
  unfold lexeme
  split
  · exact hsingle
  · split
    · next hbegins =>
      rw [cons_take_numeralLength hbegins]
      exact solid_take_numeralLength (c :: cs)
    · split
      · simp only [take_takeWhile]
        exact solid_cons.mpr ⟨hc, solid_takeWhile (fun _ h => h) cs⟩
      · exact hsingle

/-! ### Lengths in bytes -/

theorem byteLength_append (u v : List Char) : byteLength (u ++ v) = byteLength u + byteLength v := by
  induction u with
  | nil => simp [byteLength]
  | cons c u ih =>
    simp only [byteLength, List.cons_append, List.foldr_cons] at ih ⊢
    rw [ih, Nat.add_assoc]

theorem byteLength_cons (c : Char) (cs : List Char) :
    byteLength (c :: cs) = c.utf8Size + byteLength cs := rfl

theorem utf8ByteSize_ofList (cs : List Char) : (String.ofList cs).utf8ByteSize = byteLength cs := by
  induction cs with
  | nil => rfl
  | cons c cs ih =>
    have hsplit : String.ofList (c :: cs) = String.singleton c ++ String.ofList cs := by
      rw [String.singleton_eq_ofList, ← String.ofList_append]
      rfl
    rw [hsplit, String.utf8ByteSize_append, String.utf8ByteSize_singleton, ih, byteLength_cons]

theorem byteLength_pos {cs : List Char} (h : cs ≠ []) : 0 < byteLength cs := by
  cases cs with
  | nil => exact absurd rfl h
  | cons c cs => exact Nat.lt_of_lt_of_le c.utf8Size_pos (Nat.le_add_right ..)

/-! ### Tokens that tile a text -/

/-- The end mark of a text of so many bytes. -/
def Token.finishAt (stop : Nat) : Token := ⟨.finish, ⟨stop, stop⟩, ""⟩

/-- The tokens are the pieces of the text that are left when its blanks are dropped, where the first
byte of the text has the number `start`. -/
inductive Tiles : Nat → List Char → List Token → Prop
  | nil {start} : Tiles start [] []
  | blank {start c cs ts} : isBlank c = true → Tiles (start + c.utf8Size) cs ts →
      Tiles start (c :: cs) ts
  | token {start kind piece cs ts} : kind ≠ .finish → piece ≠ [] → Solid piece →
      Tiles (start + byteLength piece) cs ts → Tiles start (piece ++ cs)
        (⟨kind, ⟨start, start + byteLength piece⟩, String.ofList piece⟩ :: ts)

namespace Scanner

theorem next_nil (o : Nat) : next ⟨[], o⟩ = (.finishAt o, ⟨[], o⟩) := rfl

theorem nextTokens_nil (count o : Nat) :
    nextTokens count ⟨[], o⟩ = List.replicate count (.finishAt o) := by
  induction count with
  | zero => rfl
  | succ count ih => rw [nextTokens, next_nil, ih, List.replicate_succ]

theorem nextTokens_blank {c : Char} (hc : isBlank c = true) (count : Nat) (cs : List Char)
    (o : Nat) : nextTokens count ⟨c :: cs, o⟩ = nextTokens count ⟨cs, o + c.utf8Size⟩ := by
  cases count with
  | zero => rfl
  | succ count => rw [nextTokens, nextTokens, next_blank hc]

/-- The tokens of a text tile it, and the end mark is behind it, however often it is asked for. -/
theorem exists_tiles : ∀ (n : Nat) (cs : List Char) (o : Nat), cs.length ≤ n →
    ∃ ts, Tiles o cs ts ∧ tokens ⟨cs, o⟩ = ts ++ [.finishAt (o + byteLength cs)] ∧
      ∀ count, nextTokens (ts.length + count) ⟨cs, o⟩ =
        ts ++ List.replicate count (.finishAt (o + byteLength cs))
  | _, [], o, _ =>
    ⟨[], .nil, tokens_nil o, fun count => by
      rw [List.length_nil, Nat.zero_add, nextTokens_nil]
      rfl⟩
  | n + 1, c :: cs, o, hn => by
    have hcs : cs.length ≤ n := Nat.le_of_succ_le_succ hn
    cases hc : isBlank c with
    | true =>
      obtain ⟨ts, htiles, htokens, hnext⟩ := exists_tiles n cs (o + c.utf8Size) hcs
      rw [Nat.add_assoc, ← byteLength_cons] at htokens hnext
      refine ⟨ts, .blank hc htiles, ?_, fun count => ?_⟩
      · rw [tokens_blank hc, htokens]
      · rw [nextTokens_blank hc, hnext]
    | false =>
      -- the token takes its characters off the front, and the rest is shorter
      have hsplit : c :: cs =
          (c :: cs.take (lexeme c cs).2) ++ cs.drop (lexeme c cs).2 := by simp
      obtain ⟨ts, htiles, htokens, hnext⟩ := exists_tiles n (cs.drop (lexeme c cs).2)
        (o + byteLength (c :: cs.take (lexeme c cs).2)) (by rw [List.length_drop]; omega)
      rw [Nat.add_assoc, ← byteLength_append, ← hsplit] at htokens hnext
      refine ⟨(next ⟨c :: cs, o⟩).1 :: ts, ?_, ?_, fun count => ?_⟩
      · have htile := Tiles.token (lexeme_ne_finish c cs) (List.cons_ne_nil _ _)
          (solid_lexeme hc cs) htiles
        rw [← hsplit] at htile
        rw [next_cons hc]
        exact htile
      · rw [tokens_cons hc, htokens, next_cons hc]
        rfl
      · rw [List.length_cons, Nat.succ_add, nextTokens, next_cons hc, hnext]
        rfl

end Scanner

/-! ### What the places tell -/

namespace Tiles

variable {start : Nat} {cs : List Char} {ts : List Token}

theorem kind_ne_finish (h : Tiles start cs ts) : ∀ t ∈ ts, t.kind ≠ .finish := by
  induction h with
  | nil => nofun
  | blank _ _ ih => exact ih
  | token hkind _ _ _ ih => exact List.forall_mem_cons.mpr ⟨hkind, ih⟩

theorem start_le (h : Tiles start cs ts) : ∀ t ∈ ts, start ≤ t.span.start := by
  induction h with
  | nil => nofun
  | blank _ _ ih => exact fun t ht => Nat.le_trans (Nat.le_add_right ..) (ih t ht)
  | token _ _ _ _ ih =>
    exact List.forall_mem_cons.mpr
      ⟨Nat.le_refl _, fun t ht => Nat.le_trans (Nat.le_add_right ..) (ih t ht)⟩

/-- One token ends before the next begins. -/
theorem ordered (h : Tiles start cs ts) :
    ts.Pairwise fun t u => t.span.stop ≤ u.span.start := by
  induction h with
  | nil => exact .nil
  | blank _ _ ih => exact ih
  | token _ _ _ hrest ih => exact .cons hrest.start_le ih

/-- Every token is a piece of the text, and stands where its place says. -/
theorem placed (h : Tiles start cs ts) : ∀ t ∈ ts, ∃ before piece after,
    cs = before ++ piece ++ after ∧ t.text = String.ofList piece ∧ piece ≠ [] ∧ Solid piece ∧
      t.span = ⟨start + byteLength before, start + byteLength before + byteLength piece⟩ := by
  induction h with
  | nil => nofun
  | @blank start c cs ts _ _ ih =>
    intro t ht
    obtain ⟨before, piece, after, rfl, htext, hne, hsolid, hspan⟩ := ih t ht
    refine ⟨c :: before, piece, after, rfl, htext, hne, hsolid, ?_⟩
    rw [hspan, byteLength_cons, Nat.add_assoc start]
  | @token start kind piece cs ts _ hne hsolid _ ih =>
    refine List.forall_mem_cons.mpr ⟨⟨[], piece, cs, rfl, rfl, hne, hsolid, rfl⟩, ?_⟩
    intro t ht
    obtain ⟨before, other, after, rfl, htext, hne, hsolid, hspan⟩ := ih t ht
    refine ⟨piece ++ before, other, after, by simp, htext, hne, hsolid, ?_⟩
    rw [hspan, byteLength_append, Nat.add_assoc start]

/-- A byte is inside a token exactly if its character is no blank. -/
theorem covered_iff (h : Tiles start cs ts) : ∀ {before after : List Char} {c : Char} {i : Nat},
    cs = before ++ c :: after → start + byteLength before ≤ i →
    i < start + byteLength before + c.utf8Size →
    ((∃ t ∈ ts, t.span.start ≤ i ∧ i < t.span.stop) ↔ isBlank c = false) := by
  induction h with
  | nil => intro before after c i hcs; simp at hcs
  | @blank start d cs ts hd hrest ih =>
    intro before after c i hcs hle hlt
    cases before with
    | nil =>
      obtain ⟨rfl, rfl⟩ := List.cons.inj hcs
      -- all tokens stand behind the blank
      refine iff_of_false ?_ (by simp [hd])
      rintro ⟨t, ht, hstart, -⟩
      have hbehind := hrest.start_le t ht
      simp only [byteLength, List.foldr_nil] at hlt
      omega
    | cons b before =>
      obtain ⟨rfl, rfl⟩ := List.cons.inj hcs
      rw [byteLength_cons, ← Nat.add_assoc] at hle hlt
      exact ih rfl hle hlt
  | @token start kind piece cs ts hkind hne hsolid hrest ih =>
    intro before after c i hcs hle hlt
    rw [List.exists_mem_cons_iff]
    rcases List.append_eq_append_iff.mp hcs with ⟨rest, rfl, hrest'⟩ | ⟨rest, rfl, hrest'⟩
    · -- the character stands behind the token
      rw [byteLength_append, ← Nat.add_assoc] at hle hlt
      have hnot : ¬(start ≤ i ∧ i < start + byteLength piece) := by omega
      rw [or_iff_right hnot]
      exact ih hrest' hle hlt
    · cases rest with
      | nil =>
        rw [List.append_nil] at hrest hne hsolid ih ⊢
        have hnot : ¬(start ≤ i ∧ i < start + byteLength before) := by omega
        rw [or_iff_right hnot]
        exact @ih [] after c i hrest'.symm hle hlt
      | cons d rest =>
        obtain ⟨rfl, -⟩ := List.cons.inj hrest'
        have hlength := byteLength_append before (c :: rest)
        rw [byteLength_cons] at hlength
        have hinside : start ≤ i ∧ i < start + byteLength (before ++ c :: rest) := by omega
        exact iff_of_true (Or.inl hinside) (hsolid c (by simp))

end Tiles

/-- The tokens of a text tile it. Behind them stands the one end mark, at the end of the text, and the
scanner gives it again for ever. Every other token is the text at its place, which lies between
characters and is not empty; the places do not overlap and come in order; and a byte of the text lies
outside all of them exactly if it belongs to a blank. -/
theorem tokenize_tiles (source : String) :
    tokenize source = properTokens source ++ [.finishAt source.utf8ByteSize] ∧
    (∀ t ∈ properTokens source, t.kind ≠ .finish) ∧
    (∀ t ∈ properTokens source,
      t.span.start < t.span.stop ∧ (∀ c ∈ t.text.toList, isBlank c = false) ∧
      ∃ before after, source = before ++ t.text ++ after ∧
        t.span.start = before.utf8ByteSize ∧ t.span.stop = (before ++ t.text).utf8ByteSize) ∧
    (properTokens source).Pairwise (fun t u => t.span.stop ≤ u.span.start) ∧
    (∀ before c after i, source = before ++ String.singleton c ++ after →
      before.utf8ByteSize ≤ i → i < before.utf8ByteSize + c.utf8Size →
      ((∃ t ∈ properTokens source, t.span.start ≤ i ∧ i < t.span.stop) ↔ isBlank c = false)) ∧
    ∀ count, (Scanner.ofText source).nextTokens ((properTokens source).length + 1 + count) =
      tokenize source ++ List.replicate count (.finishAt source.utf8ByteSize) := by
  obtain ⟨body, htiles, htokens, hnext⟩ :=
    Scanner.exists_tiles _ source.toList 0 (Nat.le_refl _)
  have hsize : 0 + byteLength source.toList = source.utf8ByteSize := by
    rw [Nat.zero_add, ← utf8ByteSize_ofList, String.ofList_toList]
  rw [hsize] at htokens hnext
  have htokenize : tokenize source = body ++ [.finishAt source.utf8ByteSize] := htokens
  have hbody : properTokens source = body := by
    rw [properTokens, htokenize, List.dropLast_concat]
  rw [htokenize, hbody]
  refine ⟨rfl, htiles.kind_ne_finish, ?_, htiles.ordered, ?_, fun count => ?_⟩
  · intro t ht
    obtain ⟨before, piece, after, hcs, htext, hne, hsolid, hspan⟩ := htiles.placed t ht
    have hsource : source = String.ofList before ++ t.text ++ String.ofList after := by
      rw [← String.ofList_toList (s := source), hcs, htext, String.ofList_append,
        String.ofList_append]
    have hpos := byteLength_pos hne
    rw [hspan]
    refine ⟨by simp only; omega, ?_, String.ofList before, String.ofList after, hsource, ?_, ?_⟩
    · rw [htext, String.toList_ofList]
      exact hsolid
    · rw [utf8ByteSize_ofList, Nat.zero_add]
    · rw [htext, ← String.ofList_append, utf8ByteSize_ofList, byteLength_append, Nat.zero_add]
  · intro before c after i hsource hle hlt
    have hcs : source.toList = before.toList ++ c :: after.toList := by
      rw [hsource, String.toList_append, String.toList_append, String.toList_singleton,
        List.append_assoc]
      rfl
    have hbefore : before.utf8ByteSize = 0 + byteLength before.toList := by
      rw [← utf8ByteSize_ofList, String.ofList_toList, Nat.zero_add]
    rw [hbefore] at hle hlt
    exact htiles.covered_iff hcs hle hlt
  · rw [Nat.add_assoc]
    refine (hnext (1 + count)).trans ?_
    rw [Nat.add_comm 1, List.replicate_succ, List.append_assoc]
    rfl

/-- Both bytes of a no-break space lie outside the tokens, and both bytes of an accented letter lie
inside one. -/
theorem tokenize_accented_letter :
    let source := "é\u00a0+ 1e"
    (¬∃ t ∈ properTokens source, t.span.start ≤ 3 ∧ 3 < t.span.stop) ∧
    (∃ t ∈ properTokens source, t.span.start ≤ 1 ∧ 1 < t.span.stop) ∧
    tokenize source = properTokens source ++ [⟨.finish, ⟨8, 8⟩, ""⟩] := by
  intro source
  obtain ⟨htokens, -, -, -, hcovered, -⟩ := tokenize_tiles source
  refine ⟨fun h => ?_, ?_, htokens⟩
  · exact absurd ((hcovered "é" '\u00a0' "+ 1e" 3 rfl (by decide) (by decide)).mp h) (by decide)
  · exact (hcovered "" 'é' "\u00a0+ 1e" 1 rfl (by decide) (by decide)).mpr (by decide)

end FormulaField
