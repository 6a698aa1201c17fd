import Mathlib.Data.List.Induction
import Mathlib.Logic.Function.Iterate
import FormulaField.Proofs.FieldRun
import FormulaField.Proofs.FloatDifference

/-!
Values for candidates that come without one. The editor takes them from its source in order, one for
each such candidate that is accepted and none at any other time. A list gives its elements and then the
last one for ever. A random value is the high half of a product, raised by one where a second draw makes
a carry; it stays below the bound even so, because a high half that is as large as can be leaves a low
half too small for a second draw.
-/

namespace FormulaField

/-! ### Random numbers -/

namespace Generator

variable {g : Generator} {range : Nat}

theorem next32_lt (g : Generator) : g.next32.1 < UInt32.size := by
  have hword : g.next.1.toNat < UInt32.size * UInt32.size := g.next.1.toNat_lt
  exact Nat.div_lt_of_lt_mul hword

/-- A carry into the high half of a product needs a low half that the greatest high half does not
leave. -/
theorem high_succ_lt {x range size : Nat} (hx : x < size) (hcarry : size - range < x * range % size) :
    x * range / size + 1 < range := by
  have hproduct : x * range + range ≤ size * range := by
    calc x * range + range = (x + 1) * range := (Nat.succ_mul x range).symm
      _ ≤ size * range := Nat.mul_le_mul_right range hx
  have hsplit := Nat.div_add_mod (x * range) size
  by_contra hhigh
  have hle : size * range ≤ size * (x * range / size + 1) :=
    Nat.mul_le_mul_left size (Nat.not_lt.mp hhigh)
  rw [Nat.mul_succ] at hle
  omega

/-- A random number is below its bound. -/
theorem below_lt (hrange : 0 < range) : (g.below range).1 < range := by
  have hx := next32_lt g
  rw [below]
  generalize g.next32 = drawn at hx
  obtain ⟨x, g'⟩ := drawn
  have hhigh : x * range / UInt32.size < range :=
    Nat.div_lt_of_lt_mul (Nat.mul_lt_mul_of_pos_right hx hrange)
  simp only
  split
  · next hcarry =>
    have hsucc := high_succ_lt hx hcarry
    split
    · exact hsucc
    · exact hhigh
  · exact hhigh

end Generator

/-! ### The values of a source -/

namespace Fallback

/-- The source after `count` values have been taken from it. -/
def after (source : Fallback) (count : Nat) : Fallback := (fun s : Fallback => s.next.2)^[count] source

/-- The value of a source that comes after `count` others. -/
def nth (source : Fallback) (count : Nat) : Float := (source.after count).next.1

theorem after_succ (source : Fallback) (count : Nat) :
    source.after (count + 1) = (source.after count).next.2 :=
  Function.iterate_succ_apply' _ _ _

theorem nth_succ (source : Fallback) (count : Nat) :
    source.nth (count + 1) = source.next.2.nth count := by
  rw [nth, after, Function.iterate_succ_apply]
  rfl

/-- The next values are the first ones, in order. -/
theorem nextValues_eq (source : Fallback) (count : Nat) :
    source.nextValues count = (List.range count).map source.nth := by
  induction count generalizing source with
  | zero => rfl
  | succ count ih =>
    have hshift : source.nth ∘ Nat.succ = source.next.2.nth := funext source.nth_succ
    rw [nextValues, ih, List.range_succ_eq_map, List.map_cons, List.map_map, hshift]
    rfl

/-- A source that a value leaves as it is gives this value for ever. -/
theorem nth_of_fixed {source : Fallback} (h : source.next.2 = source) (count : Nat) :
    source.nth count = source.next.1 := by
  rw [nth, after, Function.iterate_fixed h]

/-- A list gives its elements, and then the last one, or zero if there is none. -/
theorem nth_sequence (values : List Float) (count : Nat) : (sequence values).nth count =
    values[count]?.getD (values.getLastD (Float.ofBits 0)) := by
  induction values generalizing count with
  | nil => exact nth_of_fixed rfl count
  | cons x rest ih =>
    cases rest with
    | nil =>
      have hlast : [x][count]?.getD ([x].getLastD (Float.ofBits 0)) = x := by cases count <;> rfl
      rw [hlast]
      exact nth_of_fixed rfl count
    | cons y rest =>
      cases count with
      | zero => rfl
      | succ count =>
        rw [nth_succ, List.getElem?_cons_succ, List.getLastD_cons]
        exact ih count

theorem exists_after_random (g : Generator) (bound count : Nat) :
    ∃ g', (random g bound).after count = random g' bound := by
  induction count with
  | zero => exact ⟨g, rfl⟩
  | succ count ih =>
    obtain ⟨g', hg'⟩ := ih
    rw [after_succ, hg']
    exact ⟨_, rfl⟩

/-- Random values are whole numbers below the bound. -/
theorem exists_nth_ofSeed (seed : UInt64) (bound count : Nat) :
    ∃ n < max bound 1, (ofSeed seed bound).nth count = Float.ofNat n := by
  have hbound : 0 < max bound 1 := Nat.lt_of_lt_of_le Nat.one_pos (Nat.le_max_right _ _)
  obtain ⟨g, hg⟩ := exists_after_random (.ofSeed seed) (max bound 1) count
  refine ⟨(g.below (max bound 1)).1, Generator.below_lt hbound, ?_⟩
  change ((random (.ofSeed seed) (max bound 1)).after count).next.1 = _
  rw [hg]
  rfl

end Fallback

/-! ### Runs -/

/-- Tells whether an action accepts a candidate without a value. -/
def Action.lacksValue : Action → Bool
  | .call _ (.accept c) => c.value.isNone
  | .call _ _ | .store _ => false

namespace Editor

section
variable (e : Editor) (now : Float)

theorem fallback_commitNumber : e.commitNumber.state.fallback = e.fallback := by
  unfold commitNumber
  split <;> rfl

theorem fallback_deleteLast : e.deleteLast.state.fallback = e.fallback := by
  unfold deleteLast
  cases e.store.formula.last? with
  | none => rfl
  | some p => cases p <;> rfl

theorem fallback_key (k : Key) : (e.key k now).state.fallback = e.fallback := by
  cases k with
  | backspace =>
    rw [key, backspace]
    split
    · exact fallback_deleteLast e
    · rfl
  | enter =>
    rw [key, enter]
    split
    · rfl
    · split
      · exact fallback_commitNumber e
      · rfl
  | operator o =>
    rw [key, typeOperator]
    split
    · rfl
    · exact fallback_commitNumber e
  | other => rfl

theorem fallback_accept (c : Candidate) : (e.accept c now).state.fallback =
    if c.value.isNone then e.fallback.next.2 else e.fallback := by
  have hvalue : (e.accept c now).state.fallback = (e.valueOf c).2 := rfl
  rw [hvalue, valueOf]
  cases c.value <;> rfl

/-- Only the acceptance of a candidate without a value takes one from the source. -/
theorem fallback_act (action : Action) : (e.act action).state.fallback =
    if action.lacksValue then e.fallback.next.2 else e.fallback := by
  cases action with
  | store store => rfl
  | call now call =>
    cases call with
    | input text =>
      change (e.input text now).state.fallback = e.fallback
      unfold input
      split <;> rfl
    | setInput text =>
      change (e.setInput text now).state.fallback = e.fallback
      unfold setInput
      split <;> rfl
    | key k => exact fallback_key e now k
    | accept c => exact fallback_accept e now c
    | receive | chooseOption | removeTag | calculate | clear => rfl

/-- As many values are gone from the source as candidates without one were accepted. -/
theorem fallback_after (actions : List Action) :
    (e.after actions).fallback = e.fallback.after (actions.countP Action.lacksValue) := by
  induction actions using List.reverseRecOn with
  | nil => rfl
  | append_singleton actions action ih =>
    rw [after_concat, fallback_act, ih, List.countP_append, List.countP_singleton]
    split
    · rw [Fallback.after_succ]
    · rfl

end

/-- At any point of the use of an editor, an accepted candidate is added as a tag with its own value,
and the source is left alone; or, if it has none, with the value of the source whose number is that of
the candidates without a value that were accepted before. A list as the source gives its elements, and
then the last one for ever, or zeros if it has none; random values are whole numbers below the bound of
the settings, or zeros if that is zero. -/
theorem missing_values_from_source (config : Config) (source : Fallback) :
    (∀ (before : List Action) (now : Float) (c : Candidate),
      let e := (new config source).after before
      let r := e.accept c now
      let k := before.countP Action.lacksValue
      r.state.store.formula.pieces = e.store.formula.pieces ++ [.tag r.value] ∧
      e.fallback = source.after k ∧
      (∀ x, c.value = some x → r.value.value = x ∧ r.state.fallback = e.fallback) ∧
      (c.value = none → r.value.value = source.nth k ∧ r.state.fallback = source.after (k + 1))) ∧
    (∀ (values : List Float) (k : Nat), (Fallback.sequence values).nth k =
      if h : k < values.length then values[k] else values.getLastD (Float.ofBits 0)) ∧
    ∀ (seed : UInt64) (k : Nat), ∃ n < max config.fallbackMax.toNat 1,
      (Fallback.ofSeed seed config.fallbackMax.toNat).nth k = Float.ofNat n ∧
      rational ((Fallback.ofSeed seed config.fallbackMax.toNat).nth k) = n := by
  refine ⟨?_, ?_, ?_⟩
  · intro before now c e r k
    have hsource : e.fallback = source.after k := fallback_after _ before
    have hvalue : r.value.value = (e.valueOf c).1 := rfl
    have hstate : r.state.fallback = _ := fallback_accept e now c
    refine ⟨rfl, hsource, ?_, ?_⟩
    · intro x hx
      rw [hvalue, hstate, valueOf, hx]
      exact ⟨rfl, rfl⟩
    · intro hnone
      rw [hvalue, hstate, valueOf, hnone, Fallback.after_succ, Fallback.nth, ← hsource]
      exact ⟨rfl, rfl⟩
  · intro values k
    rw [Fallback.nth_sequence]
    split
    · next hk => rw [List.getElem?_eq_getElem hk, Option.getD_some]
    · next hk => rw [List.getElem?_eq_none (Nat.not_lt.mp hk), Option.getD_none]
  · intro seed k
    obtain ⟨n, hn, hnth⟩ := Fallback.exists_nth_ofSeed seed config.fallbackMax.toNat k
    have hword : config.fallbackMax.toNat < 2 ^ 32 := config.fallbackMax.toNat_lt
    have hsmall : n ≤ 2 ^ 53 := by omega
    rw [hnth]
    exact ⟨n, hn, rfl, rational_ofNat_of_le hsmall⟩

/-- The second candidate without a value gets the second value, although an infinite one with a value
was accepted and removed in between; the third gets the second value again. -/
theorem third_missing_value :
    let missing : Candidate := ⟨"r", "Rent", none⟩
    let present : Candidate := ⟨"s", "Sum", some infinity⟩
    let source : Fallback := .sequence [Float.ofBits 1, Float.ofBits 2]
    let before : List Action := [.call (Float.ofBits 0) (.accept missing),
      .call (Float.ofBits 0) (.accept present), .call (Float.ofBits 0) (.removeTag "s"),
      .call (Float.ofBits 0) (.accept missing)]
    let e := (new {} source).after before
    missing.value = none ∧ (e.accept missing (Float.ofBits 0)).value.value = Float.ofBits 2 ∧
    present.value = some infinity ∧ (e.accept present (Float.ofBits 0)).value.value = infinity ∧
    (e.accept present (Float.ofBits 0)).state.fallback = e.fallback := by
  intro missing present source before e
  obtain ⟨haccept, hsequence, -⟩ := missing_values_from_source {} source
  have hmissing := (haccept before (Float.ofBits 0) missing).2.2.2 rfl
  have hpresent := (haccept before (Float.ofBits 0) present).2.2.1 infinity rfl
  refine ⟨rfl, hmissing.1.trans ?_, rfl, hpresent⟩
  exact hsequence [Float.ofBits 1, Float.ofBits 2] 2

end Editor

end FormulaField
