import FormulaField.Proofs.Coverage

/-!
The counters of the reader, for any tokens at all: end marks may stand anywhere or nowhere, and a
number token may carry any text. Whatever a call fails by, it leaves the depth and the operations as
they were at the failure, and the next call goes on with them. So nothing is said of where the counters
begin: at every token the depth is what it was at the start of the call and one more for every sign and
parenthesis that is open, the operations are what they were and one more for every operation that has
been built, and no tree takes more of either than the limits leave. `Accounted` says this of a reading,
every token keeps it, and the calls follow one another.
-/

namespace FormulaField

open Reading

/-! ### The size of a tree -/

namespace Expr

/-- The number of nodes on the longest path from the root to a leaf. -/
def height : Expr → Nat
  | number _ => 1
  | signed _ e => e.height + 1
  | binary a _ b => max a.height b.height + 1
  | paren e => e.height + 1

/-- Every node of a path is a leaf, a sign or parenthesis, or an operation. -/
theorem height_le (e : Expr) : e.height ≤ e.nesting + e.operations + 1 := by
  induction e with
  | number x => simp [height]
  | signed s e ih | paren e ih => simp only [height, nesting, operations]; omega
  | binary a o b iha ihb => simp only [height, nesting, operations]; omega

theorem nesting_withSigns (e : Expr) (ss : List Sign) :
    (e.withSigns ss).nesting = e.nesting + ss.length := by
  induction ss generalizing e with
  | nil => rfl
  | cons s ss ih =>
    change ((Expr.signed s e).withSigns ss).nesting = _
    rw [ih, nesting, List.length_cons]
    omega

theorem operations_withSigns (e : Expr) (ss : List Sign) :
    (e.withSigns ss).operations = e.operations := by
  induction ss generalizing e with
  | nil => rfl
  | cons s ss ih => exact ih (.signed s e)

end Expr

/-! ### What is open and what is built -/

namespace Pending

/-- The signs that wait for their operand, those of an exponent among them. -/
def levels (g : Pending) : Nat := g.signs.length + g.power.elim 0 (·.2.length)

/-- The operations in the trees that wait. -/
def operations (g : Pending) : Nat :=
  g.sum.elim 0 (·.1.operations) + g.product.elim 0 (·.1.operations) +
    g.power.elim 0 (·.1.operations)

/-- The trees that wait in a group that stands at the depth `floor` reach no deeper than `top`. -/
structure Below (top floor : Nat) (g : Pending) : Prop where
  sum : ∀ p, g.sum = some p → floor + p.1.nesting ≤ top
  product : ∀ p, g.product = some p → floor + p.1.nesting ≤ top
  power : ∀ p, g.power = some p → floor + g.signs.length + p.1.nesting ≤ top

theorem below_nil (top floor : Nat) : Below top floor {} where
  sum _ h := nomatch h
  product _ h := nomatch h
  power _ h := nomatch h

end Pending

/-- The levels that enclosing groups hold open: their signs, and the parenthesis inside each. -/
def enclosingLevels : List Pending → Nat
  | [] => 0
  | g :: outer => enclosingLevels outer + g.levels + 1

/-- The operations in the trees that wait in enclosing groups. -/
def enclosingOperations : List Pending → Nat
  | [] => 0
  | g :: outer => enclosingOperations outer + g.operations

/-- The trees that wait in enclosing groups, the outermost at the depth `d`, reach no deeper than
`top`. -/
def EnclosingBelow (top d : Nat) : List Pending → Prop
  | [] => True
  | g :: outer => EnclosingBelow top d outer ∧ g.Below top (d + enclosingLevels outer)

/-- The levels that a reading holds open. -/
def Reading.openLevels (r : Reading) : Nat := enclosingLevels r.outer + r.group.levels

/-- The books of a reading that began at the depth `d` with `n` operations, where `held` operations
are in a tree that waits nowhere yet. Neither counter has passed its limit, unless it began there. -/
structure Reading.Accounted (lim : Limits) (d n held : Nat) (r : Reading) : Prop where
  limits : r.limits = lim
  depth : r.depth = d + r.openLevels
  operations : r.operations = n + enclosingOperations r.outer + r.group.operations + held
  shallow : r.depth ≤ max d lim.depth
  short : r.operations ≤ max n lim.operations
  group : r.group.Below (max d lim.depth) (d + enclosingLevels r.outer)
  outer : EnclosingBelow (max d lim.depth) d r.outer

/-- The books of a reading that has the tree `e` in hand, with no power open around it. -/
structure Reading.Holds (lim : Limits) (d n : Nat) (e : Expr) (r : Reading) : Prop extends
    Accounted lim d n e.operations r where
  power : r.group.power = none
  nesting : r.depth + e.nesting ≤ max d lim.depth

/-- The books of a reading between two tokens. -/
def Reading.Sound (lim : Limits) (d n : Nat) (r : Reading) : Prop :=
  match r.operand with
  | none => r.Accounted lim d n 0
  | some e => r.Holds lim d n e

/-- The depth is that of the start and one more for every level that is open. -/
theorem Reading.Sound.depth_eq {lim : Limits} {d n : Nat} {r : Reading} (h : r.Sound lim d n) :
    r.depth = d + r.openLevels := by
  unfold Sound at h
  split at h
  · exact h.depth
  · exact h.depth

theorem sound_start (lim : Limits) (d n : Nat) : (start d n lim).Sound lim d n where
  limits := rfl
  depth := rfl
  operations := rfl
  shallow := Nat.le_max_left ..
  short := Nat.le_max_left ..
  group := Pending.below_nil ..
  outer := trivial

/-- The outcome of something that begins at the depth `d` with `n` operations: a result with `Q`, or a
failure with neither counter set back. -/
def Leaves {α : Type} (d n : Nat) (Q : α → Prop) : Except Failure α → Prop
  | .ok a => Q a
  | .error f => d ≤ f.depth ∧ n ≤ f.operations

theorem Leaves.bind {α β : Type} {d n : Nat} {Q : α → Prop} {S : β → Prop} {x : Except Failure α}
    {f : α → Except Failure β} (h : Leaves d n Q x) (k : ∀ a, Q a → Leaves d n S (f a)) :
    Leaves d n S (x >>= f) := by
  cases x with
  | ok a => exact k a h
  | error g => exact h

theorem Leaves.mono {α : Type} {d n : Nat} {Q R : α → Prop} {x : Except Failure α}
    (h : Leaves d n Q x) (hQ : ∀ a, Q a → R a) : Leaves d n R x := by
  cases x with
  | ok a => exact hQ a h
  | error g => exact h

section
variable {lim : Limits} {d n held : Nat} {r : Reading}

theorem Reading.Accounted.le_depth (h : r.Accounted lim d n held) : d ≤ r.depth := by
  rw [h.depth]
  exact Nat.le_add_right ..

theorem Reading.Accounted.le_operations (h : r.Accounted lim d n held) : n ≤ r.operations := by
  rw [h.operations]
  omega

end

/-! ### Completing what waits -/

section
variable {lim : Limits} {d n : Nat} {r : Reading} {e : Expr}

theorem leaves_countOperation (hd : d ≤ r.depth) (hn : n ≤ r.operations) (taken : Bool) :
    Leaves d n (fun r' => r' = { r with operations := r.operations + 1 } ∧
      r.operations < r.limits.operations) (r.countOperation taken) := by
  unfold countOperation
  split
  · next h => exact ⟨rfl, h⟩
  · exact ⟨hd, Nat.le_succ_of_le hn⟩

/-- A primary becomes the tree in hand, with the power that waits for it. -/
theorem leaves_primary (h : r.Accounted lim d n e.operations)
    (hnesting : r.depth + e.nesting ≤ max d lim.depth) :
    Leaves d n (Sound lim d n) (r.primary e) := by
  obtain ⟨⟨sum, product, signs, power⟩, outer, operand, depth, operations, limits⟩ := r
  obtain ⟨hlimits, hdepth, hoperations, hshallow, hshort, hgroup, houter⟩ := h
  cases power with
  | none => exact ⟨⟨hlimits, hdepth, hoperations, hshallow, hshort, hgroup, houter⟩, rfl, hnesting⟩
  | some p =>
    obtain ⟨base, ss⟩ := p
    have hbase := hgroup.power _ rfl
    simp only [openLevels, Pending.levels, Pending.operations, Option.elim] at *
    refine (leaves_countOperation ?_ ?_ true).bind ?_
    · change d ≤ depth - ss.length
      omega
    · change n ≤ operations
      omega
    rintro _ ⟨rfl, hlt⟩
    refine ⟨⟨hlimits, ?_, ?_, ?_, ?_, ⟨hgroup.sum, hgroup.product, nofun⟩, houter⟩, rfl, ?_⟩
    all_goals
      simp only [openLevels, Pending.levels, Pending.operations, Option.elim, Expr.operations,
        Expr.nesting, Expr.operations_withSigns, Expr.nesting_withSigns] at *
      subst hlimits
      omega

/-- The signs and the product that wait become part of the tree in hand. -/
theorem leaves_closeProduct (h : r.Holds lim d n e) :
    Leaves d n (fun p => p.2.Holds lim d n p.1 ∧ p.2.group = ⟨r.group.sum, none, [], none⟩)
      (r.closeProduct e) := by
  obtain ⟨⟨sum, product, signs, power⟩, outer, operand, depth, operations, limits⟩ := r
  obtain ⟨⟨hlimits, hdepth, hoperations, hshallow, hshort, hgroup, houter⟩, hpower, hnesting⟩ := h
  cases hpower
  cases product with
  | none =>
    refine ⟨⟨⟨hlimits, ?_, ?_, ?_, hshort, ⟨hgroup.sum, nofun, nofun⟩, houter⟩, rfl, ?_⟩, rfl⟩
    all_goals
      simp only [openLevels, Pending.levels, Pending.operations, Option.elim, List.length_nil,
        Expr.operations_withSigns, Expr.nesting_withSigns] at *
      omega
  | some p =>
    obtain ⟨left, o⟩ := p
    have hleft := hgroup.product _ rfl
    simp only [openLevels, Pending.levels, Pending.operations, Option.elim] at *
    refine (leaves_countOperation ?_ ?_ false).bind ?_
    · change d ≤ depth - signs.length
      omega
    · change n ≤ operations
      omega
    rintro _ ⟨rfl, hlt⟩
    refine ⟨⟨⟨hlimits, ?_, ?_, ?_, ?_, ⟨hgroup.sum, nofun, nofun⟩, houter⟩, rfl, ?_⟩, rfl⟩
    all_goals
      simp only [openLevels, Pending.levels, Pending.operations, Option.elim, List.length_nil,
        Expr.operations, Expr.nesting, Expr.operations_withSigns, Expr.nesting_withSigns] at *
      subst hlimits
      omega

/-- So does the sum that waits, and then nothing waits in the group. -/
theorem leaves_closeSum (h : r.Holds lim d n e) (hgroup : r.group = ⟨r.group.sum, none, [], none⟩) :
    Leaves d n (fun p => p.2.Holds lim d n p.1 ∧ p.2.group = {}) (r.closeSum e) := by
  obtain ⟨⟨sum, product, signs, power⟩, outer, operand, depth, operations, limits⟩ := r
  cases hgroup
  cases sum with
  | none => exact ⟨h, rfl⟩
  | some p =>
    obtain ⟨⟨hlimits, hdepth, hoperations, hshallow, hshort, hgroup, houter⟩, -, hnesting⟩ := h
    obtain ⟨left, o⟩ := p
    have hleft := hgroup.sum _ rfl
    simp only [openLevels, Pending.levels, Pending.operations, Option.elim] at *
    refine (leaves_countOperation ?_ ?_ false).bind ?_
    · change d ≤ depth
      omega
    · change n ≤ operations
      omega
    rintro _ ⟨rfl, hlt⟩
    refine ⟨⟨⟨hlimits, ?_, ?_, hshallow, ?_, Pending.below_nil .., houter⟩, rfl, ?_⟩, rfl⟩
    all_goals
      simp only [openLevels, Pending.levels, Pending.operations, Option.elim, List.length_nil,
        Expr.operations, Expr.nesting] at *
      subst hlimits
      omega

/-- The whole of a group, once its last power is in hand. -/
theorem leaves_endTerm (h : r.Holds lim d n e) (he : r.operand = some e) :
    Leaves d n (fun p => p.2.Holds lim d n p.1 ∧ p.2.group = ⟨r.group.sum, none, [], none⟩)
      r.endTerm := by
  rw [endTerm, he]
  exact leaves_closeProduct h

theorem leaves_endSum (h : r.Holds lim d n e) (he : r.operand = some e) :
    Leaves d n (fun p => p.2.Holds lim d n p.1 ∧ p.2.group = {}) r.endSum := by
  refine (leaves_endTerm h he).bind ?_
  rintro ⟨e', r'⟩ ⟨h', hgroup⟩
  refine leaves_closeSum h' ?_
  rw [hgroup]

/-! ### One token -/

theorem leaves_descend (r : Reading) (hd : d ≤ r.depth) (hn : n ≤ r.operations) :
    Leaves d n (fun r' => r' = { r with depth := r.depth + 1 } ∧ r.depth < r.limits.depth)
      r.descend := by
  simp only [descend]
  split
  · next h => exact ⟨rfl, h⟩
  · exact ⟨Nat.le_succ_of_le hd, hn⟩

/-- A sign opens one level, before an operand or in an exponent. -/
theorem leaves_sign (h : r.Accounted lim d n 0) (ho : r.operand = none) (s : Sign) :
    Leaves d n (Sound lim d n) (r.addSign s).descend := by
  obtain ⟨⟨sum, product, signs, power⟩, outer, operand, depth, operations, limits⟩ := r
  cases ho
  have hd := h.le_depth
  have hn := h.le_operations
  obtain ⟨hlimits, hdepth, hoperations, hshallow, hshort, hgroup, houter⟩ := h
  cases power with
  | none =>
    refine Leaves.mono (leaves_descend _ hd hn) ?_
    rintro _ ⟨rfl, hlt⟩
    refine ⟨hlimits, ?_, hoperations, ?_, hshort, ⟨hgroup.sum, hgroup.product, nofun⟩, houter⟩
    all_goals
      simp only [openLevels, addSign, Pending.levels, Option.elim, List.length_cons] at *
      subst hlimits
      omega
  | some p =>
    obtain ⟨base, ss⟩ := p
    refine Leaves.mono (leaves_descend _ hd hn) ?_
    rintro _ ⟨rfl, hlt⟩
    have hbase : ∀ p, some (base, s :: ss) = some p →
        d + enclosingLevels outer + signs.length + p.1.nesting ≤ max d lim.depth := by
      rintro _ ⟨⟩
      exact hgroup.power (base, ss) rfl
    refine ⟨hlimits, ?_, hoperations, ?_, hshort, ⟨hgroup.sum, hgroup.product, hbase⟩, houter⟩
    all_goals
      simp only [openLevels, addSign, Pending.levels, Option.elim, List.length_cons] at *
      subst hlimits
      omega

/-- A parenthesis opens one level, and inside it nothing waits yet. -/
theorem leaves_leftParen (h : r.Accounted lim d n 0) (ho : r.operand = none) :
    Leaves d n (Sound lim d n) ({ r with group := {}, outer := r.group :: r.outer }).descend := by
  obtain ⟨group, outer, operand, depth, operations, limits⟩ := r
  cases ho
  have hd := h.le_depth
  have hn := h.le_operations
  obtain ⟨hlimits, hdepth, hoperations, hshallow, hshort, hgroup, houter⟩ := h
  refine Leaves.mono (leaves_descend _ hd hn) ?_
  rintro _ ⟨rfl, hlt⟩
  refine ⟨hlimits, ?_, ?_, ?_, hshort, Pending.below_nil .., ⟨houter, hgroup⟩⟩
  all_goals
    simp only [openLevels, enclosingLevels, enclosingOperations, Pending.levels,
      Pending.operations, Option.elim, List.length_nil] at *
    subst hlimits
    omega

theorem leaves_takeOperand (h : r.Accounted lim d n 0) (ho : r.operand = none) (t : Token) :
    Leaves d n (Sound lim d n) (r.takeOperand t) := by
  unfold takeOperand
  split
  · split
    · next x _ => exact leaves_primary h h.shallow
    · exact ⟨h.le_depth, h.le_operations⟩
  · exact leaves_leftParen h ho
  · exact leaves_sign h ho .plus
  · exact leaves_sign h ho .minus
  · exact ⟨h.le_depth, h.le_operations⟩

/-- A closing parenthesis gives back the level that its partner opened. -/
theorem leaves_takeClosing (h : r.Holds lim d n e) (hgroup : r.group = {}) (t : Token) :
    Leaves d n (Sound lim d n) (r.takeClosing e t) := by
  obtain ⟨group, outer, operand, depth, operations, limits⟩ := r
  cases hgroup
  cases outer with
  | nil => exact ⟨h.le_depth, h.le_operations⟩
  | cons g outer =>
    simp only [takeClosing]
    split
    · obtain ⟨⟨hlimits, hdepth, hoperations, hshallow, hshort, -, houter⟩, -, hnesting⟩ := h
      refine leaves_primary ⟨hlimits, ?_, ?_, ?_, hshort, houter.2, houter.1⟩ ?_
      all_goals
        simp only [openLevels, enclosingLevels, enclosingOperations, Pending.levels,
          Pending.operations, Option.elim, List.length_nil, Expr.operations, Expr.nesting] at *
        omega
    · exact ⟨h.le_depth, h.le_operations⟩

/-- The tree in hand may wait in its group for what stands on its right. -/
theorem Reading.Holds.wait {g : Pending} (h : r.Holds lim d n e) (hlevels : g.levels = r.group.levels)
    (hoperations : g.operations = r.group.operations + e.operations)
    (hbelow : g.Below (max d lim.depth) (d + enclosingLevels r.outer)) :
    Sound lim d n { r with operand := none, group := g } := by
  refine ⟨h.limits, ?_, ?_, h.shallow, h.short, hbelow, h.outer⟩
  · change r.depth = d + (enclosingLevels r.outer + g.levels)
    rw [hlevels]
    exact h.depth
  · change r.operations = n + enclosingOperations r.outer + g.operations + 0
    rw [hoperations, h.operations]
    omega

/-- Every token keeps the books, whatever it is and whatever its text. -/
theorem leaves_step (h : r.Sound lim d n) (t : Token) : Leaves d n (Sound lim d n) (r.step t) := by
  cases ho : r.operand with
  | none =>
    simp only [Sound, ho] at h
    rw [step, ho]
    exact leaves_takeOperand h ho t
  | some e =>
    simp only [Sound, ho] at h
    by_cases hop : ∃ o : Operation, t.kind = .operator o.operator
    · obtain ⟨o, ht⟩ := hop
      cases hlevel : o.level with
      | additive =>
        rw [step_sum ht hlevel ho]
        refine (leaves_endSum h ho).bind ?_
        rintro ⟨left, ⟨group, outer, operand, depth, operations, limits⟩⟩ ⟨h', rfl⟩
        refine h'.wait rfl ?_ ⟨?_, ?_, ?_⟩
        · simp [Pending.operations]
        · rintro _ ⟨⟩
          have hnesting := h'.nesting
          rw [h'.depth] at hnesting
          exact hnesting
        · rintro _ ⟨⟩
        · rintro _ ⟨⟩
      | term =>
        rw [step_product ht hlevel ho]
        refine (leaves_endTerm h ho).bind ?_
        rintro ⟨left, ⟨group, outer, operand, depth, operations, limits⟩⟩ ⟨h', rfl⟩
        refine h'.wait rfl ?_ ⟨h'.group.sum, ?_, ?_⟩
        · simp [Pending.operations]
        · rintro _ ⟨⟩
          have hnesting := h'.nesting
          rw [h'.depth] at hnesting
          exact hnesting
        · rintro _ ⟨⟩
      | power =>
        cases o <;> cases hlevel
        rw [step_power ht ho]
        refine h.wait ?_ ?_ ⟨h.group.sum, h.group.product, ?_⟩
        · simp [Pending.levels, h.power]
        · simp [Pending.operations, h.power]
        · rintro _ ⟨⟩
          have hnesting := h.nesting
          rw [h.depth, openLevels, Pending.levels, h.power] at hnesting
          simpa [Nat.add_assoc] using hnesting
      | unary | signed | primary => cases o <;> cases hlevel
    · rw [step_other (fun o ho => hop ⟨o, ho⟩) ho]
      refine (leaves_endSum h ho).bind ?_
      rintro ⟨e', r'⟩ ⟨h', hgroup⟩
      exact leaves_takeClosing h' hgroup t

/-- So do all tokens of a call. -/
theorem leaves_run (h : r.Sound lim d n) (ts : List Token) :
    Leaves d n (Sound lim d n) (r.run ts) := by
  induction ts generalizing r with
  | nil => exact h
  | cons t ts ih =>
    rw [run_cons]
    exact (leaves_step h t).bind fun _ h' => ih h'

/-- The end of a call. A tree is all that was built, and nothing is left open around it. -/
theorem leaves_finish (h : r.Sound lim d n) :
    Leaves d n (fun p => p.2.depth = d ∧ p.2.operations = n + p.1.operations ∧
      d + p.1.nesting ≤ max d lim.depth ∧ n + p.1.operations ≤ max n lim.operations) r.finish := by
  rw [finish_eq]
  cases ho : r.operand with
  | none =>
    simp only [Sound, ho] at h
    rw [endSum_due r ho]
    exact ⟨h.le_depth, h.le_operations⟩
  | some e =>
    simp only [Sound, ho] at h
    refine (leaves_endSum h ho).bind ?_
    rintro ⟨e', ⟨group, outer, operand, depth, operations, limits⟩⟩ ⟨h', rfl⟩
    cases outer with
    | nil =>
      have hdepth : depth = d := h'.depth
      have hoperations : operations = n + e'.operations := by
        have hoperations := h'.operations
        simpa [enclosingOperations, Pending.operations] using hoperations
      subst hdepth hoperations
      exact ⟨rfl, rfl, h'.nesting, h'.short⟩
    | cons g outer => exact ⟨h'.le_depth, h'.le_operations⟩

end

/-! ### Calls one after another -/

namespace Cursor

/-- The cursor after some calls. -/
def after (c : Cursor) : Nat → Cursor
  | 0 => c
  | calls + 1 => c.next.2.after calls

/-- What a call leaves behind that goes on with some tokens, after a start at the depth `d` with `n`
operations. It has taken tokens from the front, none of them an end mark, and set no counter back. A
tree has left the depth as it was, it is within the limits, and it has come to an end of the tokens. -/
structure Advance (lim : Limits) (d n : Nat) (ts : List Token) (answer : Except ParseError Expr)
    (c : Cursor) : Prop where
  taken : ∃ read, ts = read ++ c.rest ∧ ∀ t ∈ read, t.kind ≠ .finish
  depth : d ≤ c.depth
  operations : n ≤ c.operations
  ok : ∀ e, answer = .ok e → c.depth = d ∧ c.operations = n + e.operations ∧
    e.nesting ≤ lim.depth ∧ e.operations ≤ lim.operations ∧ atEnd c.rest = true

section
variable {lim : Limits} {d n : Nat} {r : Reading} {ts : List Token}

theorem advance_stop (h : r.Sound lim d n) (hend : atEnd ts = true) :
    Advance lim d n ts (resume.stop r ts).1 (resume.stop r ts).2 := by
  have hfinish := leaves_finish h
  unfold resume.stop
  cases hr : r.finish with
  | ok p =>
    rw [hr] at hfinish
    obtain ⟨hdepth, hoperations, hnesting, hcount⟩ := hfinish
    have hkept : n ≤ p.2.operations := by omega
    refine ⟨⟨[], rfl, nofun⟩, Nat.le_of_eq hdepth.symm, hkept, ?_⟩
    rintro e ⟨⟩
    exact ⟨hdepth, hoperations, by omega, by omega, hend⟩
  | error f =>
    rw [hr] at hfinish
    exact ⟨⟨[], rfl, nofun⟩, hfinish.1, hfinish.2, nofun⟩

theorem advance_resume (h : r.Sound lim d n) (ts : List Token) :
    Advance lim d n ts (resume r ts).1 (resume r ts).2 := by
  induction ts generalizing r with
  | nil => exact advance_stop h rfl
  | cons t ts ih =>
    rw [resume]
    split
    · next ht => exact advance_stop h (by simp [atEnd, ht])
    · next ht =>
      have hstep := leaves_step h t
      cases hr : r.step t with
      | ok r' =>
        rw [hr] at hstep
        obtain ⟨⟨read, hread, hkind⟩, hdepth, hoperations, hok⟩ := ih hstep
        refine ⟨⟨t :: read, congrArg (t :: ·) hread, ?_⟩, hdepth, hoperations, hok⟩
        intro u hu
        rcases List.mem_cons.mp hu with rfl | hu
        · exact ht
        · exact hkind u hu
      | error f =>
        rw [hr] at hstep
        refine ⟨?_, hstep.1, hstep.2, nofun⟩
        by_cases hconsumed : f.consumed = true
        · refine ⟨[t], by simp [hconsumed], ?_⟩
          intro u hu
          rw [List.mem_singleton.mp hu]
          exact ht
        · exact ⟨[], by simp [hconsumed], nofun⟩

end

section
variable {c : Cursor}

theorem advance_next (c : Cursor) : Advance {} c.depth c.operations c.rest c.next.1 c.next.2 := by
  unfold next
  split
  · exact ⟨⟨[], rfl, nofun⟩, Nat.le_refl _, Nat.le_refl _, nofun⟩
  · exact advance_resume (sound_start {} c.depth c.operations) c.rest

theorem next_of_atEnd (h : atEnd c.rest = true) : c.next = (.error .empty, c) := if_pos h

theorem after_of_atEnd (h : atEnd c.rest = true) (calls : Nat) : c.after calls = c := by
  induction calls with
  | zero => rfl
  | succ calls ih => rw [after, next_of_atEnd h, ih]

theorem after_add (c : Cursor) (k calls : Nat) : c.after (k + calls) = (c.after k).after calls := by
  induction k generalizing c with
  | zero => rw [Nat.zero_add, after]
  | succ k ih => rw [Nat.succ_add, after, after, ih]

theorem after_succ (c : Cursor) (k : Nat) : c.after (k + 1) = (c.after k).next.2 := after_add c k 1

/-- The answers of the calls, each from where the one before has left off. -/
theorem nextExprs_eq_map (calls : Nat) (c : Cursor) :
    nextExprs calls c = (List.range calls).map fun k => (c.after k).next.1 := by
  induction calls generalizing c with
  | zero => rfl
  | succ calls ih =>
    rw [nextExprs, ih, List.range_succ_eq_map, List.map_cons, List.map_map]
    rfl

theorem rest_after_suffix (c : Cursor) (k : Nat) : (c.after k).rest <:+ c.rest := by
  induction k with
  | zero => exact List.suffix_refl _
  | succ k ih =>
    obtain ⟨read, hread, -⟩ := (advance_next (c.after k)).taken
    rw [after_succ]
    exact List.IsSuffix.trans ⟨read, hread.symm⟩ ih

end

/-- However often a reader is called on whatever tokens, every call answers. It starts where the one
before has stopped, and moves on over tokens that are no end marks. At every token that it takes, the
depth is that of its start and one more for every sign and parenthesis that is still open, so what is
completed takes nothing off that is not there; and neither counter is ever set back. A tree leaves the
depth as it was, keeps to both limits and so to a height, and no call after it reads anything. -/
theorem calls_keep_bounds (tokens : List Token) (calls : Nat) :
    (nextExprs calls (ofTokens tokens)).length = calls ∧
    ∀ k, let c := (ofTokens tokens).after k
      (k < calls → (nextExprs calls (ofTokens tokens))[k]? = some c.next.1) ∧
      c.rest <:+ tokens ∧
      (∃ read, c.rest = read ++ c.next.2.rest ∧ ∀ t ∈ read, t.kind ≠ .finish) ∧
      (∀ ts r, (start c.depth c.operations).run ts = .ok r → r.depth = c.depth + r.openLevels) ∧
      c.depth ≤ c.next.2.depth ∧ c.operations ≤ c.next.2.operations ∧
      (∀ e, c.next.1 = .ok e →
        c.next.2.depth = c.depth ∧ c.next.2.operations = c.operations + e.operations ∧
        e.operations ≤ 4096 ∧ e.nesting ≤ 256 ∧ e.height ≤ 4353 ∧
        ∀ j, k < j → ((ofTokens tokens).after j).next = (.error .empty, c.next.2)) := by
  refine ⟨by simp [nextExprs_eq_map], fun k => ?_⟩
  intro c
  obtain ⟨htaken, hdepth, hoperations, hok⟩ := advance_next c
  refine ⟨?_, rest_after_suffix _ k, htaken, ?_, hdepth, hoperations, ?_⟩
  · intro hk
    rw [nextExprs_eq_map, List.getElem?_map, List.getElem?_range hk]
    rfl
  · intro ts r hrun
    have hsound := leaves_run (sound_start {} c.depth c.operations) ts
    rw [hrun] at hsound
    exact hsound.depth_eq
  · intro e he
    obtain ⟨hsame, hbuilt, hnesting, hcount, hend⟩ := hok e he
    have hheight := e.height_le
    have hdeep : e.nesting ≤ 256 := hnesting
    have hlong : e.operations ≤ 4096 := hcount
    refine ⟨hsame, hbuilt, hlong, hdeep, by omega, ?_⟩
    intro j hj
    obtain ⟨more, rfl⟩ := Nat.exists_eq_add_of_le hj
    rw [after_add, after_succ, after_of_atEnd hend, next_of_atEnd hend]

/-- A parenthesis is left open by a call that fails at a number. The next call reads a number within
it, the end mark ends that call, and what stands behind the mark is never read. -/
theorem number_after_failure :
    let tokens : List Token :=
      [⟨.operator .leftParen, ⟨0, 1⟩, "("⟩, ⟨.number, ⟨1, 2⟩, "x"⟩, ⟨.number, ⟨2, 3⟩, "1"⟩,
        ⟨.finish, ⟨3, 3⟩, ""⟩, ⟨.number, ⟨3, 4⟩, "2"⟩]
    let c := (ofTokens tokens).after 1
    c.depth = 1 ∧ c.next.2.depth = 1 ∧ (∃ e, c.next.1 = .ok e ∧ e.height ≤ 4353) ∧
      ((ofTokens tokens).after 5).next.1 = .error .empty := by
  intro tokens c
  have hok : c.next.1.isOk = true := by decide +kernel
  have hdepth : c.depth = 1 := by decide +kernel
  cases he : c.next.1 with
  | error error =>
    rw [he] at hok
    cases hok
  | ok e =>
    obtain ⟨hsame, -, -, -, hheight, hlater⟩ := ((calls_keep_bounds tokens 6).2 1).2.2.2.2.2.2 e he
    exact ⟨hdepth, hsame.trans hdepth, ⟨e, rfl, hheight⟩, by rw [hlater 5 (by decide)]⟩

end Cursor

end FormulaField
