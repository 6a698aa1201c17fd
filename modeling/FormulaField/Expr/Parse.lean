import FormulaField.Expr.Basic
import FormulaField.Expr.Error
import FormulaField.Token.Scan

/-!
Reading an expression from tokens, one token at a time. Powers bind tighter than products, products
tighter than sums, and all of them group from the left. A sign before an operand covers the whole
chain of powers that follows, so `-2^2` is `-(2^2)`; a sign in an exponent covers its operand alone,
so `2^-1^2` is `(2^-1)^2`.

For every open parenthesis the reader keeps a `Pending`: at most one sum, one product, one run of
signs and one power that still wait for what stands on their right. A token either completes some of
these, or it adds to them, or it is refused. Two counters are held to the limits of the reading:
`depth` grows with every open sign and parenthesis and shrinks as they are completed, and
`operations` only grows. Both outlive a failed reading, as does the place among the tokens.
-/

namespace FormulaField

/-- What waits for its right side inside one pair of parentheses. Signs are listed from the innermost
outwards. -/
structure Pending where
  sum : Option (Expr × Operation) := none
  product : Option (Expr × Operation) := none
  signs : List Sign := []
  power : Option (Expr × List Sign) := none

/-- A reading under way. `operand` is the chain of powers just completed; it is `none` while an
operand is due. -/
structure Reading where
  group : Pending
  outer : List Pending
  operand : Option Expr
  depth : Nat
  operations : Nat
  limits : Limits := {}

/-- The end of a reading that failed, with the counters as it leaves them. `consumed` tells whether
the token at hand has been taken. -/
structure Failure where
  error : ParseError
  consumed : Bool
  depth : Nat
  operations : Nat

/-- Sets signs before an operand, the innermost first. -/
def Expr.withSigns (e : Expr) (signs : List Sign) : Expr :=
  signs.foldl (fun inner sign => .signed sign inner) e

/-- The operation of an operator on the level of sums. -/
def Operator.additive? : Operator → Option Operation
  | .plus => some .add
  | .minus => some .sub
  | _ => none

/-- The operation of an operator on the level of products. -/
def Operator.multiplicative? : Operator → Option Operation
  | .star => some .mul
  | .slash => some .div
  | _ => none

namespace Reading

/-- A reading that begins, with the counters as they stand. -/
def start (depth operations : Nat) (limits : Limits := {}) : Reading :=
  ⟨{}, [], none, depth, operations, limits⟩

/-- A failure at the token at hand, which stays where it is. -/
def failAt (r : Reading) (error : ParseError) : Failure := ⟨error, false, r.depth, r.operations⟩

/-- A failure that takes the token at hand with it. -/
def failPast (r : Reading) (error : ParseError) : Failure := ⟨error, true, r.depth, r.operations⟩

/-! ### Completing what waits -/

/-- Counts one more operation. -/
def countOperation (r : Reading) (consumed : Bool) : Except Failure Reading :=
  if r.operations < r.limits.operations then .ok { r with operations := r.operations + 1 }
  else .error ⟨.tooLong, consumed, r.depth, r.operations + 1⟩

/-- Takes in a number or a closed parenthesis: it completes the power that waits for an exponent,
if there is one. -/
def primary (r : Reading) (e : Expr) : Except Failure Reading :=
  match r.group.power with
  | none => .ok { r with operand := some e }
  | some (base, signs) => do
    let r ← countOperation { r with depth := r.depth - signs.length } true
    return { r with
      group := { r.group with power := none }
      operand := some (.binary base .pow (e.withSigns signs)) }

/-- Completes the signs and the product that wait for the chain of powers `e`. -/
def closeProduct (r : Reading) (e : Expr) : Except Failure (Expr × Reading) :=
  let signed := e.withSigns r.group.signs
  let r := { r with
    group := { r.group with signs := [] }
    depth := r.depth - r.group.signs.length }
  match r.group.product with
  | none => .ok (signed, r)
  | some (left, operation) => do
    let r ← r.countOperation false
    return (.binary left operation signed, { r with group := { r.group with product := none } })

/-- Completes the sum that waits for the product `e`. -/
def closeSum (r : Reading) (e : Expr) : Except Failure (Expr × Reading) :=
  match r.group.sum with
  | none => .ok (e, r)
  | some (left, operation) => do
    let r ← r.countOperation false
    return (.binary left operation e, { r with group := { r.group with sum := none } })

/-! ### One token -/

/-- Opens a sign or a parenthesis: `r` is the reading with it, one level deeper. -/
def descend (r : Reading) : Except Failure Reading :=
  let r := { r with depth := r.depth + 1 }
  if r.depth ≤ r.limits.depth then .ok r else .error (r.failPast .tooDeep)

/-- Adds a sign, to the exponent that is due or to the chain of powers that is due. -/
def addSign (r : Reading) (sign : Sign) : Reading :=
  match r.group.power with
  | some (base, signs) => { r with group := { r.group with power := some (base, sign :: signs) } }
  | none => { r with group := { r.group with signs := sign :: r.group.signs } }

/-- Takes a token while an operand is due. -/
def takeOperand (r : Reading) (t : Token) : Except Failure Reading :=
  match t.kind with
  | .number =>
    match literalValue? t.text with
    | some x => r.primary (.number x)
    | none => .error (r.failPast (.invalidNumber t.text))
  | .operator .leftParen => { r with group := {}, outer := r.group :: r.outer }.descend
  | .operator .plus => (r.addSign .plus).descend
  | .operator .minus => (r.addSign .minus).descend
  | _ => .error (r.failAt (.unexpected .operand t.text t.span))

/-- Takes a token that ends the sum `e`. -/
def takeClosing (r : Reading) (e : Expr) (t : Token) : Except Failure Reading :=
  match r.outer with
  | [] => .error (r.failAt (.trailing t.text t.span))
  | group :: outer =>
    if t.kind = .operator .rightParen then
      { r with group := group, outer := outer, depth := r.depth - 1 }.primary (.paren e)
    else .error (r.failAt (.unexpected .closing t.text t.span))

/-- Takes a token after the chain of powers `e`. -/
def takeOperator (r : Reading) (e : Expr) (t : Token) : Except Failure Reading :=
  if t.kind = .operator .caret then
    .ok { r with operand := none, group := { r.group with power := some (e, []) } }
  else do
    let (product, r) ← r.closeProduct e
    match t.kind with
    | .operator o =>
      match o.multiplicative? with
      | some operation =>
        return { r with operand := none, group := { r.group with product := some (product, operation) } }
      | none =>
        let (sum, r) ← r.closeSum product
        match o.additive? with
        | some operation =>
          return { r with operand := none, group := { r.group with sum := some (sum, operation) } }
        | none => r.takeClosing sum t
    | _ =>
      let (sum, r) ← r.closeSum product
      r.takeClosing sum t

/-- Takes one token. -/
def step (r : Reading) (t : Token) : Except Failure Reading :=
  match r.operand with
  | none => r.takeOperand t
  | some e => r.takeOperator e t

/-- Ends the reading where no token is left. -/
def finish (r : Reading) : Except Failure (Expr × Reading) :=
  match r.operand with
  | none => .error (r.failAt .unexpectedEnd)
  | some e => do
    let (product, r) ← r.closeProduct e
    let (sum, r) ← r.closeSum product
    match r.outer with
    | [] => return (sum, r)
    | _ => .error (r.failAt .unexpectedEnd)

end Reading

/-! ### Whole expressions -/

/-- A place among tokens, with the counters of the readings so far. -/
structure Cursor where
  rest : List Token
  depth : Nat
  operations : Nat

namespace Cursor

/-- The beginning of some tokens. -/
def ofTokens (tokens : List Token) : Cursor := ⟨tokens, 0, 0⟩

/-- Tells whether no token is left before the end or the next end mark. -/
def atEnd : List Token → Bool
  | [] => true
  | t :: _ => t.kind == .finish

/-- Continues a reading with the tokens that follow. -/
def resume (r : Reading) : List Token → Except ParseError Expr × Cursor
  | [] => stop r []
  | t :: rest =>
    if t.kind = .finish then stop r (t :: rest)
    else
      match r.step t with
      | .ok r => resume r rest
      | .error f =>
        (.error f.error, ⟨if f.consumed then rest else t :: rest, f.depth, f.operations⟩)
where
  /-- Ends a reading before `rest`. -/
  stop (r : Reading) (rest : List Token) : Except ParseError Expr × Cursor :=
    match r.finish with
    | .ok (e, r) => (.ok e, ⟨rest, r.depth, r.operations⟩)
    | .error f => (.error f.error, ⟨rest, f.depth, f.operations⟩)

/-- Reads one expression, which has to reach up to the end. -/
def next (c : Cursor) : Except ParseError Expr × Cursor :=
  if atEnd c.rest then (.error .empty, c)
  else resume (.start c.depth c.operations) c.rest

/-- The answers of `count` readings in a row. -/
def nextExprs : Nat → Cursor → List (Except ParseError Expr)
  | 0, _ => []
  | count + 1, c => c.next.1 :: nextExprs count c.next.2

end Cursor

/-- Reads a formula's text as an expression. -/
def parse (source : String) : Except ParseError Expr := (Cursor.ofTokens (tokenize source)).next.1

/-- The value of a formula's text. -/
def calculate (source : String) : Except ParseError Float := (parse source).map Expr.eval

end FormulaField
