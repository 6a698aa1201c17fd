import FormulaField.Expr.Parse

/-!
The grammar of expressions, told without a reader:

    additive := term (('+' | '-') term)*
    term     := unary (('*' | '/') unary)*
    unary    := ('+' | '-') unary | power
    power    := primary ('^' signed)*
    signed   := ('+' | '-')* primary
    primary  := NUMBER | '(' additive ')'

Every starred chain groups from the left, so its rule takes a chain on the left and one more link on
the right. `Derives` builds the tree along with the tokens: it looks at their kinds and, for a
number, at the text, never at the places. A tree is measured by how deep its signs and parentheses
nest and by how many operations it has.
-/

namespace FormulaField

/-- What the grammar can ask for, from the loosest binding to the tightest. -/
inductive Level where
  | additive | term | unary | power | signed | primary
  deriving DecidableEq

/-- The operator that a sign is written with. -/
def Sign.operator : Sign → Operator
  | .plus => .plus
  | .minus => .minus

/-- The operator that an operation is written with. -/
def Operation.operator : Operation → Operator
  | .add => .plus
  | .sub => .minus
  | .mul => .star
  | .div => .slash
  | .pow => .caret

/-- The chain in which an operation is a link. -/
def Operation.level : Operation → Level
  | .add | .sub => .additive
  | .mul | .div => .term
  | .pow => .power

/-- The derivations of the grammar: the tokens, in order, and the tree that they make. -/
inductive Derives : Level → List Token → Expr → Prop
  | term {ts e} : Derives .term ts e → Derives .additive ts e
  | sum {ts t us a o b} : Derives .additive ts a → t.kind = .operator o.operator →
      o.level = .additive → Derives .term us b → Derives .additive (ts ++ t :: us) (.binary a o b)
  | unary {ts e} : Derives .unary ts e → Derives .term ts e
  | product {ts t us a o b} : Derives .term ts a → t.kind = .operator o.operator →
      o.level = .term → Derives .unary us b → Derives .term (ts ++ t :: us) (.binary a o b)
  | power {ts e} : Derives .power ts e → Derives .unary ts e
  | sign {t ts s e} : t.kind = .operator s.operator → Derives .unary ts e →
      Derives .unary (t :: ts) (.signed s e)
  | primary {ts e} : Derives .primary ts e → Derives .power ts e
  | pow {ts t us a b} : Derives .power ts a → t.kind = .operator .caret → Derives .signed us b →
      Derives .power (ts ++ t :: us) (.binary a .pow b)
  | exponent {ts e} : Derives .primary ts e → Derives .signed ts e
  | exponentSign {t ts s e} : t.kind = .operator s.operator → Derives .signed ts e →
      Derives .signed (t :: ts) (.signed s e)
  | number {t x} : t.kind = .number → literalValue? t.text = some x → Derives .primary [t] (.number x)
  | paren {l ts r e} : l.kind = .operator .leftParen → Derives .additive ts e →
      r.kind = .operator .rightParen → Derives .primary (l :: (ts ++ [r])) (.paren e)

/-- The tokens make a whole expression. -/
def Sentence (ts : List Token) : Prop := ∃ e, Derives .additive ts e

/-- Some tokens behind these make them a whole expression. -/
def Viable (ts : List Token) : Prop := ∃ us, Sentence (ts ++ us)

namespace Expr

/-- The greatest number of signs and parentheses around any part of the tree. -/
def nesting : Expr → Nat
  | number _ => 0
  | signed _ e => e.nesting + 1
  | binary a _ b => max a.nesting b.nesting
  | paren e => e.nesting + 1

/-- The number of operations in the tree. -/
def operations : Expr → Nat
  | number _ => 0
  | signed _ e => e.operations
  | binary a _ b => a.operations + b.operations + 1
  | paren e => e.operations

/-- The tree written out in order: the kind of every token, and the value of every number. -/
def symbols : Expr → List (TokenKind × Option Float)
  | number x => [(.number, some x)]
  | signed s e => (.operator s.operator, none) :: e.symbols
  | binary a o b => a.symbols ++ (.operator o.operator, none) :: b.symbols
  | paren e => (.operator .leftParen, none) :: (e.symbols ++ [(.operator .rightParen, none)])

end Expr

/-- What a tree can tell of a token: its kind, and the value of a number. -/
def Token.symbol (t : Token) : TokenKind × Option Float :=
  (t.kind, if t.kind = .number then literalValue? t.text else none)

theorem symbol_operator {t : Token} {o : Operator} (h : t.kind = .operator o) :
    t.symbol = (.operator o, none) := by
  simp [Token.symbol, h]

/-- A derivation uses every token once and in order. -/
theorem Derives.map_symbol {l : Level} {ts : List Token} {e : Expr} (h : Derives l ts e) :
    ts.map Token.symbol = e.symbols := by
  induction h with
  | term _ ih | unary _ ih | power _ ih | primary _ ih | exponent _ ih => exact ih
  | sum _ ht _ _ ih₁ ih₂ | product _ ht _ _ ih₁ ih₂ | pow _ ht _ ih₁ ih₂ =>
    simp [Expr.symbols, symbol_operator ht, ih₁, ih₂, Operation.operator]
  | sign ht _ ih | exponentSign ht _ ih => simp [Expr.symbols, symbol_operator ht, ih]
  | number ht hx => simp [Expr.symbols, Token.symbol, ht, hx]
  | paren hl _ hr ih => simp [Expr.symbols, symbol_operator hl, symbol_operator hr, ih]

/-- No expression is written with no token at all. -/
theorem Derives.ne_nil {l : Level} {ts : List Token} {e : Expr} (h : Derives l ts e) : ts ≠ [] := by
  induction h with
  | term _ ih | unary _ ih | power _ ih | primary _ ih | exponent _ ih => exact ih
  | sum | product | pow | sign | exponentSign | number | paren => simp

/-! ### The operators of the levels -/

theorem additive?_eq_some_iff {o : Operator} {p : Operation} :
    o.additive? = some p ↔ p.level = .additive ∧ o = p.operator := by
  cases o <;> cases p <;> decide

theorem multiplicative?_eq_some_iff {o : Operator} {p : Operation} :
    o.multiplicative? = some p ↔ p.level = .term ∧ o = p.operator := by
  cases o <;> cases p <;> decide

end FormulaField
