import FormulaField.Operator

/-!
The keys that the editor acts on. A key is known by the name that a browser gives it; the operator
keys are named by their character.
-/

namespace FormulaField

/-- A key. Every key that the editor does not act on is `other`, and reaches it as text instead. -/
inductive Key where
  | backspace
  | enter
  | operator (o : Operator)
  | other
  deriving DecidableEq

/-- The key with this name. -/
def Key.ofName (name : String) : Key :=
  if name = "Backspace" then .backspace
  else if name = "Enter" then .enter
  else match name.toList with
    | [c] => match Operator.ofChar? c with
      | some o => .operator o
      | none => .other
    | _ => .other

end FormulaField
