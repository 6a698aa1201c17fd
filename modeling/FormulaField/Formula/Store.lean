import FormulaField.Formula.Basic

/-!
A formula that tells its subscribers when it changes. A change is answered by a `Reply`: the value of
the call, the new state, and a notice for every subscriber in the order of subscription, each with
the formula as it is afterwards. A call that finds nothing to change sends no notice.
-/

namespace FormulaField

/-- A message to the subscriber with this handle: the formula is now this one. -/
structure Notice where
  handle : Nat
  formula : Formula

/-- The answer to a call that may change a state: its value, the new state and the notices sent, in
order. -/
structure Reply (σ α : Type) where
  value : α
  state : σ
  notices : List Notice := []

/-- Goes on from the state and the value of a reply; the notices of both calls are kept. -/
def Reply.andThen {σ α β : Type} (r : Reply σ α) (f : α → σ → Reply σ β) : Reply σ β :=
  let next := f r.value r.state
  { next with notices := r.notices ++ next.notices }

/-- A formula with its subscribers. `issued` handles have been given out so far, and none of them is
given out again. -/
structure Store where
  formula : Formula := {}
  subscribers : List Nat := []
  issued : Nat := 0

namespace Store

/-- Adds a subscriber and gives its handle. -/
def subscribe (s : Store) : Nat × Store :=
  (s.issued, { s with subscribers := s.subscribers ++ [s.issued], issued := s.issued + 1 })

/-- Removes a subscriber, and tells whether it was there. -/
def unsubscribe (s : Store) (handle : Nat) : Bool × Store :=
  (s.subscribers.contains handle, { s with subscribers := s.subscribers.filter (· != handle) })

/-- Puts a new formula in place, and tells all subscribers if they are to be woken. -/
def change {α : Type} (s : Store) (value : α) (formula : Formula) (wake : Bool) : Reply Store α :=
  { value := value
    state := { s with formula := formula }
    notices := if wake then s.subscribers.map (⟨·, formula⟩) else [] }

/-- Adds a piece at the end. -/
def append (s : Store) (piece : Piece) : Reply Store Unit :=
  s.change () (s.formula.append piece) true

/-- Removes the first tag with this id, and gives it. -/
def removeTag (s : Store) (id : String) : Reply Store (Option Tag) :=
  let (removed, formula) := s.formula.removeTag id
  s.change removed formula removed.isSome

/-- Removes the last piece, and gives it. -/
def popLast (s : Store) : Reply Store (Option Piece) :=
  let (popped, formula) := s.formula.popLast
  s.change popped formula popped.isSome

/-- Puts other pieces in place of all, and gives the previous ones. Subscribers are told if the
sequences differ. -/
def replaceAll (s : Store) (pieces : List Piece) : Reply Store (List Piece) :=
  s.change s.formula.pieces ⟨pieces⟩ (s.formula.pieces != pieces)

/-- Chooses an option for the tags with this id, and tells whether there is one. -/
def chooseOption (s : Store) (id option : String) : Reply Store Bool :=
  let (found, formula) := s.formula.chooseOption id option
  s.change found formula found

end Store

end FormulaField
