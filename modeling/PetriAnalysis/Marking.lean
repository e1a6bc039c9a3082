import PetriAnalysis.Family
import PetriAnalysis.Weight

/-!
# Markings

A marking gives each place its number of tokens. It may be shorter or longer than the net it
is used with: a place beyond it faults when it is read.

## Main definitions

* `Marking`, `Marking.ofList`, `Marking.tokens`, `Marking.put`.
* `Marking.take`, `Marking.give` — the two ways to move tokens.
-/

namespace PetriAnalysis

/-- The number of tokens on each place. -/
@[ext] structure Marking where
  /-- The token counts, in the order of the places. -/
  counts : Family .place Weight
  deriving DecidableEq

namespace Marking

/-- The marking with the given token counts. -/
def ofList (ws : List Weight) : Marking := ⟨.ofList ws⟩

/-- The token counts as a list. -/
def toList (m : Marking) : List Weight := m.counts.toList

/-- The number of places covered. -/
def size (m : Marking) : Nat := m.counts.size

/-- Tells whether no place is covered. -/
def isEmpty (m : Marking) : Bool := m.counts.isEmpty

/-- The places with their tokens, in order. -/
def entries (m : Marking) : Walk (PlaceId × Weight) := m.counts.entries

/-- The tokens on a place. -/
def tokens (m : Marking) (p : PlaceId) : Except Fault Weight := m.counts.get p

/-- The marking with another number of tokens on one place. -/
def put (m : Marking) (p : PlaceId) (w : Weight) : Except Fault Marking :=
  (m.counts.set p w).map Marking.mk

/-- Takes `w` tokens from a place; `none` if there are not so many. -/
def take (m : Marking) (p : PlaceId) (w : Weight) : Except Fault (Option Marking) := do
  match Weight.sub? (← m.tokens p) w with
  | some rest => return some (← m.put p rest)
  | none => return none

/-- Gives `w` tokens to a place; `none` if the sum is beyond the largest weight. -/
def give (m : Marking) (p : PlaceId) (w : Weight) : Except Fault (Option Marking) := do
  match Weight.add? (← m.tokens p) w with
  | some sum => return some (← m.put p sum)
  | none => return none

end Marking

end PetriAnalysis
