import PetriAnalysis.Family
import PetriAnalysis.Weight

/-!
# Incidence matrices

An `Incidence α` holds one value for every pair of a place and a transition: a row for each
place and, in each row, a cell for each transition. New places and transitions extend it. The
number of columns is kept beside the rows, because a matrix without places still has a number
of transitions. Nothing forces the rows to have that width; a cell beyond its row faults, first
on the place and then on the transition.

## Main definitions

* `Incidence α`, `Incidence.filled`.
* `Incidence.pushPlace`, `Incidence.pushTransition` — extension by a row or a column.
* `Incidence.get`, `Incidence.set` — access to cells.
* `Incidence.column`, `Incidence.columns` — walks down one matrix, or down two at once.
-/

namespace PetriAnalysis

/-- A value for each pair of a place and a transition. -/
@[ext] structure Incidence (α : Type) where
  /-- The rows, one for each place. -/
  rows : Family .place (Array α)
  /-- The number of transitions. -/
  width : UInt64
  deriving DecidableEq

namespace Incidence

variable {α β : Type}

/-- The matrix of the given size with `x` in every cell. -/
def filled (places : Nat) (transitions : UInt64) (x : α) : Incidence α :=
  ⟨⟨Array.replicate places (Array.replicate transitions.toNat x)⟩, transitions⟩

/-- The number of rows. -/
def numPlaces (m : Incidence α) : Nat := m.rows.size

/-- The number of columns. -/
def numTransitions (m : Incidence α) : Nat := m.width.toNat

/-- Appends a row that holds `x` everywhere. -/
def pushPlace (x : α) : Update (Incidence α) PlaceId := fun m =>
  focus Incidence.rows (fun m rows => { m with rows })
    (Family.push (Array.replicate m.width.toNat x)) m

/-- Appends a column that holds `x` everywhere. The rows have grown even if the count of columns
or the identifiers are used up. -/
def pushTransition (x : α) : Update (Incidence α) TransitionId := fun m =>
  let rows := m.rows.map (·.push x)
  match Weight.add? m.width 1 with
  | none => .error .sumOverflow { m with rows }
  | some width =>
    match Id.ofIndex m.width.toNat with
    | .ok t => .ok t ⟨rows, width⟩
    | .error e => .error e ⟨rows, width⟩

/-- The value of a cell. -/
def get (m : Incidence α) (p : PlaceId) (t : TransitionId) : Except Fault α := do
  fetch (← m.rows.get p) t.index

/-- The matrix with another value in one cell. -/
def set (m : Incidence α) (p : PlaceId) (t : TransitionId) (x : α) :
    Except Fault (Incidence α) := do
  let row ← store (← m.rows.get p) t.index x
  return { m with rows := ← m.rows.set p row }

/-- The column of a transition, by place. -/
def column (m : Incidence α) (t : TransitionId) : Walk (PlaceId × α) :=
  m.rows.entries.traverse fun entry => do return (entry.1, ← fetch entry.2 t.index)

/-- The columns of a transition in two matrices side by side, by place. The left cell is looked up
first. Both columns have a known length, so the walk is as long as the shorter one: a row that only
one matrix has is never looked at and does not fault, however few cells it has. -/
def columns (m : Incidence α) (m' : Incidence β) (t : TransitionId) : Walk (PlaceId × α × β) :=
  (m.rows.zip m'.rows).entries.traverse fun entry => do
    return (entry.1, ← fetch entry.2.1 t.index, ← fetch entry.2.2 t.index)

/-- Every row has as many cells as the matrix has columns. -/
def Rectangular (m : Incidence α) : Prop :=
  ∀ row ∈ m.rows.data, row.size = m.numTransitions

end Incidence

end PetriAnalysis
