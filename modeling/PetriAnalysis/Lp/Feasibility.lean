import PetriAnalysis.Fault
import PetriAnalysis.Lp.Sparse

/-!
# Checking a vector against a linear program

A vector assigns a value to each column. The activity of a row is the sum of its entries times
the values of their columns, in ascending order of columns; a vector that is too short counts
as zero beyond its end. All activities are found together by one pass over the columns.

## Main definitions

* `SparseLp.rowActivity` — the activity of one row.
* `SparseLp.activities` — the activities of all rows.
* `SparseLp.violatedRows`, `SparseLp.isSatisfiedBy`.
-/

namespace PetriAnalysis.SparseLp

/-- The distance by which a value may miss its bound. -/
def feasibilityTolerance : Float := 1e-9

/-- The sum of doubles from the left. The empty sum is negative zero, which is neutral for the
addition of doubles. -/
def sum (xs : List Float) : Float := xs.foldl (· + ·) (-0.0)

/-- The activity of a row. -/
def rowActivity (lp : SparseLp) (row : Nat) (x : List Float) : Float :=
  sum <| (lp.columns.toList.zip x).filterMap fun (column, value) =>
    column[row]?.map fun coef => coef * value

/-- Adds what a column contributes to the activities. -/
def contribute (activity : Array Float) (column : Column) (value : Float) :
    Except Fault (Array Float) :=
  column.toList.foldlM (fun activity (row, coef) => do
    store activity row ((← fetch activity row) + coef * value)) activity

/-- The activities of all rows. -/
def activities (lp : SparseLp) (x : List Float) : Except Fault (Array Float) :=
  (lp.columns.toList.zip x).foldlM (fun activity (column, value) =>
    contribute activity column value) (Array.replicate lp.numRows 0)

/-- The rows whose activity is outside their bound, in ascending order. -/
def violatedRows (lp : SparseLp) (x : List Float) : Except Fault (List Nat) := do
  let activity ← lp.activities x
  return (activity.toList.zip lp.rowBounds.toList).zipIdx.filterMap fun ((value, bound), row) =>
    if bound.contains value feasibilityTolerance then none else some row

/-- Tells whether the vector has a value for each column and meets all bounds. -/
def isSatisfiedBy (lp : SparseLp) (x : List Float) : Except Fault Bool :=
  if x.length = lp.numCols &&
      (x.zip lp.colBounds.toList).all fun (value, bound) =>
        bound.contains value feasibilityTolerance then do
    return (← lp.violatedRows x).isEmpty
  else
    .ok false

end PetriAnalysis.SparseLp
