import PetriAnalysis.Decimal.Shortest
import PetriAnalysis.Fault
import PetriAnalysis.Lp.Bound

/-!
# Linear programs under construction

A backend stores the matrix and the bounds of a linear program. Rows and columns are numbered
from zero and only ever appended; the entries of a whole column or of a whole row are replaced
at once, and so are bounds. A backend refuses ill-formed arguments with an `LpError`; appending is
not refused, but it may fault.

## Main definitions

* `LpError`, `LpError.message`.
* `LinearProgram L` — what a backend provides.
-/

namespace PetriAnalysis

/-- The reasons for which a backend refuses a change. -/
inductive LpError where
  | rowOutOfRange (row rows : Nat)
  | columnOutOfRange (col cols : Nat)
  | lengthMismatch (indices values : Nat)
  | duplicateIndex (index : Nat)
  | invalidBounds (lower upper : Float)
  deriving BEq

/-- The wording of a refusal. -/
def LpError.message : LpError → String
  | .rowOutOfRange row rows =>
    "row " ++ toString row ++ " is out of bounds (" ++ toString rows ++ " rows)"
  | .columnOutOfRange col cols =>
    "column " ++ toString col ++ " is out of bounds (" ++ toString cols ++ " columns)"
  | .lengthMismatch indices values =>
    "sparse vector has " ++ toString indices ++ " indices but " ++ toString values ++ " values"
  | .duplicateIndex index => "index " ++ toString index ++ " appears twice in one sparse vector"
  | .invalidBounds lower upper =>
    "invalid bounds [" ++ Decimal.text lower ++ ", " ++ Decimal.text upper ++ "]"

/-- A change of a linear program, which may be refused. -/
abbrev LpUpdate (L α : Type) := EStateM LpError L α

/-- A store of linear programs. Sparse vectors are given as a list of indices and a list of
values. -/
class LinearProgram (L : Type) where
  /-- What the request number `n` for a program without rows and columns is answered, counted from
  zero: a program, if one can be allocated. A later request may be answered differently. -/
  create (n : Nat) : Option L
  /-- A program with the same contents that shares nothing with the given one. -/
  copy : L → L
  /-- The number of rows. -/
  numRows : L → Nat
  /-- The number of columns. -/
  numCols : L → Nat
  /-- Appends free rows and answers the number of the first one. -/
  addRows : Nat → Update L Nat
  /-- Appends columns bounded below by zero and answers the number of the first one. -/
  addCols : Nat → Update L Nat
  /-- Replaces the entries of a column, given by rows. -/
  setColumn : Nat → List Nat → List Float → LpUpdate L Unit
  /-- Replaces the entries of a row, given by columns. -/
  setRow : Nat → List Nat → List Float → LpUpdate L Unit
  /-- Replaces the bound of a row. -/
  setRowBound : Nat → Bound → LpUpdate L Unit
  /-- Replaces the bound of a column. -/
  setColBound : Nat → Bound → LpUpdate L Unit

end PetriAnalysis
