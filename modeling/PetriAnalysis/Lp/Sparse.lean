import Std.Data.ExtTreeMap
import PetriAnalysis.Lp.Problem

/-!
# Sparse storage of a linear program

A `SparseLp` keeps the entries of each column by ascending row. An entry that was given stays
stored even if its value is zero. Replacing a row removes its entries from every column first.
Arguments are checked before anything is changed: the number of the row or column, then the
lengths of the two lists, then the indices from the front, each for its range and for having
occurred before. When rows or columns are appended, their new number has to have 64 bits.

## Main definitions

* `SparseLp`, `SparseLp.empty`.
* `SparseLp.coefficient`, `SparseLp.column`, `SparseLp.row`, `SparseLp.nonzeros` — readers.
* the instance of `LinearProgram`.
-/

namespace PetriAnalysis

/-- The stored entries of one column: values by row. -/
abbrev SparseLp.Column := Std.ExtTreeMap Nat Float

/-- A linear program stored by columns. -/
@[ext] structure SparseLp where
  columns : Array SparseLp.Column
  colBounds : Array Bound
  rowBounds : Array Bound

namespace SparseLp

/-- The program without rows and columns. -/
def empty : SparseLp := ⟨#[], #[], #[]⟩

/-- The number of rows. -/
def numRows (lp : SparseLp) : Nat := lp.rowBounds.size

/-- The number of columns. -/
def numCols (lp : SparseLp) : Nat := lp.columns.size

/-- The stored value at a row and a column. -/
def stored? (lp : SparseLp) (row col : Nat) : Option Float :=
  lp.columns[col]?.bind (·[row]?)

/-- The value at a row and a column. -/
def coefficient (lp : SparseLp) (row col : Nat) : Float :=
  (lp.stored? row col).getD 0

/-- The stored entries of a column, by ascending row. -/
def column (lp : SparseLp) (col : Nat) : List (Nat × Float) :=
  match lp.columns[col]? with
  | some column => column.toList
  | none => []

/-- The stored entries of a row, by ascending column. -/
def row (lp : SparseLp) (row : Nat) : List (Nat × Float) :=
  lp.columns.toList.zipIdx.filterMap fun (column, col) => column[row]?.map fun x => (col, x)

/-- The bound of a row. -/
def rowBound? (lp : SparseLp) (row : Nat) : Option Bound := lp.rowBounds[row]?

/-- The bound of a column. -/
def colBound? (lp : SparseLp) (col : Nat) : Option Bound := lp.colBounds[col]?

/-- The number of stored entries. -/
def nonzeros (lp : SparseLp) : Nat :=
  lp.columns.toList.foldl (fun n column => n + column.size) 0

/-- Two programs agree when they have the same bounds and store the same values at the same
places. Values are compared as numbers, so an entry that is not a number agrees with nothing. -/
instance : BEq SparseLp where
  beq a b :=
    a.columns.toList.map (·.toList) == b.columns.toList.map (·.toList) &&
      a.colBounds == b.colBounds && a.rowBounds == b.rowBounds

/-- Refuses a row that does not exist. -/
def checkRow (lp : SparseLp) (row : Nat) : Except LpError Unit :=
  if row < lp.numRows then .ok () else .error (.rowOutOfRange row lp.numRows)

/-- Refuses a column that does not exist. -/
def checkCol (lp : SparseLp) (col : Nat) : Except LpError Unit :=
  if col < lp.numCols then .ok () else .error (.columnOutOfRange col lp.numCols)

/-- Adds one entry to a sparse vector, which must not have one at that index. -/
def collectEntry (check : Nat → Except LpError Unit) (entries : Column) (entry : Nat × Float) :
    Except LpError Column := do
  check entry.1
  if entry.1 ∈ entries then throw (.duplicateIndex entry.1)
  return entries.insert entry.1 entry.2

/-- The sparse vector given by a list of indices and a list of values. -/
def collect (check : Nat → Except LpError Unit) (indices : List Nat) (values : List Float) :
    Except LpError Column := do
  unless indices.length = values.length do
    throw (.lengthMismatch indices.length values.length)
  (indices.zip values).foldlM (collectEntry check) ∅

/-- The array of the given size that begins like `xs` and is filled up with `x`. -/
def resize {α : Type} (xs : Array α) (size : Nat) (x : α) : Array α :=
  xs.take size ++ Array.replicate (size - xs.size) x

theorem resize_add {α : Type} (xs : Array α) (count : Nat) (x : α) :
    resize xs (xs.size + count) x = xs ++ Array.replicate count x := by
  rw [resize, Nat.add_sub_cancel_left, Array.take_eq_extract,
    Array.extract_eq_self_of_le (Nat.le_add_right ..)]

/-- Appends free rows. -/
def addRows (count : Nat) : Update SparseLp Nat := fun lp =>
  match sizeSum lp.numRows count with
  | .ok rows => .ok lp.numRows { lp with rowBounds := resize lp.rowBounds rows .free }
  | .error e => .error e lp

/-- Appends columns without entries that are bounded below by zero. -/
def addCols (count : Nat) : Update SparseLp Nat := fun lp =>
  match sizeSum lp.numCols count with
  | .ok cols => .ok lp.numCols { lp with
      columns := resize lp.columns cols ∅
      colBounds := resize lp.colBounds cols (.lower 0) }
  | .error e => .error e lp

/-- Makes a change whose arguments have passed `check`. -/
def guarded {ε : Type} (check : SparseLp → Except LpError ε) (change : SparseLp → ε → SparseLp) :
    LpUpdate SparseLp Unit := fun lp =>
  match check lp with
  | .ok e => .ok () (change lp e)
  | .error e => .error e lp

/-- Replaces the entries of a column. -/
def setColumn (col : Nat) (rows : List Nat) (values : List Float) : LpUpdate SparseLp Unit :=
  guarded (fun lp => do lp.checkCol col; collect lp.checkRow rows values)
    fun lp entries => { lp with columns := lp.columns.setIfInBounds col entries }

/-- Puts the entries of a row into the columns that they belong to. -/
def scatterRow (row : Nat) (entries : Column) (columns : Array Column) : Array Column :=
  entries.foldl (fun columns col x => columns.modify col (·.insert row x)) columns

/-- Replaces the entries of a row. -/
def setRow (row : Nat) (cols : List Nat) (values : List Float) : LpUpdate SparseLp Unit :=
  guarded (fun lp => do lp.checkRow row; collect lp.checkCol cols values)
    fun lp entries => { lp with
      columns := scatterRow row entries (lp.columns.map (·.erase row)) }

/-- Refuses a bound that is not valid. -/
def checkBound (b : Bound) : Except LpError Unit :=
  if b.Valid then .ok () else .error (.invalidBounds b.least b.greatest)

/-- Replaces the bound of a row. -/
def setRowBound (row : Nat) (b : Bound) : LpUpdate SparseLp Unit :=
  guarded (fun lp => do lp.checkRow row; checkBound b)
    fun lp _ => { lp with rowBounds := lp.rowBounds.setIfInBounds row b }

/-- Replaces the bound of a column. -/
def setColBound (col : Nat) (b : Bound) : LpUpdate SparseLp Unit :=
  guarded (fun lp => do lp.checkCol col; checkBound b)
    fun lp _ => { lp with colBounds := lp.colBounds.setIfInBounds col b }

instance : LinearProgram SparseLp where
  create _ := some empty
  copy lp := lp
  numRows := numRows
  numCols := numCols
  addRows := addRows
  addCols := addCols
  setColumn := setColumn
  setRow := setRow
  setRowBound := setRowBound
  setColBound := setColBound

end SparseLp

end PetriAnalysis
