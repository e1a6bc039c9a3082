import PetriAnalysis.Proofs.Lp.Bounds
import PetriAnalysis.Proofs.Lp.Reachable

/-!
# Checking all rows at once

The check of a vector goes once over the columns and adds up all rows together, while a single row
adds up its own terms. Both take the terms of a row in ascending order of columns and add them one
by one; they differ in the zero that they start from, and so in the sign of a zero at most. No bound
sees that sign. So the rows that the check finds are those whose own activity is outside their
bound.

## Main definitions

* `SparseLp.terms lp x row` — the terms of the sum along a row.
* `SparseLp.CheckedRowByRow lp x` — the check of a vector, said row by row.
-/

namespace PetriAnalysis.SparseLp

open Double

/-- The terms of the sum along a row: one for each stored entry in a column that the vector
covers, in ascending order of columns. -/
def terms (lp : SparseLp) (x : List Float) (row : ℕ) : List Float :=
  (List.range (min lp.numCols x.length)).filterMap fun c =>
    (lp.stored? row c).map fun coef => coef * x.getD c 0

variable {lp : SparseLp} {x : List Float} {row : ℕ}

/-! ## Two sums of the same terms -/

/-- Going over the columns adds the terms of a row one by one. -/
theorem foldl_accumulate_eq (lp : SparseLp) (x : List Float) (row : ℕ) (start : Float) :
    (lp.columns.toList.zip x).foldl (accumulate row) start =
      (lp.terms x row).foldl (· + ·) start := by
  rw [zip_columns_eq, List.foldl_map, terms, List.foldl_filterMap]
  refine List.foldl_ext _ _ _ ?_
  intro acc c hc
  rw [stored?_of_lt (Nat.lt_min.mp (List.mem_range.mp hc)).1]
  cases hentry : (lp.columns.getD c ∅)[row]? with
  | some coef => exact accumulate_of_some hentry acc _
  | none => exact accumulate_of_none hentry acc _

theorem rowActivity_eq_terms (lp : SparseLp) (row : ℕ) (x : List Float) :
    lp.rowActivity row x = (lp.terms x row).foldl (· + ·) (-0.0) := by
  rw [rowActivity_eq, foldl_accumulate_eq]

theorem gather_eq_terms (lp : SparseLp) (x : List Float) (row : ℕ) :
    lp.gather x row = (lp.terms x row).foldl (· + ·) 0 :=
  foldl_accumulate_eq lp x row 0

/-- Sums of the same terms that start from the two zeros differ in the sign of a zero at most. -/
theorem foldl_add_same (xs : List Float) {x y : Float} (h : SameNumber x y) :
    SameNumber (xs.foldl (· + ·) x) (xs.foldl (· + ·) y) :=
  List.foldl_rel h fun z _ _ _ hxy => hxy.add_right z

theorem gather_same_rowActivity (lp : SparseLp) (x : List Float) (row : ℕ) :
    SameNumber (lp.gather x row) (lp.rowActivity row x) := by
  rw [gather_eq_terms, rowActivity_eq_terms]
  exact foldl_add_same _ (Or.inr ⟨toRat?_zero, rfl⟩)

/-! ## Rows and columns outside their bounds -/

theorem meets_eq_false_iff (hrow : row < lp.numRows) : lp.meets x row = false ↔
    ∃ b, lp.rowBound? row = some b ∧
      b.contains (lp.rowActivity row x) feasibilityTolerance = false := by
  have hbound : lp.rowBound? row = some lp.rowBounds[row] := Array.getElem?_eq_getElem hrow
  simp only [meets, hbound, Option.all_some, Option.some.injEq, exists_eq_left',
    Bound.contains_congr _ (gather_same_rowActivity lp x row)]

/-- The check of a vector, said row by row. -/
structure CheckedRowByRow (lp : SparseLp) (x : List Float) : Prop where
  /-- The activity of a row is the sum of its terms. -/
  rowActivity_eq : ∀ r, lp.rowActivity r x = (lp.terms x r).foldl (· + ·) (-0.0)
  /-- The pass over the columns adds up the same terms, but starts from the other zero. No bound
  sees the difference. -/
  activities : ∃ activity, lp.activities x = .ok activity ∧ activity.size = lp.numRows ∧
    ∀ r < lp.numRows, ∃ a, activity[r]? = some a ∧ a = (lp.terms x r).foldl (· + ·) 0 ∧
      SameNumber a (lp.rowActivity r x) ∧ ∀ (b : Bound) (tolerance : Float),
        b.contains a tolerance = b.contains (lp.rowActivity r x) tolerance
  /-- The rows that are found are those whose own activity is outside their bound. -/
  violatedRows : ∃ rows, lp.violatedRows x = .ok rows ∧ rows.Pairwise (· < ·) ∧
    ∀ r, r ∈ rows ↔ r < lp.numRows ∧ ∃ b, lp.rowBound? r = some b ∧
      b.contains (lp.rowActivity r x) feasibilityTolerance = false
  /-- The verdict asks for a value within its bound for each column, and for no such row. -/
  isSatisfiedBy : ∃ verdict, lp.isSatisfiedBy x = .ok verdict ∧ (verdict = true ↔
    x.length = lp.numCols ∧
    (∀ c value, x[c]? = some value → ∃ b, lp.colBound? c = some b ∧
      b.contains value feasibilityTolerance = true) ∧
    lp.violatedRows x = .ok [])

namespace Reachable

theorem exists_violatedRows (h : lp.Reachable) (x : List Float) :
    ∃ rows, lp.violatedRows x = .ok rows ∧ rows.Pairwise (· < ·) ∧
      ∀ r, r ∈ rows ↔ r < lp.numRows ∧ ∃ b, lp.rowBound? r = some b ∧
        b.contains (lp.rowActivity r x) feasibilityTolerance = false := by
  refine ⟨_, h.rowsInRange.violatedRows_eq x, List.pairwise_lt_range.filter _, ?_⟩
  intro r
  rw [List.mem_filter, List.mem_range, Bool.not_eq_true']
  exact and_congr_right fun hr => meets_eq_false_iff hr

/-- All bounds are met if the columns are within their bounds and no row is found. -/
theorem satisfies_iff (h : lp.Reachable) : lp.Satisfies x ↔ x.length = lp.numCols ∧
    (∀ c value, x[c]? = some value → ∃ b, lp.colBound? c = some b ∧
      b.contains value feasibilityTolerance = true) ∧
    lp.violatedRows x = .ok [] := by
  have hrows : lp.violatedRows x = .ok [] ↔ ∀ r < lp.numRows, lp.meets x r = true := by
    rw [h.rowsInRange.violatedRows_eq x, Except.ok.injEq, List.filter_eq_nil_iff]
    simp
  rw [hrows]
  constructor
  · intro hx
    refine ⟨hx.length_eq, ?_, hx.row⟩
    intro c value hvalue
    have hc : c < lp.colBounds.size := by
      rw [h.size_colBounds, ← hx.length_eq]
      exact (List.getElem?_eq_some_iff.mp hvalue).1
    have hbound : lp.colBound? c = some lp.colBounds[c] := Array.getElem?_eq_getElem hc
    exact ⟨_, hbound, hx.column c value hvalue _ hbound⟩
  · rintro ⟨hlength, hcolumns, hrows⟩
    refine ⟨hlength, ?_, hrows⟩
    intro c value hvalue b hb
    obtain ⟨b', hb', hcontains⟩ := hcolumns c value hvalue
    cases hb.symm.trans hb'
    exact hcontains

end Reachable

/-- The check of a vector of any length finds the rows whose own activity is outside their bound,
in ascending order, and the verdict is that there are none and that all columns have a value within
their bound. -/
theorem checked_row_by_row (lp : SparseLp) (hlp : lp.Reachable) (x : List Float) :
    CheckedRowByRow lp x := by
  obtain ⟨activity, hactivity, hsize, hvalue⟩ := hlp.rowsInRange.exists_activities x
  obtain ⟨verdict, hverdict, hiff⟩ := hlp.rowsInRange.exists_isSatisfiedBy x
  constructor
  case rowActivity_eq => exact fun r => rowActivity_eq_terms lp r x
  case activities =>
    refine ⟨activity, hactivity, hsize, ?_⟩
    intro r hr
    have hsame := gather_same_rowActivity lp x r
    exact ⟨lp.gather x r, hvalue r hr, gather_eq_terms lp x r, hsame,
      fun b tolerance => b.contains_congr hsame tolerance⟩
  case violatedRows => exact hlp.exists_violatedRows x
  case isSatisfiedBy => exact ⟨verdict, hverdict, hiff.trans hlp.satisfies_iff⟩

/-- A row that compares two columns, and a row without entries. Neither may be below zero. -/
def balance : SparseLp := empty.afterCalls
  [.addRows 2, .addCols 2, .setRow 0 [0, 1] [1, -1], .setRowBound 0 (.lower 0),
    .setRowBound 1 (.lower 0)]

theorem checked_row_by_row_balance : balance.Reachable ∧
    ∃ rows, balance.violatedRows [1, 2, 7] = .ok rows ∧ 0 ∈ rows ∧ 1 ∉ rows := by
  have hlp : balance.Reachable := ⟨_, rfl⟩
  obtain ⟨rows, hviolated, -, hrows⟩ := (checked_row_by_row balance hlp [1, 2, 7]).violatedRows
  refine ⟨hlp, rows, hviolated, ?_, ?_⟩
  · exact (hrows 0).mpr ⟨by decide, .lower 0, by rfl, by decide +kernel⟩
  · -- The empty sum is the negative zero, which is not below the bound.
    intro hmem
    obtain ⟨-, b, hb, hout⟩ := (hrows 1).mp hmem
    obtain rfl : .lower 0 = b := Option.some.inj hb
    exact absurd hout (by decide +kernel)

end PetriAnalysis.SparseLp
