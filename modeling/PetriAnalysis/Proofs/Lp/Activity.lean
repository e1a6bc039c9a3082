import Mathlib.Algebra.BigOperators.Group.Finset.Basic
import PetriAnalysis.Lp.Feasibility
import PetriAnalysis.Proofs.Double.Zero
import PetriAnalysis.Proofs.Lp.Entries

/-!
# Activities of rows

The activities of all rows are found by one pass over the columns, which scatters the entries of
each column. For a single row this is the sum along the row, in ascending order of columns, and
its terms are added one by one. As long as all terms and all partial sums are integers below
`2 ^ 53`, nothing is rounded. Cells without an entry may be counted as zeros, since only the sign
of a zero depends on that, and no bound sees it.

## Main definitions

* `SparseLp.accumulate row` — what a column adds to the sum along a row.
* `SparseLp.gather lp x row` — the activity of a row, as the pass over the columns finds it.
* `SparseLp.meets lp x row` — the activity of a row is within its bound.
* `SparseLp.Satisfies lp x` — all bounds are met.
* `SparseLp.rowSum lp x row` — the sum along a row with a term for every cell.
-/

namespace PetriAnalysis.SparseLp

/-- What a column adds to the sum along a row. -/
def accumulate (row : ℕ) (acc : Float) (entry : Column × Float) : Float :=
  match entry.1[row]? with
  | some coef => acc + coef * entry.2
  | none => acc

section

variable {row : ℕ} {column : Column}

theorem accumulate_of_some {coef : Float} (h : column[row]? = some coef) (acc value : Float) :
    accumulate row acc (column, value) = acc + coef * value := by
  rw [accumulate, h]

theorem accumulate_of_none (h : column[row]? = none) (acc value : Float) :
    accumulate row acc (column, value) = acc := by
  rw [accumulate, h]

end

/-- The activity of a row, as the pass over the columns finds it. -/
def gather (lp : SparseLp) (x : List Float) (row : ℕ) : Float :=
  (lp.columns.toList.zip x).foldl (accumulate row) 0

/-- A row without entries adds up to zero. -/
theorem gather_of_empty {lp : SparseLp} {row : ℕ} (h : ∀ c, lp.stored? row c = none)
    (x : List Float) : lp.gather x row = 0 := by
  refine List.foldlRecOn (motive := (· = 0)) _ _ rfl ?_
  rintro acc hacc ⟨column, value⟩ hmem
  obtain ⟨c, hc⟩ := List.mem_iff_getElem?.mp (List.of_mem_zip hmem).1
  have hentry := h c
  rw [stored?, ← Array.getElem?_toList, hc, Option.bind_some] at hentry
  rw [accumulate_of_none hentry, hacc]

theorem rowActivity_eq (lp : SparseLp) (row : ℕ) (x : List Float) :
    lp.rowActivity row x = (lp.columns.toList.zip x).foldl (accumulate row) (-0.0) := by
  rw [rowActivity, sum, List.foldl_filterMap]
  congr 1
  funext acc (column, value)
  dsimp only
  cases h : column[row]? with
  | some coef => exact (accumulate_of_some h acc value).symm
  | none => exact (accumulate_of_none h acc value).symm

/-! ## The pass over the columns -/

theorem contribute_eq (activity : Array Float) (column : Column) (value : Float) :
    contribute activity column value =
      strictScatter (fun coef acc => acc + coef * value) column.toList activity := rfl

/-- A column raises the activities of its rows, each on its own. -/
theorem exists_contribute {activity : Array Float} {column : Column} (value : Float)
    (hrange : ∀ r ∈ column, r < activity.size) : ∃ raised,
      contribute activity column value = .ok raised ∧ raised.size = activity.size ∧
        ∀ r, raised[r]? = activity[r]?.map fun acc => accumulate r acc (column, value) := by
  refine ⟨_, ?_, size_scatter (fun coef acc => acc + coef * value) column.toList activity, ?_⟩
  · rw [contribute_eq, strictScatter_eq_ok_iff, and_iff_left rfl]
    intro r hr
    exact hrange r (mem_map_fst_toList.mp hr)
  · intro r
    simp only [getElem?_scatter (nodup_toList column), lookup_toList, accumulate]
    cases column[r]? <;> rfl

variable {lp : SparseLp}

/-- No column has an entry beyond the rows. -/
def RowsInRange (lp : SparseLp) : Prop := ∀ column ∈ lp.columns, ∀ r ∈ column, r < lp.numRows

theorem rowsInRange_of_stored? (h : ∀ r c, lp.numRows ≤ r → lp.stored? r c = none) :
    lp.RowsInRange := by
  intro column hcolumn r hr
  obtain ⟨c, hc, rfl⟩ := Array.mem_iff_getElem.mp hcolumn
  by_contra hrange
  have hnone := h r c (Nat.not_lt.mp hrange)
  rw [stored?, Array.getElem?_eq_getElem hc, Option.bind_some] at hnone
  rw [Std.ExtTreeMap.mem_iff_isSome_getElem?, hnone] at hr
  cases hr

/-- One column after another raises each row on its own. -/
theorem exists_scattered {entries : List (Column × Float)} {start : Array Float}
    (hrange : ∀ entry ∈ entries, ∀ r ∈ entry.1, r < start.size) : ∃ activity,
      entries.foldlM (fun activity (column, value) => contribute activity column value) start =
        .ok activity ∧ activity.size = start.size ∧
      ∀ r, activity[r]? = start[r]?.map fun acc => entries.foldl (accumulate r) acc := by
  induction entries generalizing start with
  | nil => exact ⟨start, rfl, rfl, fun r => by simp⟩
  | cons entry entries ih =>
    obtain ⟨raised, hraised, hsize, hvalue⟩ :=
      exists_contribute entry.2 (hrange entry List.mem_cons_self)
    obtain ⟨activity, hactivity, hsize', hvalue'⟩ := @ih raised fun entry' hentry' r hr =>
      hsize ▸ hrange entry' (List.mem_cons_of_mem _ hentry') r hr
    refine ⟨activity, foldlM_cons_eq_ok_iff.mpr ⟨raised, hraised, hactivity⟩,
      hsize'.trans hsize, ?_⟩
    intro r
    rw [hvalue', hvalue, Option.map_map]
    rfl

/-- The pass over the columns gathers the activity of every row. -/
theorem RowsInRange.exists_activities (h : lp.RowsInRange) (x : List Float) :
    ∃ activity, lp.activities x = .ok activity ∧ activity.size = lp.numRows ∧
      ∀ r < lp.numRows, activity[r]? = some (lp.gather x r) := by
  obtain ⟨activity, hactivity, hsize, hvalue⟩ := @exists_scattered
    (lp.columns.toList.zip x) (Array.replicate lp.numRows 0) fun entry hentry r hr => by
      rw [Array.size_replicate]
      exact h entry.1 (Array.mem_toList_iff.mp (List.of_mem_zip hentry).1) r hr
  refine ⟨activity, hactivity, hsize.trans Array.size_replicate, ?_⟩
  intro r hr
  rw [hvalue, Array.getElem?_replicate, if_pos hr]
  rfl

/-! ## Rows outside their bounds -/

/-- The activity of a row is within its bound. -/
def meets (lp : SparseLp) (x : List Float) (row : ℕ) : Bool :=
  (lp.rowBound? row).all (·.contains (lp.gather x row) feasibilityTolerance)

/-- The rows outside their bounds are found in ascending order. -/
theorem RowsInRange.violatedRows_eq (h : lp.RowsInRange) (x : List Float) :
    lp.violatedRows x = .ok ((List.range lp.numRows).filter fun r => !lp.meets x r) := by
  obtain ⟨activity, hactivity, hsize, hvalue⟩ := h.exists_activities x
  have hbound (r : ℕ) (hr : r < lp.numRows) : lp.rowBound? r = some lp.rowBounds[r] :=
    Array.getElem?_eq_getElem hr
  have hrows : (activity.toList.zip lp.rowBounds.toList).zipIdx =
      (List.range lp.numRows).map fun r => ((lp.gather x r, (lp.rowBound? r).getD .free), r) := by
    refine List.ext_getElem ?_ ?_
    · simp [hsize, numRows]
    · intro r hr hr'
      have hrange : r < lp.numRows := by simpa using hr'
      have hgather := hvalue r hrange
      rw [Array.getElem?_eq_getElem (hsize ▸ hrange), Option.some.injEq] at hgather
      rw [List.getElem_zipIdx, List.getElem_zip, List.getElem_map, List.getElem_range,
        Array.getElem_toList, Array.getElem_toList, hgather, hbound r hrange, Option.getD_some,
        Nat.zero_add]
      rfl
  rw [violatedRows, hactivity, ok_bind, hrows, List.filterMap_map, ← List.filterMap_eq_filter]
  refine congrArg Except.ok (List.filterMap_congr ?_)
  intro r hr
  have hrange := List.mem_range.mp hr
  rw [Option.guard, meets, hbound r hrange, Option.all_some]
  dsimp only [Function.comp_apply]
  rw [hbound r hrange, Option.getD_some]
  cases (lp.rowBounds[r]).contains (lp.gather x r) feasibilityTolerance <;> rfl

/-- The vector has a value for each column, and all bounds are met. -/
structure Satisfies (lp : SparseLp) (x : List Float) : Prop where
  length_eq : x.length = lp.numCols
  column : ∀ c value, x[c]? = some value → ∀ b, lp.colBound? c = some b →
    b.contains value feasibilityTolerance = true
  row : ∀ r < lp.numRows, lp.meets x r = true

/-- The test for the bounds of the columns. -/
theorem all_columns_iff {x : List Float} :
    (x.zip lp.colBounds.toList).all
        (fun entry => entry.2.contains entry.1 feasibilityTolerance) = true ↔
      ∀ c value, x[c]? = some value → ∀ b, lp.colBound? c = some b →
        b.contains value feasibilityTolerance = true := by
  rw [List.all_eq_true]
  constructor
  · intro h c value hvalue b hb
    refine h (value, b) (List.mem_iff_getElem?.mpr ⟨c, ?_⟩)
    exact List.getElem?_zip_eq_some.mpr ⟨hvalue, by rwa [Array.getElem?_toList]⟩
  · intro h entry hentry
    obtain ⟨c, hc⟩ := List.mem_iff_getElem?.mp hentry
    obtain ⟨hvalue, hbound⟩ := List.getElem?_zip_eq_some.mp hc
    exact h c entry.1 hvalue entry.2 (by rwa [Array.getElem?_toList] at hbound)

/-- The verdict on a vector exists, and it is positive exactly if all bounds are met. -/
theorem RowsInRange.exists_isSatisfiedBy (h : lp.RowsInRange) (x : List Float) :
    ∃ verdict, lp.isSatisfiedBy x = .ok verdict ∧ (verdict = true ↔ lp.Satisfies x) := by
  rw [isSatisfiedBy]
  split_ifs with hcond
  · obtain ⟨hlength, hall⟩ := Bool.and_eq_true_iff.mp hcond
    rw [h.violatedRows_eq]
    refine ⟨_, rfl, ?_⟩
    rw [List.isEmpty_iff, List.filter_eq_nil_iff]
    constructor
    · intro hrows
      refine ⟨of_decide_eq_true hlength, all_columns_iff.mp hall, ?_⟩
      intro r hr
      simpa using hrows r (List.mem_range.mpr hr)
    · intro hx r hr
      simpa using hx.row r (List.mem_range.mp hr)
  · refine ⟨false, rfl, ?_⟩
    rw [iff_comm, iff_false_right Bool.false_ne_true]
    intro hx
    exact hcond (Bool.and_eq_true_iff.mpr ⟨decide_eq_true hx.length_eq,
      all_columns_iff.mpr hx.column⟩)

/-- A vector that covers the columns and meets their bounds is judged by the rows. -/
theorem RowsInRange.isSatisfiedBy_eq (h : lp.RowsInRange) {x : List Float}
    (hlength : x.length = lp.numCols)
    (hcols : ∀ c value, x[c]? = some value → ∀ b, lp.colBound? c = some b →
      b.contains value feasibilityTolerance = true) :
    lp.isSatisfiedBy x = .ok ((List.range lp.numRows).filter fun r => !lp.meets x r).isEmpty := by
  rw [isSatisfiedBy]
  rw [if_pos (Bool.and_eq_true_iff.mpr ⟨decide_eq_true hlength, all_columns_iff.mpr hcols⟩),
    h.violatedRows_eq]
  rfl

/-! ## Cells without an entry -/

open Double

/-- The sum along a row, with a term for every cell. -/
def rowSum (lp : SparseLp) (x : List Float) (row : ℕ) : Float :=
  (List.range (min lp.numCols x.length)).foldl
    (fun acc c => acc + lp.coefficient row c * x.getD c 0) 0

theorem stored?_of_lt {c : ℕ} (hc : c < lp.numCols) (row : ℕ) :
    lp.stored? row c = (lp.columns.getD c ∅)[row]? := by
  have hcolumn : c < lp.columns.size := hc
  rw [stored?, Array.getElem?_eq_getElem hcolumn, Option.bind_some, Array.getElem_eq_getD ∅]

theorem zip_columns_eq (lp : SparseLp) (x : List Float) : lp.columns.toList.zip x =
    (List.range (min lp.numCols x.length)).map fun c =>
      (lp.columns.getD c ∅, x.getD c 0) := by
  refine List.ext_getElem ?_ ?_
  · simp [numCols]
  · intro c hc hc'
    rw [List.length_zip, Array.length_toList] at hc
    simp [hc.trans_le (min_le_left _ _), hc.trans_le (min_le_right _ _)]

/-- Cells without an entry count as zero, and adding a zero does nothing to a number. -/
theorem gather_same {x : List Float} (hx : ∀ value ∈ x, value.isFinite = true) (row : ℕ) :
    SameNumber (lp.gather x row) (lp.rowSum x row) := by
  rw [gather, zip_columns_eq, List.foldl_map, rowSum]
  refine List.foldl_rel (.refl 0) ?_
  intro c hc acc acc' h
  have hrange := Nat.lt_min.mp (List.mem_range.mp hc)
  have hlength : c < x.length := hrange.2
  have hcoef : lp.coefficient row c = ((lp.columns.getD c ∅)[row]?).getD 0 := by
    rw [coefficient, stored?_of_lt hrange.1]
  cases hentry : (lp.columns.getD c ∅)[row]? with
  | some coef =>
    rw [accumulate_of_some hentry, hcoef, hentry, Option.getD_some]
    exact h.add_right _
  | none =>
    have hvalue := toRat?_of_isFinite (hx _ (List.getElem_mem hlength))
    rw [accumulate_of_none hentry, hcoef, hentry, Option.getD_none,
      List.getD_eq_getElem _ _ hlength]
    exact h.trans (add_zero_same (toRat?_zero_mul toRat?_zero hvalue) acc').symm

/-! ## Sums that need no rounding -/

/-- A sum is exact if its terms and partial sums are. -/
theorem toRat?_foldl_accumulate {entries : List (Column × Float)} {row : ℕ} {v : ℕ → ℤ}
    {start : Float} (hstart : toRat? start = some 0)
    (hterm : ∀ k column value, entries[k]? = some (column, value) →
      match column[row]? with
      | some coef => toRat? (coef * value) = some (v k : ℚ)
      | none => v k = 0)
    (hsum : ∀ k ≤ entries.length, (∑ i ∈ Finset.range k, v i).natAbs < 2 ^ 53) :
    toRat? (entries.foldl (accumulate row) start) =
      some ((∑ i ∈ Finset.range entries.length, v i : ℤ) : ℚ) := by
  induction entries using List.reverseRecOn with
  | nil => simpa using hstart
  | append_singleton entries entry ih =>
    obtain ⟨column, value⟩ := entry
    rw [List.length_append, List.length_singleton] at hsum ⊢
    have hfirst := ih
      (fun k column value hk => hterm k column value
        ((List.getElem?_append_left (List.getElem?_eq_some_iff.mp hk).1).trans hk))
      fun k hk => hsum k (by omega)
    have hlast := hterm entries.length column value (by simp)
    have hfull := hsum (entries.length + 1) le_rfl
    rw [Finset.sum_range_succ] at hfull ⊢
    rw [List.foldl_append, List.foldl_cons, List.foldl_nil]
    cases hentry : column[row]? with
    | some coef =>
      rw [hentry] at hlast
      rw [accumulate_of_some hentry]
      exact toRat?_add_int hfirst hlast hfull
    | none =>
      rw [hentry] at hlast
      rw [accumulate_of_none hentry, hfirst, hlast, add_zero]

/-- The terms and partial sums along a row are integers that doubles represent. -/
structure ExactTerms (lp : SparseLp) (x : List Float) (row : ℕ) (v : ℕ → ℤ) : Prop where
  length_eq : x.length = lp.numCols
  term : ∀ c value, x[c]? = some value → ∃ a b : ℤ,
    toRat? (lp.coefficient row c) = some (a : ℚ) ∧ toRat? value = some (b : ℚ) ∧ a * b = v c
  product_lt : ∀ c < lp.numCols, (v c).natAbs < 2 ^ 53
  sum_lt : ∀ k ≤ lp.numCols, (∑ c ∈ Finset.range k, v c).natAbs < 2 ^ 53

section

variable {x : List Float} {row : ℕ} {v : ℕ → ℤ}

theorem ExactTerms.toRat?_foldl (h : ExactTerms lp x row v) {start : Float}
    (hstart : toRat? start = some 0) :
    toRat? ((lp.columns.toList.zip x).foldl (accumulate row) start) =
      some ((∑ c ∈ Finset.range lp.numCols, v c : ℤ) : ℚ) := by
  have hlength : (lp.columns.toList.zip x).length = lp.numCols := by
    rw [List.length_zip, h.length_eq, Array.length_toList]
    exact Nat.min_self _
  rw [← hlength]
  refine toRat?_foldl_accumulate hstart (fun c column value hc => ?_) (hlength ▸ h.sum_lt)
  obtain ⟨hcolumn, hvalue⟩ := List.getElem?_zip_eq_some.mp hc
  obtain ⟨a, b, ha, hb, hproduct⟩ := h.term c value hvalue
  have hentry : lp.stored? row c = column[row]? := by
    rw [stored?, ← Array.getElem?_toList, hcolumn, Option.bind_some]
  rw [coefficient, hentry] at ha
  have hlt := h.product_lt c (h.length_eq ▸ (List.getElem?_eq_some_iff.mp hvalue).1)
  rw [← hproduct] at hlt ⊢
  cases hcoef : column[row]? with
  | some coef =>
    rw [hcoef] at ha
    exact toRat?_mul_int ha hb hlt
  | none =>
    rw [hcoef] at ha
    have hzero : (a : ℚ) = 0 := Option.some.inj (ha.symm.trans toRat?_zero)
    rw [Int.cast_eq_zero.mp hzero, zero_mul]

theorem ExactTerms.toRat?_rowActivity (h : ExactTerms lp x row v) :
    toRat? (lp.rowActivity row x) = some ((∑ c ∈ Finset.range lp.numCols, v c : ℤ) : ℚ) := by
  rw [rowActivity_eq]
  exact h.toRat?_foldl rfl

theorem ExactTerms.toRat?_gather (h : ExactTerms lp x row v) :
    toRat? (lp.gather x row) = some ((∑ c ∈ Finset.range lp.numCols, v c : ℤ) : ℚ) :=
  h.toRat?_foldl toRat?_zero

end

end PetriAnalysis.SparseLp
