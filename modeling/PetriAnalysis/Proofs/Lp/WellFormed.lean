import PetriAnalysis.Proofs.Lp.Activity
import PetriAnalysis.Proofs.Lp.Bounds
import PetriAnalysis.Proofs.Lp.PlainMatrix

/-!
# Well-formed sparse programs

A sparse program has three arrays, and nothing in its type ties them together. In a well-formed one
there is a bound for each column, the columns have entries in existing rows only, all bounds are
ordered, and the numbers of rows and columns have 64 bits. This is what it takes to store a plain
matrix, and calls on the two stay in step; so every call keeps a program well-formed, whether it is
accepted or refused.

## Main definitions

* `PlainMatrix.BoundsOrdered`.
* `SparseLp.WellFormed` — the representation invariant.
* `SparseLp.plain lp` — the plain matrix that a well-formed program stores.
-/

namespace PetriAnalysis

namespace PlainMatrix

variable {m m' : PlainMatrix}

/-- The sides of all bounds are numbers in ascending order. -/
structure BoundsOrdered (m : PlainMatrix) : Prop where
  row : ∀ b ∈ m.rowBounds, b.Ordered
  col : ∀ b ∈ m.colBounds, b.Ordered

theorem Sized.change (h : m.Sized) {proper : Prop} [Decidable proper]
    (hproper : proper → m'.Sized) : (m.change proper m').2.Sized := by
  rw [PlainMatrix.change]
  split_ifs with hp
  · exact hproper hp
  · exact h

/-- Only as many rows and columns are appended as 64 bits can count. -/
theorem Sized.perform (h : m.Sized) (call : LpCall) : (m.perform call).2.Sized := by
  cases call with
  | addRows count =>
    refine append_induct h fun hroom => { h with rows_lt := ?_ }
    rwa [rows, List.length_append, List.length_replicate]
  | addCols count =>
    refine append_induct h fun hroom => { h with cols_lt := ?_ }
    rwa [cols, List.length_append, List.length_replicate]
  | setColumn col rows values => exact h.change fun _ => { h with }
  | setRow row cols values => exact h.change fun _ => { h with }
  | setRowBound row b =>
    refine h.change fun _ => { h with rows_lt := ?_ }
    rw [rows, List.length_set]
    exact h.rows_lt
  | setColBound col b =>
    refine h.change fun _ => { h with cols_lt := ?_ }
    rw [cols, List.length_set]
    exact h.cols_lt

theorem BoundsOrdered.change (h : m.BoundsOrdered) {proper : Prop} [Decidable proper]
    (hproper : proper → m'.BoundsOrdered) : (m.change proper m').2.BoundsOrdered := by
  rw [PlainMatrix.change]
  split_ifs with hp
  · exact hproper hp
  · exact h

/-- New bounds are ordered, and a bound that is not is refused. -/
theorem BoundsOrdered.perform (h : m.BoundsOrdered) (call : LpCall) :
    (m.perform call).2.BoundsOrdered := by
  cases call with
  | addRows count =>
    refine append_induct h fun _ => { h with row := ?_ }
    intro b hb
    rcases List.mem_append.mp hb with hb | hb
    · exact h.row b hb
    · obtain rfl := List.eq_of_mem_replicate hb
      exact (Bound.ordered_iff_valid _).mpr Bound.valid_free
  | addCols count =>
    refine append_induct h fun _ => { h with col := ?_ }
    intro b hb
    rcases List.mem_append.mp hb with hb | hb
    · exact h.col b hb
    · obtain rfl := List.eq_of_mem_replicate hb
      exact (Bound.ordered_iff_valid _).mpr (Bound.valid_lower Double.toRat?_zero)
  | setColumn col rows values => exact h.change fun _ => { h with }
  | setRow row cols values => exact h.change fun _ => { h with }
  | setRowBound row b =>
    refine h.change fun hproper => { h with row := ?_ }
    intro b' hb'
    rcases List.mem_or_eq_of_mem_set hb' with hb' | rfl
    · exact h.row b' hb'
    · exact (Bound.ordered_iff_valid _).mpr hproper.2
  | setColBound col b =>
    refine h.change fun hproper => { h with col := ?_ }
    intro b' hb'
    rcases List.mem_or_eq_of_mem_set hb' with hb' | rfl
    · exact h.col b' hb'
    · exact (Bound.ordered_iff_valid _).mpr hproper.2

end PlainMatrix

namespace SparseLp

variable {lp : SparseLp} {m : PlainMatrix}

/-- The three arrays fit together, and all bounds are ordered. -/
structure WellFormed (lp : SparseLp) : Prop where
  numRows_lt : lp.numRows < UInt64.size
  numCols_lt : lp.numCols < UInt64.size
  /-- Each column has a bound. -/
  size_colBounds : lp.colBounds.size = lp.numCols
  rowsInRange : lp.RowsInRange
  rowBounds : ∀ b ∈ lp.rowBounds, b.Ordered
  colBounds : ∀ b ∈ lp.colBounds, b.Ordered

/-- The plain matrix of a program. -/
def plain (lp : SparseLp) : PlainMatrix := ⟨lp.rowBounds.toList, lp.colBounds.toList, lp.stored?⟩

theorem WellFormed.represents (h : lp.WellFormed) : Represents lp lp.plain :=
  ⟨h.size_colBounds.symm.trans Array.length_toList.symm, rfl, rfl, fun _ _ => rfl⟩

/-- Entries are stored within the rows and columns only. -/
theorem RowsInRange.lt_of_stored? (h : lp.RowsInRange) {r c : ℕ}
    (hentry : (lp.stored? r c).isSome) : r < lp.numRows ∧ c < lp.numCols := by
  obtain ⟨x, hx⟩ := Option.isSome_iff_exists.mp hentry
  obtain ⟨column, hcolumn, hr⟩ := Option.bind_eq_some_iff.mp hx
  obtain ⟨hc, rfl⟩ := Array.getElem?_eq_some_iff.mp hcolumn
  have hmem : r ∈ lp.columns[c] := by
    rw [Std.ExtTreeMap.mem_iff_isSome_getElem?, hr]
    rfl
  exact ⟨h _ (Array.getElem_mem hc) r hmem, hc⟩

theorem WellFormed.inRange (h : lp.WellFormed) : lp.plain.InRange := by
  intro r c hentry
  rw [← h.represents.numRows_eq, ← h.represents.numCols_eq]
  exact h.rowsInRange.lt_of_stored? hentry

theorem WellFormed.boundsOrdered (h : lp.WellFormed) : lp.plain.BoundsOrdered :=
  ⟨fun b hb => h.rowBounds b (Array.mem_toList_iff.mp hb),
    fun b hb => h.colBounds b (Array.mem_toList_iff.mp hb)⟩

theorem WellFormed.sized (h : lp.WellFormed) : lp.plain.Sized :=
  ⟨h.represents.numRows_eq ▸ h.numRows_lt, h.represents.numCols_eq ▸ h.numCols_lt⟩

/-- What stores a plain matrix is well-formed. -/
theorem wellFormed_of_represents (hstored : Represents lp m) (hsized : m.Sized)
    (hrange : m.InRange) (hordered : m.BoundsOrdered) : lp.WellFormed := by
  constructor
  case numRows_lt => exact hstored.numRows_eq ▸ hsized.rows_lt
  case numCols_lt => exact hstored.numCols_eq ▸ hsized.cols_lt
  case size_colBounds =>
    rw [← Array.length_toList, hstored.colBounds_eq, hstored.numCols_eq, PlainMatrix.cols]
  case rowsInRange =>
    refine rowsInRange_of_stored? ?_
    intro r c hr
    rw [hstored.stored?_eq, hrange.cell_beyond_rows (hstored.numRows_eq ▸ hr)]
  case rowBounds =>
    intro b hb
    exact hordered.row b (hstored.rowBounds_eq ▸ Array.mem_toList_iff.mpr hb)
  case colBounds =>
    intro b hb
    exact hordered.col b (hstored.colBounds_eq ▸ Array.mem_toList_iff.mpr hb)

theorem wellFormed_empty : empty.WellFormed := by
  refine wellFormed_of_represents represents_empty ⟨by decide, by decide⟩ ?_ ⟨?_, ?_⟩
  · intro r c hcell
    cases hcell
  · intro b hb
    cases hb
  · intro b hb
    cases hb

/-- Every call keeps a program well-formed. -/
theorem WellFormed.perform (h : lp.WellFormed) (call : LpCall) : (lp.perform call).2.WellFormed :=
  wellFormed_of_represents (h.represents.perform call).2 (h.sized.perform call)
    (h.inRange.perform call) (h.boundsOrdered.perform call)

end SparseLp

end PetriAnalysis
