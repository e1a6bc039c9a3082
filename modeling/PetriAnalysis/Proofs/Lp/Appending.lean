import PetriAnalysis.Proofs.Lp.RowByRow

/-!
# Appending rows and columns

A query takes a copy of a program and states its goal in rows and columns of its own. Appended rows
are written into the columns that hold the old rows as well, but at other keys, and appended
columns have no entry in an old row. So the old rows keep their entries, their bounds and their
activities, and the same ones of them are violated as before.

## Main definitions

* `LpCall.Beyond rows call` — the call changes no row below number `rows`.
* `PlainMatrix.ExtendedTo m m'` — `m'` has the rows and columns of `m`, and maybe more.
* `SparseLp.KeepsRows lp lp' x y` — the rows of `lp` are read alike in `lp'`.
-/

namespace PetriAnalysis

/-- The call appends rows or columns, changes a row from number `rows` on, or bounds a column. -/
def LpCall.Beyond (rows : ℕ) : LpCall → Prop
  | .addRows _ | .addCols _ | .setColBound _ _ => True
  | .setRow row _ _ | .setRowBound row _ => rows ≤ row
  | .setColumn _ _ _ => False

/-! ## Plain matrices -/

namespace PlainMatrix

/-- `m'` has at least the rows and columns of `m`, and the rows of `m` are as they were. -/
structure ExtendedTo (m m' : PlainMatrix) : Prop where
  rows_le : m.rows ≤ m'.rows
  cols_le : m.cols ≤ m'.cols
  cell_eq : ∀ r < m.rows, m'.cell r = m.cell r
  rowBound_eq : ∀ r < m.rows, m'.rowBounds[r]? = m.rowBounds[r]?

namespace ExtendedTo

variable {m m' m'' : PlainMatrix}

theorem refl (m : PlainMatrix) : m.ExtendedTo m :=
  ⟨le_rfl, le_rfl, fun _ _ => rfl, fun _ _ => rfl⟩

theorem change (h : m.ExtendedTo m') {proper : Prop} [Decidable proper] (h' : m.ExtendedTo m'') :
    m.ExtendedTo (m'.change proper m'').2 := by
  rw [PlainMatrix.change]
  split_ifs
  · exact h'
  · exact h

/-- A call beyond the rows of `m` leaves them alone. -/
theorem perform (h : m.ExtendedTo m') {call : LpCall} (hcall : call.Beyond m.rows) :
    m.ExtendedTo (m'.perform call).2 := by
  cases call with
  | addRows count =>
    refine append_induct h fun _ => { h with rows_le := ?_, rowBound_eq := ?_ }
    · change m.rows ≤ (m'.rowBounds ++ _).length
      rw [List.length_append]
      exact Nat.le_add_right_of_le h.rows_le
    · intro r hr
      rw [List.getElem?_append_left (hr.trans_le h.rows_le), h.rowBound_eq r hr]
  | addCols count =>
    refine append_induct h fun _ => { h with cols_le := ?_ }
    change m.cols ≤ (m'.colBounds ++ _).length
    rw [List.length_append]
    exact Nat.le_add_right_of_le h.cols_le
  | setColumn col rows values => cases hcall
  | setRow row cols values =>
    refine h.change { h with cell_eq := ?_ }
    intro r hr
    have hne : r ≠ row := (hr.trans_le hcall).ne
    simp only [if_neg hne, h.cell_eq r hr]
  | setRowBound row b =>
    refine h.change { h with rows_le := ?_, rowBound_eq := ?_ }
    · change m.rows ≤ (m'.rowBounds.set row b).length
      rw [List.length_set]
      exact h.rows_le
    · intro r hr
      have hne : row ≠ r := (hr.trans_le hcall).ne'
      rw [List.getElem?_set_ne hne, h.rowBound_eq r hr]
  | setColBound col b =>
    refine h.change { h with cols_le := ?_ }
    change m.cols ≤ (m'.colBounds.set col b).length
    rw [List.length_set]
    exact h.cols_le

theorem performAll (h : m.ExtendedTo m') {calls : List LpCall}
    (hcalls : ∀ call ∈ calls, call.Beyond m.rows) :
    m.ExtendedTo (performAll PlainMatrix.perform m' calls).2 := by
  induction calls generalizing m' with
  | nil => exact h
  | cons call calls ih =>
    obtain ⟨hcall, hcalls⟩ := List.forall_mem_cons.mp hcalls
    exact ih (h.perform hcall) hcalls

end ExtendedTo

/-- `m'` has the cells of `m`, and its rows followed by free ones. -/
structure AppendedTo (m m' : PlainMatrix) : Prop where
  cell_eq : m'.cell = m.cell
  rowBounds_eq : ∃ k, m'.rowBounds = m.rowBounds ++ List.replicate k .free

namespace AppendedTo

variable {m m' : PlainMatrix}

theorem refl (m : PlainMatrix) : m.AppendedTo m := ⟨rfl, 0, (List.append_nil _).symm⟩

theorem addRows (h : m.AppendedTo m') (count : ℕ) :
    m.AppendedTo (m'.perform (.addRows count)).2 := by
  obtain ⟨hcell, k, hbounds⟩ := h
  refine append_induct ⟨hcell, k, hbounds⟩ fun _ => ⟨hcell, k + count, ?_⟩
  rw [hbounds, List.append_assoc, List.replicate_append_replicate]

theorem addCols (h : m.AppendedTo m') (count : ℕ) :
    m.AppendedTo (m'.perform (.addCols count)).2 :=
  append_induct h fun _ => ⟨h.cell_eq, h.rowBounds_eq⟩

end AppendedTo

end PlainMatrix

/-! ## Reading old rows -/

theorem filterMap_range_of_none {α : Type} {f : ℕ → Option α} {n k : ℕ} (hle : n ≤ k)
    (hnone : ∀ c, n ≤ c → f c = none) :
    (List.range k).filterMap f = (List.range n).filterMap f := by
  obtain ⟨d, rfl⟩ := Nat.exists_eq_add_of_le hle
  have hrest : ((List.range d).map (n + ·)).filterMap f = [] := by
    rw [List.filterMap_map, List.filterMap_eq_nil_iff]
    intro c _
    exact hnone (n + c) (Nat.le_add_right n c)
  rw [List.range_add, List.filterMap_append, hrest, List.append_nil]

namespace SparseLp

variable {lp lp' : SparseLp} {x : List Float} {row : ℕ}

/-- `lp'` has at least the rows and columns of `lp`, and the rows of `lp` are as they were. -/
structure ExtendedTo (lp lp' : SparseLp) : Prop where
  numRows_le : lp.numRows ≤ lp'.numRows
  numCols_le : lp.numCols ≤ lp'.numCols
  stored?_eq : ∀ r < lp.numRows, lp'.stored? r = lp.stored? r
  rowBound?_eq : ∀ r < lp.numRows, lp'.rowBound? r = lp.rowBound? r

theorem stored?_of_le {c : ℕ} (hc : lp.numCols ≤ c) : lp.stored? row c = none := by
  rw [stored?, Array.getElem?_eq_none hc, Option.bind_none]

namespace ExtendedTo

/-- Appended columns add no term to an old row. -/
theorem terms_append (h : lp.ExtendedTo lp') (hrow : row < lp.numRows)
    (hx : x.length = lp.numCols) (z : List Float) : lp'.terms (x ++ z) row = lp.terms x row := by
  have hle : lp.numCols ≤ min lp'.numCols (x ++ z).length := by
    have := h.numCols_le
    rw [List.length_append]
    omega
  rw [terms, terms, h.stored?_eq row hrow, hx, Nat.min_self, filterMap_range_of_none hle]
  · refine List.filterMap_congr ?_
    intro c hc
    have hlt : c < x.length := hx ▸ List.mem_range.mp hc
    rw [List.getD_append x z 0 c hlt]
  · intro c hc
    rw [stored?_of_le hc, Option.map_none]

theorem meets_append (h : lp.ExtendedTo lp') (hrow : row < lp.numRows)
    (hx : x.length = lp.numCols) (z : List Float) : lp'.meets (x ++ z) row = lp.meets x row := by
  rw [meets, meets, h.rowBound?_eq row hrow, gather_eq_terms, gather_eq_terms,
    h.terms_append hrow hx]

end ExtendedTo

/-- A free row without entries is not violated. -/
theorem meets_of_free (hbound : lp.rowBound? row = some .free)
    (hempty : ∀ c, lp.stored? row c = none) (x : List Float) : lp.meets x row = true := by
  rw [meets, hbound, Option.all_some, gather_of_empty hempty]
  exact Bound.contains_free Double.toRat?_zero

/-- The rows of `lp` are read alike in `lp'`, the vector `y` taking the place of `x`. -/
structure KeepsRows (lp lp' : SparseLp) (x y : List Float) : Prop where
  row_eq : ∀ r < lp.numRows, lp'.row r = lp.row r
  rowBound?_eq : ∀ r < lp.numRows, lp'.rowBound? r = lp.rowBound? r
  rowActivity_eq : ∀ r < lp.numRows, lp'.rowActivity r y = lp.rowActivity r x
  violated_iff : ∃ rows rows', lp.violatedRows x = .ok rows ∧ lp'.violatedRows y = .ok rows' ∧
    ∀ r < lp.numRows, r ∈ rows' ↔ r ∈ rows

/-- All readers of an extended program see the old rows. -/
theorem ExtendedTo.keepsRows (h : lp.ExtendedTo lp') (hrange : lp.RowsInRange)
    (hrange' : lp'.RowsInRange) (hx : x.length = lp.numCols) (z : List Float) :
    KeepsRows lp lp' x (x ++ z) := by
  constructor
  case row_eq =>
    intro r hr
    exact (h.stored?_eq r hr ▸ lp'.lists_row r).unique (lp.lists_row r)
  case rowBound?_eq => exact h.rowBound?_eq
  case rowActivity_eq =>
    intro r hr
    rw [rowActivity_eq_terms, rowActivity_eq_terms, h.terms_append hr hx]
  case violated_iff =>
    refine ⟨_, _, hrange.violatedRows_eq x, hrange'.violatedRows_eq (x ++ z), ?_⟩
    intro r hr
    have hr' := hr.trans_le h.numRows_le
    simp only [List.mem_filter, List.mem_range, hr, hr', h.meets_append hr hx, true_and]

/-- If the new rows are free and empty, the violated rows are the old ones. -/
theorem ExtendedTo.violatedRows_eq (h : lp.ExtendedTo lp') (hrange : lp.RowsInRange)
    (hrange' : lp'.RowsInRange) (hx : x.length = lp.numCols) (z : List Float)
    (hnew : ∀ r, lp.numRows ≤ r → r < lp'.numRows →
      lp'.rowBound? r = some .free ∧ ∀ c, lp'.stored? r c = none) :
    lp'.violatedRows (x ++ z) = lp.violatedRows x := by
  obtain ⟨rows, hrows⟩ := Nat.exists_eq_add_of_le h.numRows_le
  have hmet : ((List.range rows).map (lp.numRows + ·)).filter
      (fun r => !lp'.meets (x ++ z) r) = [] := by
    rw [List.filter_eq_nil_iff, List.forall_mem_map]
    intro k hk
    have hk := List.mem_range.mp hk
    obtain ⟨hbound, hempty⟩ := hnew (lp.numRows + k) (Nat.le_add_right _ _) (by omega)
    simp [meets_of_free hbound hempty]
  rw [hrange'.violatedRows_eq, hrange.violatedRows_eq, hrows, List.range_add, List.filter_append,
    hmet, List.append_nil]
  refine congrArg Except.ok (List.filter_congr ?_)
  intro r hr
  rw [h.meets_append (List.mem_range.mp hr) hx]

end SparseLp

open SparseLp

namespace Represents

variable {lp lp' : SparseLp} {m m' : PlainMatrix}

theorem extendedTo (h : Represents lp m) (h' : Represents lp' m') (hext : m.ExtendedTo m') :
    lp.ExtendedTo lp' := by
  constructor
  case numRows_le => simpa only [h.numRows_eq, h'.numRows_eq] using hext.rows_le
  case numCols_le => simpa only [h.numCols_eq, h'.numCols_eq] using hext.cols_le
  case stored?_eq =>
    intro r hr
    funext c
    rw [h.stored?_eq, h'.stored?_eq, hext.cell_eq r (h.numRows_eq ▸ hr)]
  case rowBound?_eq =>
    intro r hr
    rw [h.rowBound?_eq, h'.rowBound?_eq, hext.rowBound_eq r (h.numRows_eq ▸ hr)]

end Represents

/-! ## Calls beyond the old rows -/

namespace SparseLp.Reachable

variable {lp : SparseLp} {calls : List LpCall} {x : List Float}

theorem extendedTo (h : lp.Reachable) (hcalls : ∀ call ∈ calls, call.Beyond lp.numRows) :
    lp.ExtendedTo (lp.afterCalls calls) := by
  obtain ⟨m, hstored, hrange⟩ := h.exists_represents
  obtain ⟨-, hstored', -⟩ := hstored.performAll hrange calls
  rw [hstored.numRows_eq] at hcalls
  exact hstored.extendedTo hstored' ((PlainMatrix.ExtendedTo.refl m).performAll hcalls)

/-- Calls beyond the rows of a program keep what is read of them. -/
theorem keepsRows (h : lp.Reachable) (hcalls : ∀ call ∈ calls, call.Beyond lp.numRows)
    (hx : x.length = lp.numCols) (z : List Float) :
    KeepsRows lp (lp.afterCalls calls) x (x ++ z) :=
  (h.extendedTo hcalls).keepsRows h.rowsInRange (h.afterCalls calls).rowsInRange hx z

/-- Rows that have just been appended are free and have no entries. -/
theorem appended_row (h : lp.Reachable) (rows cols : ℕ) {r : ℕ} (hold : lp.numRows ≤ r)
    (hr : r < (lp.afterCalls [.addRows rows, .addCols cols]).numRows) :
    (lp.afterCalls [.addRows rows, .addCols cols]).rowBound? r = some .free ∧
      ∀ c, (lp.afterCalls [.addRows rows, .addCols cols]).stored? r c = none := by
  obtain ⟨m, hstored, hrange⟩ := h.exists_represents
  obtain ⟨-, hstored', -⟩ := hstored.performAll hrange [.addRows rows, .addCols cols]
  generalize hm : (performAll PlainMatrix.perform m [.addRows rows, .addCols cols]).2 = m'
    at hstored'
  obtain ⟨hcell, k, hbounds⟩ : m.AppendedTo m' :=
    hm ▸ ((PlainMatrix.AppendedTo.refl m).addRows rows).addCols cols
  rw [hstored.numRows_eq, PlainMatrix.rows] at hold
  rw [SparseLp.afterCalls, hstored'.numRows_eq, PlainMatrix.rows, hbounds, List.length_append,
    List.length_replicate] at hr
  refine ⟨?_, ?_⟩
  · rw [SparseLp.afterCalls, hstored'.rowBound?_eq, hbounds, List.getElem?_append_right hold,
      List.getElem?_replicate, if_pos (by omega)]
  · intro c
    rw [SparseLp.afterCalls, hstored'.stored?_eq, hcell, hrange.cell_beyond_rows hold]

/-- Rows and columns that have only been appended violate nothing. -/
theorem violatedRows_appended (h : lp.Reachable) (hx : x.length = lp.numCols) (z : List Float)
    (rows cols : ℕ) : (lp.afterCalls [.addRows rows, .addCols cols]).violatedRows (x ++ z) =
      lp.violatedRows x := by
  have hbeyond : ∀ call ∈ [LpCall.addRows rows, .addCols cols], call.Beyond lp.numRows := by
    simp [LpCall.Beyond]
  refine (h.extendedTo hbeyond).violatedRows_eq h.rowsInRange (h.afterCalls _).rowsInRange hx z ?_
  intro r hold hr
  exact h.appended_row rows cols hold hr

end SparseLp.Reachable

end PetriAnalysis
