import Mathlib.Algebra.BigOperators.Group.Finset.Piecewise
import Mathlib.Algebra.BigOperators.Group.Finset.Sigma
import PetriAnalysis.Proofs.Lp.Entries

/-!
# Sparse programs as plain matrices

A sparse program keeps a map for each column, and writes rows across all of them. What its
operations do and what its readers see can be said without these maps: a plain matrix has a bound
for each row and each column, and a partial map from cells to values. Whatever calls are made, and
whatever they are given, the two answer alike and stay in step. A call that appends so much that the
rows or columns would outgrow 64 bits faults, and changes nothing.

## Main definitions

* `LpCall`, `Reply` — the calls that change a program, and what they answer.
* `PlainMatrix`, `PlainMatrix.perform` — the reference.
* `Represents lp m` — a sparse program stores a plain matrix.
* `Lists l f` — a list has the entries of a partial map, in ascending order.
* `ReadsAs lp m` — all readers of a sparse program see a plain matrix.
-/

namespace PetriAnalysis

/-- The calls that change a program. -/
inductive LpCall where
  | addRows (count : ℕ)
  | addCols (count : ℕ)
  | setColumn (col : ℕ) (rows : List ℕ) (values : List Float)
  | setRow (row : ℕ) (cols : List ℕ) (values : List Float)
  | setRowBound (row : ℕ) (b : Bound)
  | setColBound (col : ℕ) (b : Bound)

/-- What such a call answers, but for the reason of a refusal. -/
inductive Reply where
  /-- The number of the first row or column that was appended. -/
  | first (index : ℕ)
  | faulted (e : Fault)
  | accepted
  | refused

/-- The replies to a sequence of calls, and what the calls leave. -/
def performAll {σ : Type} (perform : σ → LpCall → Reply × σ) : σ → List LpCall → List Reply × σ
  | s, [] => ([], s)
  | s, call :: calls =>
    let (reply, s') := perform s call
    let (replies, s'') := performAll perform s' calls
    (reply :: replies, s'')

/-! ## The reference -/

instance (bound : ℕ) (indices : List ℕ) (values : List Float) :
    Decidable (WellGiven bound indices values) :=
  decidable_of_iff (indices.length = values.length ∧ indices.Nodup ∧ ∀ i ∈ indices, i < bound)
    ⟨fun ⟨h₁, h₂, h₃⟩ => ⟨h₁, h₂, h₃⟩, fun ⟨h₁, h₂, h₃⟩ => ⟨h₁, h₂, h₃⟩⟩

/-- A bound for each row and each column, and a partial map from cells to values. -/
structure PlainMatrix where
  rowBounds : List Bound
  colBounds : List Bound
  /-- The value at a row and a column. -/
  cell : ℕ → ℕ → Option Float

namespace PlainMatrix

/-- The matrix without rows and columns. -/
def empty : PlainMatrix := ⟨[], [], fun _ _ => none⟩

/-- The number of rows. -/
def rows (m : PlainMatrix) : ℕ := m.rowBounds.length

/-- The number of columns. -/
def cols (m : PlainMatrix) : ℕ := m.colBounds.length

/-- Becomes `m'` if the arguments of the call are as they should be. -/
def change (m : PlainMatrix) (proper : Prop) [Decidable proper] (m' : PlainMatrix) :
    Reply × PlainMatrix :=
  if proper then (.accepted, m') else (.refused, m)

/-- Becomes `m'` by appending to `size` rows or columns, if their new number has 64 bits. -/
def append (m : PlainMatrix) (size count : ℕ) (m' : PlainMatrix) : Reply × PlainMatrix :=
  if size + count < UInt64.size then (.first size, m') else (.faulted .sumOverflow, m)

/-- Makes a call. New rows are free, new columns are bounded below by zero, and a sparse vector
replaces all values of its row or column. -/
def perform (m : PlainMatrix) : LpCall → Reply × PlainMatrix
  | .addRows count =>
    m.append m.rows count { m with rowBounds := m.rowBounds ++ List.replicate count .free }
  | .addCols count =>
    m.append m.cols count { m with colBounds := m.colBounds ++ List.replicate count (.lower 0) }
  | .setColumn col rows values =>
    m.change (col < m.cols ∧ WellGiven m.rows rows values) { m with
      cell := fun r c => if c = col then (rows.zip values).lookup r else m.cell r c }
  | .setRow row cols values =>
    m.change (row < m.rows ∧ WellGiven m.cols cols values) { m with
      cell := fun r c => if r = row then (cols.zip values).lookup c else m.cell r c }
  | .setRowBound row b =>
    m.change (row < m.rows ∧ b.Valid) { m with rowBounds := m.rowBounds.set row b }
  | .setColBound col b =>
    m.change (col < m.cols ∧ b.Valid) { m with colBounds := m.colBounds.set col b }

/-- Only cells within the matrix have a value. -/
def InRange (m : PlainMatrix) : Prop :=
  ∀ r c, (m.cell r c).isSome → r < m.rows ∧ c < m.cols

end PlainMatrix

/-! ## Sparse programs -/

/-- The reply to a change, and the program that it leaves. -/
def Reply.ofResult : EStateM.Result LpError SparseLp Unit → Reply × SparseLp
  | .ok () lp => (.accepted, lp)
  | .error _ lp => (.refused, lp)

/-- The reply to a call that appends, and the program that it leaves. -/
def Reply.ofAppend : EStateM.Result Fault SparseLp ℕ → Reply × SparseLp
  | .ok index lp => (.first index, lp)
  | .error e lp => (.faulted e, lp)

namespace SparseLp

/-- Makes a call on a sparse program. -/
def perform (lp : SparseLp) : LpCall → Reply × SparseLp
  | .addRows count => Reply.ofAppend (addRows count lp)
  | .addCols count => Reply.ofAppend (addCols count lp)
  | .setColumn col rows values => Reply.ofResult (setColumn col rows values lp)
  | .setRow row cols values => Reply.ofResult (setRow row cols values lp)
  | .setRowBound row b => Reply.ofResult (setRowBound row b lp)
  | .setColBound col b => Reply.ofResult (setColBound col b lp)

end SparseLp

/-- The sparse program stores the plain matrix. -/
structure Represents (lp : SparseLp) (m : PlainMatrix) : Prop where
  numCols_eq : lp.numCols = m.cols
  rowBounds_eq : lp.rowBounds.toList = m.rowBounds
  colBounds_eq : lp.colBounds.toList = m.colBounds
  stored?_eq : ∀ r c, lp.stored? r c = m.cell r c

open SparseLp

variable {lp lp' : SparseLp} {m m' : PlainMatrix}

theorem represents_empty : Represents .empty .empty :=
  ⟨rfl, rfl, rfl, fun _ _ => rfl⟩

namespace Represents

theorem numRows_eq (h : Represents lp m) : lp.numRows = m.rows := by
  rw [PlainMatrix.rows, ← h.rowBounds_eq, Array.length_toList]
  rfl

theorem rowBound?_eq (h : Represents lp m) (r : ℕ) : lp.rowBound? r = m.rowBounds[r]? := by
  rw [rowBound?, ← h.rowBounds_eq, Array.getElem?_toList]

theorem colBound?_eq (h : Represents lp m) (c : ℕ) : lp.colBound? c = m.colBounds[c]? := by
  rw [colBound?, ← h.colBounds_eq, Array.getElem?_toList]

/-- A plain matrix is stored in one way only. -/
theorem unique (h : Represents lp m) (h' : Represents lp' m) : lp' = lp := by
  refine SparseLp.ext ?_ ?_ ?_
  · have hsize : lp'.columns.size = lp.columns.size := h'.numCols_eq.trans h.numCols_eq.symm
    refine Array.ext hsize ?_
    intro c hc' hc
    refine Std.ExtTreeMap.ext_getElem? ?_
    intro r
    have hstored := (h'.stored?_eq r c).trans (h.stored?_eq r c).symm
    rwa [stored?, stored?, Array.getElem?_eq_getElem hc, Array.getElem?_eq_getElem hc'] at hstored
  · exact Array.toList_inj.mp (h'.colBounds_eq.trans h.colBounds_eq.symm)
  · exact Array.toList_inj.mp (h'.rowBounds_eq.trans h.rowBounds_eq.symm)

/-! ## One call -/

theorem size_colBounds (h : Represents lp m) : lp.colBounds.size = lp.numCols := by
  rw [h.numCols_eq, PlainMatrix.cols, ← h.colBounds_eq, Array.length_toList]

/-- Rows or columns are appended exactly if their new number has 64 bits, and otherwise nothing is
changed. -/
theorem append {act : Update SparseLp ℕ} {size size' count : ℕ} (h : Represents lp m)
    (hsize : size = size')
    (hlt : size + count < UInt64.size → act lp = .ok size lp' ∧ Represents lp' m')
    (hle : UInt64.size ≤ size + count → act lp = .error .sumOverflow lp) :
    (Reply.ofAppend (act lp)).1 = (m.append size' count m').1 ∧
      Represents (Reply.ofAppend (act lp)).2 (m.append size' count m').2 := by
  subst hsize
  rw [PlainMatrix.append]
  split_ifs with hroom
  · obtain ⟨hact, hstored⟩ := hlt hroom
    rw [hact]
    exact ⟨rfl, hstored⟩
  · rw [hle (Nat.le_of_not_lt hroom)]
    exact ⟨rfl, h⟩

theorem appendRows (h : Represents lp m) (count : ℕ) :
    Represents { lp with rowBounds := lp.rowBounds ++ Array.replicate count .free }
      { m with rowBounds := m.rowBounds ++ List.replicate count .free } where
  numCols_eq := h.numCols_eq
  rowBounds_eq := by rw [Array.toList_append, h.rowBounds_eq, Array.toList_replicate]
  colBounds_eq := h.colBounds_eq
  stored?_eq := h.stored?_eq

/-- The new columns are empty. -/
theorem appendCols (h : Represents lp m) (count : ℕ) :
    Represents { lp with
        columns := lp.columns ++ Array.replicate count ∅
        colBounds := lp.colBounds ++ Array.replicate count (.lower 0) }
      { m with colBounds := m.colBounds ++ List.replicate count (.lower 0) } where
  numCols_eq := by
    have hsize : lp.columns.size = m.colBounds.length := h.numCols_eq
    simp [numCols, PlainMatrix.cols, hsize]
  rowBounds_eq := h.rowBounds_eq
  colBounds_eq := by rw [Array.toList_append, h.colBounds_eq, Array.toList_replicate]
  stored?_eq r c := by
    change (lp.columns ++ Array.replicate count ∅)[c]?.bind (·[r]?) = m.cell r c
    rw [← h.stored?_eq r c, stored?]
    rcases Nat.lt_or_ge c lp.columns.size with hc | hc
    · rw [Array.getElem?_append_left hc]
    · rw [Array.getElem?_append_right hc, Array.getElem?_eq_none hc, Array.getElem?_replicate]
      split_ifs
      · simp
      · rfl

/-- A change of the entries alone. -/
theorem withCells (h : Represents lp m) (hcols : lp'.numCols = lp.numCols)
    (hcolBounds : lp'.colBounds = lp.colBounds) (hrowBounds : lp'.rowBounds = lp.rowBounds)
    {cell : ℕ → ℕ → Option Float} (hstored : ∀ r c, lp'.stored? r c = cell r c) :
    Represents lp' { m with cell } where
  numCols_eq := hcols.trans h.numCols_eq
  rowBounds_eq := hrowBounds ▸ h.rowBounds_eq
  colBounds_eq := hcolBounds ▸ h.colBounds_eq
  stored?_eq := hstored

/-- A change is accepted exactly if its arguments are as they should be, and a refused one
changes nothing. -/
theorem change {act : LpUpdate SparseLp Unit} {proper : Prop} [Decidable proper]
    (hcases : (∃ lp', act lp = .ok () lp') ∨ ∃ e, act lp = .error e lp)
    (hok : ∀ lp', act lp = .ok () lp' → proper ∧ Represents lp' m')
    (hproper : proper → ∃ lp', act lp = .ok () lp') (h : Represents lp m) :
    (Reply.ofResult (act lp)).1 = (m.change proper m').1 ∧
      Represents (Reply.ofResult (act lp)).2 (m.change proper m').2 := by
  rcases hcases with ⟨lp', hact⟩ | ⟨e, hact⟩
  · obtain ⟨hp, hlp'⟩ := hok lp' hact
    rw [hact, PlainMatrix.change, if_pos hp]
    exact ⟨rfl, hlp'⟩
  · have hp : ¬ proper := by
      intro hp
      obtain ⟨lp', hact'⟩ := hproper hp
      cases hact.symm.trans hact'
    rw [hact, PlainMatrix.change, if_neg hp]
    exact ⟨rfl, h⟩

/-- Every call is answered alike, and leaves the two in step. -/
theorem perform (h : Represents lp m) (call : LpCall) :
    (lp.perform call).1 = (m.perform call).1 ∧
      Represents (lp.perform call).2 (m.perform call).2 := by
  cases call with
  | addRows count =>
    exact h.append h.numRows_eq (fun hroom => ⟨addRows_of_lt hroom, h.appendRows count⟩)
      addRows_of_le
  | addCols count =>
    exact h.append h.numCols_eq
      (fun hroom => ⟨addCols_of_lt h.size_colBounds hroom, h.appendCols count⟩) addCols_of_le
  | setColumn col rows values =>
    refine h.change guarded_cases ?_ ?_
    · intro lp' hact
      have hset := setColumn_eq_ok hact
      refine ⟨⟨h.numCols_eq ▸ hset.col_lt, h.numRows_eq ▸ hset.given⟩, ?_⟩
      refine h.withCells hset.numCols_eq hset.colBounds_eq hset.rowBounds_eq ?_
      intro r c
      rw [hset.stored?_eq, h.stored?_eq]
    · rintro ⟨hcol, hgiven⟩
      exact exists_setColumn (h.numCols_eq.symm ▸ hcol) (h.numRows_eq.symm ▸ hgiven)
  | setRow row cols values =>
    refine h.change guarded_cases ?_ ?_
    · intro lp' hact
      have hset := setRow_eq_ok hact
      refine ⟨⟨h.numRows_eq ▸ hset.row_lt, h.numCols_eq ▸ hset.given⟩, ?_⟩
      refine h.withCells hset.numCols_eq hset.colBounds_eq hset.rowBounds_eq ?_
      intro r c
      rw [hset.stored?_eq, h.stored?_eq]
    · rintro ⟨hrow, hgiven⟩
      exact exists_setRow (h.numRows_eq.symm ▸ hrow) (h.numCols_eq.symm ▸ hgiven)
  | setRowBound row b =>
    refine h.change guarded_cases ?_ ?_
    · intro lp' hact
      obtain ⟨hrow, hvalid, rfl⟩ := setRowBound_eq_ok_iff.mp hact
      refine ⟨⟨h.numRows_eq ▸ hrow, hvalid⟩, h.numCols_eq, ?_, h.colBounds_eq, h.stored?_eq⟩
      rw [← h.rowBounds_eq, Array.toList_setIfInBounds]
    · rintro ⟨hrow, hvalid⟩
      exact ⟨_, setRowBound_eq_ok_iff.mpr ⟨h.numRows_eq.symm ▸ hrow, hvalid, rfl⟩⟩
  | setColBound col b =>
    refine h.change guarded_cases ?_ ?_
    · intro lp' hact
      obtain ⟨hcol, hvalid, rfl⟩ := setColBound_eq_ok_iff.mp hact
      refine ⟨⟨h.numCols_eq ▸ hcol, hvalid⟩, ?_, h.rowBounds_eq, ?_, h.stored?_eq⟩
      · exact h.numCols_eq.trans List.length_set.symm
      · rw [← h.colBounds_eq, Array.toList_setIfInBounds]
    · rintro ⟨hcol, hvalid⟩
      exact ⟨_, setColBound_eq_ok_iff.mpr ⟨h.numCols_eq.symm ▸ hcol, hvalid, rfl⟩⟩

end Represents

/-- A sparse vector has values only below its bound. -/
theorem WellGiven.lt_of_lookup {bound : ℕ} {indices : List ℕ} {values : List Float}
    (h : WellGiven bound indices values) {i : ℕ}
    (hi : ((indices.zip values).lookup i).isSome) : i < bound := by
  rw [lookup_isSome_iff_mem, List.map_fst_zip (Nat.le_of_eq h.length_eq)] at hi
  exact h.lt_bound i hi

namespace PlainMatrix

theorem InRange.cell_beyond_rows (h : m.InRange) {r : ℕ} (hr : m.rows ≤ r) (c : ℕ) :
    m.cell r c = none := by
  by_contra hcell
  exact (h r c (Option.isSome_iff_ne_none.mpr hcell)).1.not_ge hr

theorem InRange.cell_beyond_cols (h : m.InRange) {c : ℕ} (hc : m.cols ≤ c) (r : ℕ) :
    m.cell r c = none := by
  by_contra hcell
  exact (h r c (Option.isSome_iff_ne_none.mpr hcell)).2.not_ge hc

theorem InRange.change (h : m.InRange) {proper : Prop} [Decidable proper]
    (hproper : proper → m'.InRange) : (m.change proper m').2.InRange := by
  rw [PlainMatrix.change]
  split_ifs with hp
  · exact hproper hp
  · exact h

/-- The numbers of rows and columns have 64 bits. -/
structure Sized (m : PlainMatrix) : Prop where
  rows_lt : m.rows < UInt64.size
  cols_lt : m.cols < UInt64.size

/-- What holds before and after rows or columns have been appended holds after a call that appends
them. -/
theorem append_induct {P : PlainMatrix → Prop} (h : P m) {size count : ℕ}
    (happend : size + count < UInt64.size → P m') : P (m.append size count m').2 := by
  rw [PlainMatrix.append]
  split_ifs with hroom
  · exact happend hroom
  · exact h

/-- No call gives a value to a cell beyond the rows and columns. -/
theorem InRange.perform (h : m.InRange) (call : LpCall) : (m.perform call).2.InRange := by
  cases call with
  | addRows count =>
    refine append_induct h fun _ r c hcell => ?_
    obtain ⟨hr, hc⟩ := h r c hcell
    refine ⟨?_, hc⟩
    rw [rows, List.length_append]
    exact Nat.lt_add_right _ hr
  | addCols count =>
    refine append_induct h fun _ r c hcell => ?_
    obtain ⟨hr, hc⟩ := h r c hcell
    refine ⟨hr, ?_⟩
    rw [cols, List.length_append]
    exact Nat.lt_add_right _ hc
  | setColumn col rows values =>
    refine h.change ?_
    rintro ⟨hcol, hgiven⟩ r c hcell
    dsimp only at hcell
    split_ifs at hcell with hc
    · exact ⟨hgiven.lt_of_lookup hcell, hc ▸ hcol⟩
    · exact h r c hcell
  | setRow row cols values =>
    refine h.change ?_
    rintro ⟨hrow, hgiven⟩ r c hcell
    dsimp only at hcell
    split_ifs at hcell with hr
    · exact ⟨hr ▸ hrow, hgiven.lt_of_lookup hcell⟩
    · exact h r c hcell
  | setRowBound row b =>
    refine h.change fun _ r c hcell => ?_
    rw [rows, List.length_set]
    exact h r c hcell
  | setColBound col b =>
    refine h.change fun _ r c hcell => ?_
    rw [cols, List.length_set]
    exact h r c hcell

end PlainMatrix

/-! ## Readers -/

/-- The list has the entries of `f`, by strictly ascending index. -/
structure Lists (l : List (ℕ × Float)) (f : ℕ → Option Float) : Prop where
  ascending : (l.map Prod.fst).Pairwise (· < ·)
  mem_iff : ∀ i x, (i, x) ∈ l ↔ f i = some x

namespace Lists

variable {l l' : List (ℕ × Float)} {f : ℕ → Option Float}

/-- There is one list of the entries of a partial map. -/
theorem unique (h : Lists l f) (h' : Lists l' f) : l = l' := by
  have hsorted : l.Pairwise fun e e' => e.1 < e'.1 := List.pairwise_map.mp h.ascending
  have hsorted' : l'.Pairwise fun e e' => e.1 < e'.1 := List.pairwise_map.mp h'.ascending
  have hperm : l.Perm l' := by
    rw [List.perm_ext_iff_of_nodup (hsorted.imp fun hlt heq => hlt.ne (congrArg Prod.fst heq))
      (hsorted'.imp fun hlt heq => hlt.ne (congrArg Prod.fst heq))]
    rintro ⟨i, x⟩
    rw [h.mem_iff, h'.mem_iff]
  exact hperm.eq_of_pairwise (fun e e' _ _ hlt hgt => absurd hgt hlt.asymm) hsorted hsorted'

theorem eq_nil (h : Lists l f) (hf : ∀ i, f i = none) : l = [] := by
  refine List.eq_nil_iff_forall_not_mem.mpr ?_
  rintro ⟨i, x⟩ hmem
  cases (hf i).symm.trans ((h.mem_iff i x).mp hmem)

theorem mem_map_iff (h : Lists l f) (i : ℕ) : i ∈ l.map Prod.fst ↔ (f i).isSome := by
  rw [Option.isSome_iff_exists, List.mem_map]
  constructor
  · rintro ⟨⟨i, x⟩, hmem, rfl⟩
    exact ⟨x, (h.mem_iff i x).mp hmem⟩
  · rintro ⟨x, hx⟩
    exact ⟨(i, x), (h.mem_iff i x).mpr hx, rfl⟩

/-- As many entries are listed as there are indices with a value. -/
theorem length_eq (h : Lists l f) {n : ℕ} (hn : ∀ i, (f i).isSome → i < n) :
    l.length = ((Finset.range n).filter fun i => (f i).isSome).card := by
  have hindices : (l.map Prod.fst).toFinset = (Finset.range n).filter fun i => (f i).isSome := by
    ext i
    rw [List.mem_toFinset, h.mem_map_iff, Finset.mem_filter, Finset.mem_range]
    exact ⟨fun hi => ⟨hn i hi, hi⟩, And.right⟩
  rw [← hindices, List.toFinset_card_of_nodup (h.ascending.imp Nat.ne_of_lt), List.length_map]

end Lists

/-- All readers of the sparse program see the plain matrix. -/
structure ReadsAs (lp : SparseLp) (m : PlainMatrix) : Prop where
  numRows_eq : lp.numRows = m.rows
  numCols_eq : lp.numCols = m.cols
  rowBound?_eq : ∀ r, lp.rowBound? r = m.rowBounds[r]?
  colBound?_eq : ∀ c, lp.colBound? c = m.colBounds[c]?
  coefficient_eq : ∀ r c, lp.coefficient r c = (m.cell r c).getD 0
  column : ∀ c, Lists (lp.column c) (m.cell · c)
  row : ∀ r, Lists (lp.row r) (m.cell r)
  column_beyond : ∀ c, m.cols ≤ c → lp.column c = []
  row_beyond : ∀ r, m.rows ≤ r → lp.row r = []
  /-- The stored entries are counted cell by cell, column by column and row by row. -/
  nonzeros_eq : ∃ cells : Finset (ℕ × ℕ), (∀ r c, (r, c) ∈ cells ↔ (m.cell r c).isSome) ∧
    lp.nonzeros = cells.card
  nonzeros_columns : lp.nonzeros = ∑ c ∈ Finset.range m.cols, (lp.column c).length
  nonzeros_rows : lp.nonzeros = ∑ r ∈ Finset.range m.rows, (lp.row r).length

namespace SparseLp

theorem lists_column (lp : SparseLp) (c : ℕ) : Lists (lp.column c) (lp.stored? · c) := by
  rw [column]
  simp only [stored?]
  cases lp.columns[c]? with
  | none => exact ⟨List.Pairwise.nil, by simp⟩
  | some column =>
    refine ⟨?_, ?_⟩
    · rw [Std.ExtTreeMap.map_fst_toList_eq_keys]
      exact Std.ExtTreeMap.ordered_keys.imp Nat.compare_eq_lt.mp
    · intro r x
      rw [Std.ExtTreeMap.mem_toList_iff_getElem?_eq_some, Option.bind_some]

theorem lists_row (lp : SparseLp) (r : ℕ) : Lists (lp.row r) (lp.stored? r) := by
  refine ⟨?_, ?_⟩
  · have hcols : (lp.columns.toList.zipIdx.map Prod.snd).Pairwise (· < ·) := by
      rw [List.zipIdx_map_snd]
      exact List.pairwise_lt_range'
    rw [row, List.pairwise_map, List.pairwise_filterMap]
    refine (List.pairwise_map.mp hcols).imp ?_
    intro entry entry' hlt b hb b' hb'
    obtain ⟨x, -, rfl⟩ := Option.map_eq_some_iff.mp hb
    obtain ⟨x', -, rfl⟩ := Option.map_eq_some_iff.mp hb'
    exact hlt
  · intro c x
    rw [row, List.mem_filterMap, stored?, Option.bind_eq_some_iff]
    constructor
    · rintro ⟨⟨column, c'⟩, hmem, hentry⟩
      obtain ⟨x', hx', heq⟩ := Option.map_eq_some_iff.mp hentry
      cases heq
      exact ⟨column, by simpa using List.mk_mem_zipIdx_iff_getElem?.mp hmem, hx'⟩
    · rintro ⟨column, hcolumn, hx⟩
      refine ⟨(column, c), List.mk_mem_zipIdx_iff_getElem?.mpr (by simpa using hcolumn), ?_⟩
      dsimp only
      rw [hx, Option.map_some]

theorem nonzeros_eq_sum (lp : SparseLp) :
    lp.nonzeros = ∑ c ∈ Finset.range lp.numCols, (lp.column c).length := by
  rw [nonzeros, numCols, ← Array.length_toList]
  simp only [column, ← Array.getElem?_toList]
  induction lp.columns.toList using List.reverseRecOn with
  | nil => rfl
  | append_singleton columns last ih =>
    rw [List.foldl_append, ih, List.length_append, List.length_singleton, Finset.sum_range_succ,
      List.getElem?_concat_length]
    refine congrArg₂ (· + ·) (Finset.sum_congr rfl ?_) Std.ExtTreeMap.length_toList.symm
    intro c hc
    rw [List.getElem?_append_left (Finset.mem_range.mp hc)]

end SparseLp

theorem Represents.readsAs (h : Represents lp m) (hrange : m.InRange) : ReadsAs lp m := by
  have hcolumn (c : ℕ) : Lists (lp.column c) (m.cell · c) := by
    simpa only [h.stored?_eq] using lp.lists_column c
  have hrow (r : ℕ) : Lists (lp.row r) (m.cell r) :=
    funext (h.stored?_eq r) ▸ lp.lists_row r
  have hlengths : lp.nonzeros = ∑ c ∈ Finset.range m.cols,
      ((Finset.range m.rows).filter fun r => (m.cell r c).isSome).card := by
    rw [lp.nonzeros_eq_sum, h.numCols_eq]
    refine Finset.sum_congr rfl ?_
    intro c _
    exact (hcolumn c).length_eq fun r hr => (hrange r c hr).1
  constructor
  case numRows_eq => exact h.numRows_eq
  case numCols_eq => exact h.numCols_eq
  case rowBound?_eq => exact h.rowBound?_eq
  case colBound?_eq => exact h.colBound?_eq
  case coefficient_eq =>
    intro r c
    rw [coefficient, h.stored?_eq]
  case column => exact hcolumn
  case row => exact hrow
  case column_beyond =>
    intro c hc
    exact (hcolumn c).eq_nil (hrange.cell_beyond_cols hc)
  case row_beyond =>
    intro r hr
    exact (hrow r).eq_nil (hrange.cell_beyond_rows hr)
  case nonzeros_eq =>
    refine ⟨(Finset.range m.rows ×ˢ Finset.range m.cols).filter fun e => (m.cell e.1 e.2).isSome,
      ?_, ?_⟩
    · intro r c
      rw [Finset.mem_filter, Finset.mem_product, Finset.mem_range, Finset.mem_range]
      exact ⟨And.right, fun hcell => ⟨hrange r c hcell, hcell⟩⟩
    · rw [hlengths, Finset.card_filter, Finset.sum_product_right]
      simp only [Finset.card_filter]
  case nonzeros_columns => rw [lp.nonzeros_eq_sum, h.numCols_eq]
  case nonzeros_rows =>
    simp only [hlengths, Finset.card_filter]
    rw [Finset.sum_comm]
    refine Finset.sum_congr rfl ?_
    intro r _
    rw [(hrow r).length_eq fun c hc => (hrange r c hc).2, Finset.card_filter]

/-! ## Whole runs -/

/-- Along a run all calls are answered alike, and the two stay in step. -/
theorem Represents.performAll (h : Represents lp m) (hrange : m.InRange) (calls : List LpCall) :
    (performAll SparseLp.perform lp calls).1 = (performAll PlainMatrix.perform m calls).1 ∧
      Represents (performAll SparseLp.perform lp calls).2
        (performAll PlainMatrix.perform m calls).2 ∧
      (performAll PlainMatrix.perform m calls).2.InRange := by
  induction calls generalizing lp m with
  | nil => exact ⟨rfl, h, hrange⟩
  | cons call calls ih =>
    obtain ⟨hreply, hnext⟩ := h.perform call
    obtain ⟨hreplies, hlast, hrange'⟩ := ih hnext (hrange.perform call)
    exact ⟨congrArg₂ List.cons hreply hreplies, hlast, hrange'⟩

/-- Whatever calls are made on the empty program, also if they are refused or fault, they are
answered as on a plain matrix. In the end the program is the only one that stores the matrix, and
all readers see the matrix. -/
theorem runs_as_matrix (calls : List LpCall) :
    let (replies, lp) := performAll SparseLp.perform .empty calls;
    let (replies', m) := performAll PlainMatrix.perform .empty calls;
    replies = replies' ∧ Represents lp m ∧ (∀ lp', Represents lp' m → lp' = lp) ∧
      ReadsAs lp m := by
  have hrange : PlainMatrix.empty.InRange := by
    intro r c hcell
    cases hcell
  obtain ⟨hreplies, hstored, hrange'⟩ := represents_empty.performAll hrange calls
  exact ⟨hreplies, hstored, fun lp' hlp' => hstored.unique hlp', hstored.readsAs hrange'⟩

end PetriAnalysis
