import PetriAnalysis.Lp.Sparse
import PetriAnalysis.Proofs.Access

/-!
# What the operations of a sparse program change

A change of a sparse program is accepted exactly when its arguments are well-formed, and then it
changes what it names and nothing else. A sparse vector is given by a list of indices and a list
of values; it is well-formed when the lists have the same length and the indices are in range and
distinct, and then it has the value that the two lists give to an index.

## Main definitions

* `WellGiven bound indices values` — a well-formed sparse vector.
* `SparseLp.setColumn_eq_ok`, `SparseLp.setRow_eq_ok`, `SparseLp.setRowBound_eq_ok` — what an
  accepted change does.
-/

namespace PetriAnalysis

/-- A sparse vector whose indices are distinct and below `bound`. -/
structure WellGiven (bound : ℕ) (indices : List ℕ) (values : List Float) : Prop where
  length_eq : indices.length = values.length
  nodup : indices.Nodup
  lt_bound : ∀ i ∈ indices, i < bound

namespace SparseLp

/-! ## Appending -/

section

variable {lp : SparseLp} {count : ℕ}

theorem addRows_of_lt (h : lp.numRows + count < UInt64.size) :
    addRows count lp = .ok lp.numRows
      { lp with rowBounds := lp.rowBounds ++ Array.replicate count .free } := by
  simp only [addRows, sizeSum_of_lt h]
  rw [numRows, resize_add]

theorem addRows_of_le (h : UInt64.size ≤ lp.numRows + count) :
    addRows count lp = .error .sumOverflow lp := by
  simp only [addRows, sizeSum_of_le h]

/-- Where each column has its bound, columns and bounds are appended alike. -/
theorem addCols_of_lt (hsize : lp.colBounds.size = lp.numCols)
    (h : lp.numCols + count < UInt64.size) :
    addCols count lp = .ok lp.numCols { lp with
      columns := lp.columns ++ Array.replicate count ∅
      colBounds := lp.colBounds ++ Array.replicate count (.lower 0) } := by
  have hbounds := resize_add lp.colBounds count (.lower 0)
  rw [hsize] at hbounds
  simp only [addCols, sizeSum_of_lt h]
  rw [hbounds, numCols, resize_add]

theorem addCols_of_le (h : UInt64.size ≤ lp.numCols + count) :
    addCols count lp = .error .sumOverflow lp := by
  simp only [addCols, sizeSum_of_le h]

end

/-! ## Collecting a sparse vector -/

section

variable {check : ℕ → Except LpError Unit} {acc entries : Column} {entry : ℕ × Float}
  {pairs : List (ℕ × Float)}

theorem collectEntry_eq_ok_iff : collectEntry check acc entry = .ok entries ↔
    check entry.1 = .ok () ∧ entry.1 ∉ acc ∧ entries = acc.insert entry.1 entry.2 := by
  rw [collectEntry, bind_eq_ok_iff]
  by_cases h : entry.1 ∈ acc
  · simp [h, throw, throwThe, MonadExceptOf.throw, bind, Except.bind]
  · constructor
    · rintro ⟨⟨⟩, hcheck, h'⟩
      rw [if_neg h] at h'
      exact ⟨hcheck, h, (Except.ok.inj h').symm⟩
    · rintro ⟨hcheck, -, rfl⟩
      exact ⟨(), hcheck, if_neg h⟩

theorem getElem?_insert_eq (column : Column) (i j : ℕ) (x : Float) :
    (column.insert i x)[j]? = if i = j then some x else column[j]? := by
  rw [Std.ExtTreeMap.getElem?_insert]
  simp only [Nat.compare_eq_eq]

theorem getElem?_erase_eq (column : Column) (i j : ℕ) :
    (column.erase i)[j]? = if i = j then none else column[j]? := by
  rw [Std.ExtTreeMap.getElem?_erase]
  simp only [Nat.compare_eq_eq]

theorem mem_map_fst_toList {column : Column} {i : ℕ} :
    i ∈ column.toList.map Prod.fst ↔ i ∈ column := by
  rw [Std.ExtTreeMap.map_fst_toList_eq_keys, Std.ExtTreeMap.mem_keys]

/-- The rows of a column are distinct. -/
theorem nodup_toList (column : Column) : (column.toList.map Prod.fst).Nodup := by
  rw [Std.ExtTreeMap.map_fst_toList_eq_keys]
  exact Std.ExtTreeMap.nodup_keys

theorem lookup_toList (column : Column) (i : ℕ) : column.toList.lookup i = column[i]? := by
  ext x
  rw [lookup_eq_some_iff_mem (nodup_toList column), Std.ExtTreeMap.mem_toList_iff_getElem?_eq_some]

theorem collectEntries_of_ok (h : pairs.foldlM (collectEntry check) acc = .ok entries) :
    (∀ i ∈ pairs.map Prod.fst, check i = .ok () ∧ i ∉ acc) ∧ (pairs.map Prod.fst).Nodup ∧
      ∀ i, entries[i]? = (pairs.lookup i).or acc[i]? := by
  induction pairs generalizing acc with
  | nil =>
    obtain rfl : acc = entries := Except.ok.inj h
    simp
  | cons entry pairs ih =>
    obtain ⟨acc', hfirst, hrest⟩ := foldlM_cons_eq_ok_iff.mp h
    obtain ⟨hcheck, hfresh, rfl⟩ := collectEntry_eq_ok_iff.mp hfirst
    obtain ⟨hchecks, hnodup, hvalues⟩ := ih hrest
    have hnew : ∀ i ∈ pairs.map Prod.fst, entry.1 ≠ i ∧ i ∉ acc := by
      intro i hi
      have hfresh' := (hchecks i hi).2
      rw [Std.ExtTreeMap.mem_insert, Nat.compare_eq_eq, not_or] at hfresh'
      exact hfresh'
    refine ⟨?_, ?_, ?_⟩
    · intro i hi
      rcases List.mem_cons.mp hi with rfl | hi
      · exact ⟨hcheck, hfresh⟩
      · exact ⟨(hchecks i hi).1, (hnew i hi).2⟩
    · exact List.nodup_cons.mpr ⟨fun hi => (hnew _ hi).1 rfl, hnodup⟩
    · intro i
      rw [hvalues i, getElem?_insert_eq]
      by_cases hi : entry.1 = i
      · subst hi
        have hnone : pairs.lookup entry.1 = none :=
          lookup_eq_none_iff_notMem.mpr fun hi => (hnew _ hi).1 rfl
        rw [List.lookup_cons, beq_self_eq_true, hnone]
        simp
      · rw [List.lookup_cons, beq_false_of_ne (Ne.symm hi), if_neg hi]

theorem exists_collectEntries (hcheck : ∀ i ∈ pairs.map Prod.fst, check i = .ok () ∧ i ∉ acc)
    (hnodup : (pairs.map Prod.fst).Nodup) :
    ∃ entries, pairs.foldlM (collectEntry check) acc = .ok entries := by
  induction pairs generalizing acc with
  | nil => exact ⟨acc, rfl⟩
  | cons entry pairs ih =>
    obtain ⟨hnew, hnodup⟩ := List.nodup_cons.mp hnodup
    have hfirst := hcheck entry.1 List.mem_cons_self
    have hrest : ∀ i ∈ pairs.map Prod.fst, check i = .ok () ∧ i ∉ acc.insert entry.1 entry.2 := by
      intro i hi
      obtain ⟨hi₁, hi₂⟩ := hcheck i (List.mem_cons_of_mem _ hi)
      refine ⟨hi₁, ?_⟩
      intro h
      rcases Std.ExtTreeMap.mem_insert.mp h with h | h
      · exact hnew (Nat.compare_eq_eq.mp h ▸ hi)
      · exact hi₂ h
    obtain ⟨entries, hentries⟩ := ih hrest hnodup
    exact ⟨entries, foldlM_cons_eq_ok_iff.mpr
      ⟨_, collectEntry_eq_ok_iff.mpr ⟨hfirst.1, hfirst.2, rfl⟩, hentries⟩⟩

end

section

variable {check : ℕ → Except LpError Unit} {bound : ℕ} {indices : List ℕ} {values : List Float}
  {entries : Column}

/-- What a well-formed sparse vector is collected to. -/
theorem collect_eq_ok (hcheck : ∀ i, check i = .ok () ↔ i < bound)
    (h : collect check indices values = .ok entries) :
    WellGiven bound indices values ∧ ∀ i, entries[i]? = (indices.zip values).lookup i := by
  rw [collect] at h
  by_cases hlength : indices.length = values.length
  · rw [if_pos hlength] at h
    have hfst : (indices.zip values).map Prod.fst = indices :=
      List.map_fst_zip (Nat.le_of_eq hlength)
    obtain ⟨hchecks, hnodup, hvalues⟩ := collectEntries_of_ok h
    rw [hfst] at hchecks hnodup
    refine ⟨⟨hlength, hnodup, fun i hi => (hcheck i).mp (hchecks i hi).1⟩, ?_⟩
    intro i
    simpa using hvalues i
  · rw [if_neg hlength] at h
    cases h

/-- Well-formed sparse vectors are collected. -/
theorem exists_collect (hcheck : ∀ i, check i = .ok () ↔ i < bound)
    (h : WellGiven bound indices values) :
    ∃ entries, collect check indices values = .ok entries := by
  have hfst : (indices.zip values).map Prod.fst = indices :=
    List.map_fst_zip (Nat.le_of_eq h.length_eq)
  unfold collect
  rw [if_pos h.length_eq]
  refine exists_collectEntries ?_ (hfst.symm ▸ h.nodup)
  intro i hi
  rw [hfst] at hi
  exact ⟨(hcheck i).mpr (h.lt_bound i hi), Std.ExtTreeMap.not_mem_empty⟩

end

/-! ## Changes -/

variable {lp lp' : SparseLp}

@[simp] theorem checkRow_eq_ok (lp : SparseLp) (row : ℕ) :
    lp.checkRow row = .ok () ↔ row < lp.numRows := by
  unfold checkRow
  split_ifs with h <;> simp [h]

@[simp] theorem checkCol_eq_ok (lp : SparseLp) (col : ℕ) :
    lp.checkCol col = .ok () ↔ col < lp.numCols := by
  unfold checkCol
  split_ifs with h <;> simp [h]

@[simp] theorem checkBound_eq_ok (b : Bound) : checkBound b = .ok () ↔ b.Valid := by
  rw [checkBound]
  split_ifs with h <;> simp [h]

theorem guarded_eq_ok_iff {ε : Type} {check : SparseLp → Except LpError ε}
    {change : SparseLp → ε → SparseLp} :
    guarded check change lp = .ok () lp' ↔ ∃ e, check lp = .ok e ∧ lp' = change lp e := by
  rw [guarded]
  split <;> simp_all [eq_comm]

/-- A change is made, or it is refused and nothing is changed. -/
theorem guarded_cases {ε : Type} {check : SparseLp → Except LpError ε}
    {change : SparseLp → ε → SparseLp} : (∃ lp', guarded check change lp = .ok () lp') ∨
      ∃ e, guarded check change lp = .error e lp := by
  rw [guarded]
  cases check lp with
  | ok e => exact Or.inl ⟨_, rfl⟩
  | error e => exact Or.inr ⟨e, rfl⟩

/-- `lp'` has the given entries in one column, and is else as `lp`. -/
structure ColumnSet (lp : SparseLp) (col : ℕ) (rows : List ℕ) (values : List Float)
    (lp' : SparseLp) : Prop where
  col_lt : col < lp.numCols
  given : WellGiven lp.numRows rows values
  numCols_eq : lp'.numCols = lp.numCols
  colBounds_eq : lp'.colBounds = lp.colBounds
  rowBounds_eq : lp'.rowBounds = lp.rowBounds
  stored?_eq : ∀ r c, lp'.stored? r c =
    if c = col then (rows.zip values).lookup r else lp.stored? r c

/-- `lp'` has the given entries in one row, and is else as `lp`. -/
structure RowSet (lp : SparseLp) (row : ℕ) (cols : List ℕ) (values : List Float)
    (lp' : SparseLp) : Prop where
  row_lt : row < lp.numRows
  given : WellGiven lp.numCols cols values
  numCols_eq : lp'.numCols = lp.numCols
  colBounds_eq : lp'.colBounds = lp.colBounds
  rowBounds_eq : lp'.rowBounds = lp.rowBounds
  stored?_eq : ∀ r c, lp'.stored? r c =
    if r = row then (cols.zip values).lookup c else lp.stored? r c

/-- `lp'` has the given bound for one row, and is else as `lp`. -/
structure RowBoundSet (lp : SparseLp) (row : ℕ) (b : Bound) (lp' : SparseLp) : Prop where
  row_lt : row < lp.numRows
  valid : b.Valid
  columns_eq : lp'.columns = lp.columns
  colBounds_eq : lp'.colBounds = lp.colBounds
  numRows_eq : lp'.numRows = lp.numRows
  rowBound?_eq : ∀ r, lp'.rowBound? r = if r = row then some b else lp.rowBound? r

section

variable {col row : ℕ} {rows cols : List ℕ} {values : List Float}

theorem setColumn_eq_ok (h : setColumn col rows values lp = .ok () lp') :
    ColumnSet lp col rows values lp' := by
  obtain ⟨entries, hentries, rfl⟩ := guarded_eq_ok_iff.mp h
  obtain ⟨⟨⟩, hcol, hcollect⟩ := bind_eq_ok_iff.mp hentries
  have hcol := (checkCol_eq_ok lp col).mp hcol
  obtain ⟨hgiven, hvalues⟩ := collect_eq_ok (checkRow_eq_ok lp) hcollect
  refine ⟨hcol, hgiven, by simp [numCols], rfl, rfl, ?_⟩
  intro r c
  simp only [stored?]
  by_cases hc : c = col
  · subst hc
    rw [if_pos rfl, Array.getElem?_setIfInBounds_self_of_lt hcol, Option.bind_some, hvalues]
  · rw [if_neg hc, Array.getElem?_setIfInBounds_ne (Ne.symm hc)]

theorem exists_setColumn (hcol : col < lp.numCols) (h : WellGiven lp.numRows rows values) :
    ∃ lp', setColumn col rows values lp = .ok () lp' := by
  obtain ⟨entries, hentries⟩ := exists_collect (checkRow_eq_ok lp) h
  exact ⟨_, guarded_eq_ok_iff.mpr
    ⟨entries, bind_eq_ok_iff.mpr ⟨(), (checkCol_eq_ok lp col).mpr hcol, hentries⟩, rfl⟩⟩

theorem scatterRow_eq (row : ℕ) (entries : Column) (columns : Array Column) :
    scatterRow row entries columns =
      scatter (fun x column => column.insert row x) entries.toList columns :=
  Std.ExtTreeMap.foldl_eq_foldl_toList

theorem size_scatterRow (row : ℕ) (entries : Column) (columns : Array Column) :
    (scatterRow row entries columns).size = columns.size := by
  rw [scatterRow_eq, size_scatter]

theorem getElem?_scatterRow (row : ℕ) (entries : Column) (columns : Array Column) (c : ℕ) :
    (scatterRow row entries columns)[c]? =
      columns[c]?.map fun column =>
        match entries[c]? with
        | some x => column.insert row x
        | none => column := by
  rw [scatterRow_eq, getElem?_scatter (nodup_toList entries), lookup_toList]
  cases entries[c]? <;> rfl

theorem setRow_eq_ok (h : setRow row cols values lp = .ok () lp') :
    RowSet lp row cols values lp' := by
  obtain ⟨entries, hentries, rfl⟩ := guarded_eq_ok_iff.mp h
  obtain ⟨⟨⟩, hrow, hcollect⟩ := bind_eq_ok_iff.mp hentries
  obtain ⟨hgiven, hvalues⟩ := collect_eq_ok (checkCol_eq_ok lp) hcollect
  have hcolumn (c : ℕ) : (scatterRow row entries (lp.columns.map (·.erase row)))[c]? =
      lp.columns[c]?.map fun column =>
        match (cols.zip values).lookup c with
        | some x => (column.erase row).insert row x
        | none => column.erase row := by
    rw [getElem?_scatterRow, Array.getElem?_map, Option.map_map, hvalues]
    rfl
  have hsize : (scatterRow row entries (lp.columns.map (·.erase row))).size =
      lp.columns.size := by
    rw [size_scatterRow, Array.size_map]
  refine ⟨(checkRow_eq_ok lp row).mp hrow, hgiven, hsize, rfl, rfl, ?_⟩
  intro r c
  simp only [stored?]
  rw [hcolumn]
  rcases Nat.lt_or_ge c lp.columns.size with hc | hc
  · rw [Array.getElem?_eq_getElem hc, Option.map_some, Option.bind_some, Option.bind_some]
    cases (cols.zip values).lookup c with
    | some x =>
      rw [getElem?_insert_eq, getElem?_erase_eq]
      by_cases hr : r = row
      · rw [if_pos hr, if_pos hr.symm]
      · rw [if_neg hr, if_neg (Ne.symm hr), if_neg (Ne.symm hr)]
    | none =>
      rw [getElem?_erase_eq]
      by_cases hr : r = row
      · rw [if_pos hr, if_pos hr.symm]
      · rw [if_neg hr, if_neg (Ne.symm hr)]
  · -- Beyond the columns nothing is stored, nor does the vector say anything.
    have hnone : (cols.zip values).lookup c = none := by
      rw [lookup_eq_none_iff_notMem, List.map_fst_zip (Nat.le_of_eq hgiven.length_eq)]
      exact fun hmem => Nat.not_lt.mpr hc (hgiven.lt_bound c hmem)
    rw [Array.getElem?_eq_none hc, hnone]
    simp

theorem exists_setRow (hrow : row < lp.numRows) (h : WellGiven lp.numCols cols values) :
    ∃ lp', setRow row cols values lp = .ok () lp' := by
  obtain ⟨entries, hentries⟩ := exists_collect (checkCol_eq_ok lp) h
  exact ⟨_, guarded_eq_ok_iff.mpr
    ⟨entries, bind_eq_ok_iff.mpr ⟨(), (checkRow_eq_ok lp row).mpr hrow, hentries⟩, rfl⟩⟩

/-- A check of two arguments passes if both checks do. -/
theorem check_bound_eq_ok_iff {check : Except LpError Unit} {b : Bound} {e : Unit} :
    (do check; checkBound b) = .ok e ↔ check = .ok () ∧ b.Valid := by
  rw [bind_eq_ok_iff, ← checkBound_eq_ok b]
  constructor
  · rintro ⟨⟨⟩, hcheck, hbound⟩
    exact ⟨hcheck, hbound⟩
  · rintro ⟨hcheck, hbound⟩
    exact ⟨(), hcheck, hbound⟩

theorem setRowBound_eq_ok_iff {b : Bound} : setRowBound row b lp = .ok () lp' ↔
    row < lp.numRows ∧ b.Valid ∧
      lp' = { lp with rowBounds := lp.rowBounds.setIfInBounds row b } := by
  rw [setRowBound, guarded_eq_ok_iff]
  simp only [check_bound_eq_ok_iff, checkRow_eq_ok, exists_const, and_assoc]

theorem setColBound_eq_ok_iff {b : Bound} : setColBound col b lp = .ok () lp' ↔
    col < lp.numCols ∧ b.Valid ∧
      lp' = { lp with colBounds := lp.colBounds.setIfInBounds col b } := by
  rw [setColBound, guarded_eq_ok_iff]
  simp only [check_bound_eq_ok_iff, checkCol_eq_ok, exists_const, and_assoc]

theorem setRowBound_eq_ok {b : Bound} (h : setRowBound row b lp = .ok () lp') :
    RowBoundSet lp row b lp' := by
  obtain ⟨hrow, hvalid, rfl⟩ := setRowBound_eq_ok_iff.mp h
  refine ⟨hrow, hvalid, rfl, rfl, by simp [numRows], ?_⟩
  intro r
  simp only [rowBound?]
  by_cases hr : r = row
  · subst hr
    rw [if_pos rfl, Array.getElem?_setIfInBounds_self_of_lt hrow]
  · rw [if_neg hr, Array.getElem?_setIfInBounds_ne (Ne.symm hr)]

theorem exists_setRowBound {b : Bound} (hrow : row < lp.numRows) (hvalid : b.Valid) :
    ∃ lp', setRowBound row b lp = .ok () lp' :=
  ⟨_, setRowBound_eq_ok_iff.mpr ⟨hrow, hvalid, rfl⟩⟩

end

end SparseLp

end PetriAnalysis
