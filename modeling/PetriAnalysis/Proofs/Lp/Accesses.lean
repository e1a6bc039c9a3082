import PetriAnalysis.Proofs.Lp.Reachable

/-!
# Accesses by number

A change looks at its arguments, and takes columns and bounds by their numbers afterwards without
another look. The check of a vector does so too: it adds to an activity by the number of a row that
was in range when its entry was stored. Here an access beyond the end of an array is a fault. A
well-formed program meets none, so its changes may as well be made by accesses that ignore what is
out of range.

## Main definitions

* `SparseLp.strictScatterRow`, `SparseLp.strictly`, `SparseLp.strictPerform` — changes by accesses
  that may fault.
* `SparseLp.AccessesInRange lp` — no call on `lp`, and no check of a vector, faults.
-/

namespace PetriAnalysis.SparseLp

/-- Puts the entries of a row into the columns that they belong to, which must exist. -/
def strictScatterRow (row : ℕ) (entries : Column) (columns : Array Column) :
    Except Fault (Array Column) :=
  strictScatter (fun x column => column.insert row x) entries.toList columns

/-- Makes a change whose arguments have passed `check`, and which may fault. -/
def strictly {ε : Type} (check : SparseLp → Except LpError ε)
    (change : SparseLp → ε → Except Fault SparseLp) (lp : SparseLp) :
    Except Fault (EStateM.Result LpError SparseLp Unit) :=
  match check lp with
  | .ok e => return .ok () (← change lp e)
  | .error e => .ok (.error e lp)

/-- Makes a call by accesses that fault out of range. -/
def strictPerform (lp : SparseLp) : LpCall → Except Fault (Reply × SparseLp)
  | .addRows count => .ok (lp.perform (.addRows count))
  | .addCols count => .ok (lp.perform (.addCols count))
  | .setColumn col rows values => Reply.ofResult <$> strictly
      (fun lp => do lp.checkCol col; collect lp.checkRow rows values)
      (fun lp entries => return { lp with columns := ← store lp.columns col entries }) lp
  | .setRow row cols values => Reply.ofResult <$> strictly
      (fun lp => do lp.checkRow row; collect lp.checkCol cols values)
      (fun lp entries => return { lp with
        columns := ← strictScatterRow row entries (lp.columns.map (·.erase row)) }) lp
  | .setRowBound row b => Reply.ofResult <$> strictly
      (fun lp => do lp.checkRow row; checkBound b)
      (fun lp _ => return { lp with rowBounds := ← store lp.rowBounds row b }) lp
  | .setColBound col b => Reply.ofResult <$> strictly
      (fun lp => do lp.checkCol col; checkBound b)
      (fun lp _ => return { lp with colBounds := ← store lp.colBounds col b }) lp

/-- No access by number is out of range, in whatever call, and in the check of whatever vector. -/
structure AccessesInRange (lp : SparseLp) : Prop where
  perform : ∀ call, lp.strictPerform call = .ok (lp.perform call)
  violatedRows : ∀ x, ∃ rows, lp.violatedRows x = .ok rows

/-! ## Calls on well-formed programs -/

variable {lp : SparseLp}

/-- A row is scattered without a fault exactly if all its entries belong to columns that exist. -/
theorem strictScatterRow_eq_ok_iff {row : ℕ} {entries : Column} {columns columns' : Array Column} :
    strictScatterRow row entries columns = .ok columns' ↔
      (∀ c ∈ entries, c < columns.size) ∧ scatterRow row entries columns = columns' := by
  rw [strictScatterRow, strictScatter_eq_ok_iff, scatterRow_eq]
  simp only [mem_map_fst_toList]

/-- A change that does not fault for arguments that pass the check is the one that ignores what is
out of range. -/
theorem strictly_eq_ok {ε : Type} {check : SparseLp → Except LpError ε}
    {change : SparseLp → ε → SparseLp} {strictChange : SparseLp → ε → Except Fault SparseLp}
    (h : ∀ e, check lp = .ok e → strictChange lp e = .ok (change lp e)) :
    strictly check strictChange lp = .ok (guarded check change lp) := by
  rw [strictly, guarded]
  cases hcheck : check lp with
  | ok e => simp only [h e hcheck, ok_bind]; rfl
  | error e => rfl

/-- The entries that are collected for a row belong to columns that exist. -/
theorem lt_of_mem_collect {check : ℕ → Except LpError Unit} {bound : ℕ} {indices : List ℕ}
    {values : List Float} {entries : Column} (hcheck : ∀ i, check i = .ok () ↔ i < bound)
    (h : collect check indices values = .ok entries) {i : ℕ} (hi : i ∈ entries) : i < bound := by
  obtain ⟨hgiven, hvalues⟩ := collect_eq_ok hcheck h
  rw [Std.ExtTreeMap.mem_iff_isSome_getElem?, hvalues] at hi
  exact hgiven.lt_of_lookup hi

theorem WellFormed.strictPerform_eq (h : lp.WellFormed) (call : LpCall) :
    lp.strictPerform call = .ok (lp.perform call) := by
  cases call with
  | addRows count => rfl
  | addCols count => rfl
  | setColumn col rows values =>
    refine congrArg (Reply.ofResult <$> ·) (strictly_eq_ok ?_)
    intro entries hcheck
    obtain ⟨⟨⟩, hcol, -⟩ := bind_eq_ok_iff.mp hcheck
    have hcol : col < lp.columns.size := (checkCol_eq_ok lp col).mp hcol
    rw [store_of_lt hcol]
    rfl
  | setRow row cols values =>
    refine congrArg (Reply.ofResult <$> ·) (strictly_eq_ok ?_)
    intro entries hcheck
    obtain ⟨⟨⟩, -, hcollect⟩ := bind_eq_ok_iff.mp hcheck
    have hcols : ∀ c ∈ entries, c < (lp.columns.map (·.erase row)).size := by
      intro c hc
      rw [Array.size_map]
      exact lt_of_mem_collect (checkCol_eq_ok lp) hcollect hc
    rw [strictScatterRow_eq_ok_iff.mpr ⟨hcols, rfl⟩]
    rfl
  | setRowBound row b =>
    refine congrArg (Reply.ofResult <$> ·) (strictly_eq_ok ?_)
    intro _ hcheck
    have hrow : row < lp.rowBounds.size :=
      (checkRow_eq_ok lp row).mp (check_bound_eq_ok_iff.mp hcheck).1
    rw [store_of_lt hrow]
    rfl
  | setColBound col b =>
    refine congrArg (Reply.ofResult <$> ·) (strictly_eq_ok ?_)
    intro _ hcheck
    -- The number was compared with the columns, but it is the bounds that are written.
    have hcol : col < lp.colBounds.size :=
      h.size_colBounds ▸ (checkCol_eq_ok lp col).mp (check_bound_eq_ok_iff.mp hcheck).1
    rw [store_of_lt hcol]
    rfl

theorem WellFormed.accessesInRange (h : lp.WellFormed) : lp.AccessesInRange :=
  ⟨h.strictPerform_eq, fun x => ⟨_, h.rowsInRange.violatedRows_eq x⟩⟩

/-- The programs that calls on the empty program make, refused calls among them, are exactly the
well-formed ones. On a well-formed program no access is out of range, neither in another call nor in
the check of a vector of any length. -/
theorem representation_invariant (lp : SparseLp) :
    (lp.Reachable ↔ lp.WellFormed) ∧ (lp.WellFormed → lp.AccessesInRange) :=
  ⟨⟨Reachable.wellFormed, WellFormed.reachable⟩, WellFormed.accessesInRange⟩

/-- Row 1 is refused as long as there is one row, and so are sides that are exchanged. -/
def patched : SparseLp := empty.afterCalls
  [.addRows 1, .addCols 2, .setColumn 0 [1] [1], .addRows 1, .setColumn 0 [1] [1],
    .setRow 1 [1, 0] [2, 3], .setRowBound 1 (.upper 4), .setColBound 1 (.double 2 1)]

theorem representation_invariant_patched : patched.Reachable ∧ patched.WellFormed ∧
    patched.stored? 1 0 = some 3 ∧
    patched.strictPerform (.setColBound 1 .free) = .ok (patched.perform (.setColBound 1 .free)) ∧
    ∃ rows, patched.violatedRows [1, 2, 7] = .ok rows := by
  have hreachable : patched.Reachable := ⟨_, rfl⟩
  obtain ⟨hiff, haccesses⟩ := representation_invariant patched
  have hwellFormed := hiff.mp hreachable
  refine ⟨hreachable, hwellFormed, ?_, (haccesses hwellFormed).perform _,
    (haccesses hwellFormed).violatedRows _⟩
  decide +kernel

end PetriAnalysis.SparseLp
