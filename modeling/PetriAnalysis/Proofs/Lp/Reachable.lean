import PetriAnalysis.Proofs.Lp.WellFormed

/-!
# Programs that calls can make

A sparse program is only ever made by calls on the empty program, whatever they are given and
whether they are accepted or not. Such a program is well-formed, so it stores a plain matrix: each
of its columns has a bound, none of its entries lies beyond the rows, its bounds are ordered, and
the numbers of its rows and columns have 64 bits. Nothing else is true of all of them, since calls
can make every well-formed program.

## Main definitions

* `SparseLp.afterCalls lp calls` — the program that calls leave.
* `SparseLp.Reachable lp` — calls on the empty program make `lp`.
-/

namespace PetriAnalysis.SparseLp

/-- The program that calls leave. -/
def afterCalls (lp : SparseLp) (calls : List LpCall) : SparseLp :=
  (performAll perform lp calls).2

/-- Calls on the empty program make this one. -/
def Reachable (lp : SparseLp) : Prop := ∃ calls, empty.afterCalls calls = lp

variable {lp : SparseLp}

@[simp] theorem afterCalls_nil (lp : SparseLp) : lp.afterCalls [] = lp := rfl

@[simp] theorem afterCalls_cons (lp : SparseLp) (call : LpCall) (calls : List LpCall) :
    lp.afterCalls (call :: calls) = (lp.perform call).2.afterCalls calls := rfl

theorem afterCalls_append (lp : SparseLp) (calls calls' : List LpCall) :
    lp.afterCalls (calls ++ calls') = (lp.afterCalls calls).afterCalls calls' := by
  induction calls generalizing lp with
  | nil => rfl
  | cons call calls ih => exact ih _

theorem reachable_empty : empty.Reachable := ⟨[], rfl⟩

theorem Reachable.afterCalls (h : lp.Reachable) (calls : List LpCall) :
    (lp.afterCalls calls).Reachable := by
  obtain ⟨before, rfl⟩ := h
  exact ⟨before ++ calls, afterCalls_append empty before calls⟩

theorem Reachable.perform (h : lp.Reachable) (call : LpCall) : (lp.perform call).2.Reachable :=
  h.afterCalls [call]

/-- Calls keep a program well-formed. -/
theorem WellFormed.afterCalls (h : lp.WellFormed) (calls : List LpCall) :
    (lp.afterCalls calls).WellFormed := by
  induction calls generalizing lp with
  | nil => exact h
  | cons call calls ih => exact ih (h.perform call)

theorem Reachable.wellFormed (h : lp.Reachable) : lp.WellFormed := by
  obtain ⟨calls, rfl⟩ := h
  exact wellFormed_empty.afterCalls calls

/-- Calls make a program that stores a plain matrix. -/
theorem Reachable.exists_represents (h : lp.Reachable) :
    ∃ m : PlainMatrix, Represents lp m ∧ m.InRange :=
  ⟨lp.plain, h.wellFormed.represents, h.wellFormed.inRange⟩

theorem Reachable.rowsInRange (h : lp.Reachable) : lp.RowsInRange := h.wellFormed.rowsInRange

/-- Each column has its bound. -/
theorem Reachable.size_colBounds (h : lp.Reachable) : lp.colBounds.size = lp.numCols :=
  h.wellFormed.size_colBounds

/-! ## All well-formed programs can be made -/

/-- Replacing elements one by one turns an array into any other of its size. -/
theorem refill {α : Type} {P : Array α → Prop} {good : α → Prop}
    (hset : ∀ xs i x, P xs → i < xs.size → good x → P (xs.setIfInBounds i x))
    {xs ys : Array α} (hxs : P xs) (hsize : xs.size = ys.size) (hys : ∀ y ∈ ys, good y) : P ys := by
  have hprefix : ∀ k ≤ ys.size, ∃ zs, P zs ∧ zs.size = ys.size ∧ ∀ i < k, zs[i]? = ys[i]? := by
    intro k hk
    induction k with
    | zero => exact ⟨xs, hxs, hsize, fun i hi => absurd hi i.not_lt_zero⟩
    | succ k ih =>
      obtain ⟨zs, hzs, hzsize, heq⟩ := ih (Nat.le_of_succ_le hk)
      have hk' : k < zs.size := hzsize ▸ hk
      refine ⟨zs.setIfInBounds k ys[k], hset zs k _ hzs hk' (hys _ (Array.getElem_mem hk)),
        Array.size_setIfInBounds.trans hzsize, ?_⟩
      intro i hi
      rcases Nat.lt_succ_iff_lt_or_eq.mp hi with hi | rfl
      · rw [Array.getElem?_setIfInBounds_ne hi.ne', heq i hi]
      · rw [Array.getElem?_setIfInBounds_self_of_lt hk', Array.getElem?_eq_getElem]
  obtain ⟨zs, hzs, hzsize, heq⟩ := hprefix ys.size le_rfl
  have hall : zs = ys := by
    refine Array.ext hzsize ?_
    intro i hi hi'
    have hi₂ := heq i hi'
    rwa [Array.getElem?_eq_getElem hi, Array.getElem?_eq_getElem hi', Option.some.injEq] at hi₂
  exact hall ▸ hzs

/-- The entries of a column, given as two lists, are collected to that column. -/
theorem collect_toList {check : ℕ → Except LpError Unit} {bound : ℕ} {entries : Column}
    (hcheck : ∀ i, check i = .ok () ↔ i < bound) (hrange : ∀ i ∈ entries, i < bound) :
    collect check (entries.toList.map Prod.fst) (entries.toList.map Prod.snd) = .ok entries := by
  have hgiven : WellGiven bound (entries.toList.map Prod.fst) (entries.toList.map Prod.snd) := by
    refine ⟨by simp, nodup_toList entries, ?_⟩
    intro i hi
    exact hrange i (mem_map_fst_toList.mp hi)
  obtain ⟨entries', hcollect⟩ := exists_collect hcheck hgiven
  obtain rfl : entries' = entries := by
    refine Std.ExtTreeMap.ext_getElem? ?_
    intro i
    rw [(collect_eq_ok hcheck hcollect).2, List.zip_map', List.map_id', lookup_toList]
  exact hcollect

namespace Reachable

/-- The entries of a column can be made to be any that are in range. -/
theorem setColumn (h : lp.Reachable) {col : ℕ} {entries : Column} (hcol : col < lp.numCols)
    (hrange : ∀ r ∈ entries, r < lp.numRows) :
    Reachable { lp with columns := lp.columns.setIfInBounds col entries } := by
  have hreach := h.perform (.setColumn col (entries.toList.map Prod.fst)
    (entries.toList.map Prod.snd))
  have haccepted : SparseLp.setColumn col (entries.toList.map Prod.fst)
      (entries.toList.map Prod.snd) lp =
        .ok () { lp with columns := lp.columns.setIfInBounds col entries } := by
    refine guarded_eq_ok_iff.mpr ⟨entries, bind_eq_ok_iff.mpr ⟨(), ?_, ?_⟩, rfl⟩
    · exact (checkCol_eq_ok lp col).mpr hcol
    · exact collect_toList (checkRow_eq_ok lp) hrange
  rwa [SparseLp.perform, haccepted] at hreach

theorem setRowBound (h : lp.Reachable) {row : ℕ} {b : Bound} (hrow : row < lp.numRows)
    (hb : b.Ordered) : Reachable { lp with rowBounds := lp.rowBounds.setIfInBounds row b } := by
  have hreach := h.perform (.setRowBound row b)
  rwa [SparseLp.perform, setRowBound_eq_ok_iff.mpr ⟨hrow, (Bound.ordered_iff_valid b).mp hb, rfl⟩]
    at hreach

theorem setColBound (h : lp.Reachable) {col : ℕ} {b : Bound} (hcol : col < lp.numCols)
    (hb : b.Ordered) : Reachable { lp with colBounds := lp.colBounds.setIfInBounds col b } := by
  have hreach := h.perform (.setColBound col b)
  rwa [SparseLp.perform, setColBound_eq_ok_iff.mpr ⟨hcol, (Bound.ordered_iff_valid b).mp hb, rfl⟩]
    at hreach

end Reachable

/-- A well-formed program is made by appending its rows and columns and filling them in. -/
theorem WellFormed.reachable (h : lp.WellFormed) : lp.Reachable := by
  have hblank : Reachable ⟨.replicate lp.numCols ∅, .replicate lp.numCols (.lower 0),
      .replicate lp.numRows .free⟩ := by
    have hrows : SparseLp.addRows lp.numRows empty =
        .ok 0 ⟨#[], #[], .replicate lp.numRows .free⟩ := by
      rw [addRows_of_lt ((Nat.zero_add _).symm ▸ h.numRows_lt)]
      simp [empty, numRows]
    have hcols : SparseLp.addCols lp.numCols ⟨#[], #[], .replicate lp.numRows .free⟩ =
        .ok 0 ⟨.replicate lp.numCols ∅, .replicate lp.numCols (.lower 0),
          .replicate lp.numRows .free⟩ := by
      rw [addCols_of_lt rfl ((Nat.zero_add _).symm ▸ h.numCols_lt)]
      simp [numCols]
    refine ⟨[.addRows lp.numRows, .addCols lp.numCols], ?_⟩
    rw [afterCalls_cons, afterCalls_cons, SparseLp.perform, SparseLp.perform, hrows]
    exact congrArg (fun r => (Reply.ofAppend r).2) hcols
  have hcolumns : Reachable ⟨lp.columns, .replicate lp.numCols (.lower 0),
      .replicate lp.numRows .free⟩ := by
    refine refill (P := fun columns => Reachable ⟨columns, _, _⟩) ?_ hblank Array.size_replicate
      h.rowsInRange
    intro columns col entries hreach hcol hrange
    refine hreach.setColumn hcol ?_
    rwa [SparseLp.numRows, Array.size_replicate]
  have hcolBounds : Reachable ⟨lp.columns, lp.colBounds, .replicate lp.numRows .free⟩ := by
    refine refill (P := fun bounds => Reachable ⟨_, bounds, _⟩) ?_ hcolumns
      (Array.size_replicate.trans h.size_colBounds.symm) h.colBounds
    intro bounds col b hreach hcol hb
    exact hreach.setColBound (hreach.size_colBounds ▸ hcol) hb
  refine refill (P := fun bounds => Reachable ⟨lp.columns, lp.colBounds, bounds⟩) ?_ hcolBounds
    Array.size_replicate h.rowBounds
  intro bounds row b hreach hrow hb
  exact hreach.setRowBound hrow hb

end PetriAnalysis.SparseLp
