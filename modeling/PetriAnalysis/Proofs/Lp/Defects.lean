import Mathlib.Order.Bounds.Basic
import PetriAnalysis.Proofs.Lp.Entries

/-!
# Why a change of a sparse program is refused

A change looks at its arguments before it touches anything: at the number of the row or column, and
then at the rest. In a sparse vector it compares the lengths of the two lists, and then goes through
the indices until one is out of range or has occurred before. So of several defects a fixed one is
reported, and a change that is refused leaves the whole program as it was.

## Main definitions

* `DefectiveAt bound indices i` — the index at position `i` is out of range or a repetition.
* `VectorDefect outOfRange bound indices values e` — the error `e` tells what is wrong with a sparse
  vector.
* `Bound.Malformed` — a side is not a number, or the sides are exchanged.
* `ResultLaw result proper reason` — when a result is good, and why it is refused.
* `SetterLaw act lp proper reason` — when a change is accepted, and why it is refused.
-/

namespace PetriAnalysis

/-- The index at position `i` is out of range, or it occurs at an earlier position. -/
def DefectiveAt (bound : ℕ) (indices : List ℕ) (i : ℕ) : Prop :=
  ∃ index, indices[i]? = some index ∧ (bound ≤ index ∨ index ∈ indices.take i)

/-- What is wrong with a sparse vector: its lists have different lengths, or else its first
defective index is out of range or a repetition. -/
inductive VectorDefect (outOfRange : ℕ → LpError) (bound : ℕ) (indices : List ℕ)
    (values : List Float) : LpError → Prop where
  | lengths (hlength : indices.length ≠ values.length) :
    VectorDefect outOfRange bound indices values
      (.lengthMismatch indices.length values.length)
  | range (hlength : indices.length = values.length) (i index : ℕ)
    (hfirst : IsLeast {i | DefectiveAt bound indices i} i) (hindex : indices[i]? = some index)
    (hrange : bound ≤ index) : VectorDefect outOfRange bound indices values (outOfRange index)
  | repeated (hlength : indices.length = values.length) (i index : ℕ)
    (hfirst : IsLeast {i | DefectiveAt bound indices i} i) (hindex : indices[i]? = some index)
    (hearlier : index ∈ indices.take i) :
    VectorDefect outOfRange bound indices values (.duplicateIndex index)

/-- A side is not a number, or the lower side is above the upper one. -/
def Bound.Malformed (b : Bound) : Prop :=
  b.least.isNaN = true ∨ b.greatest.isNaN = true ∨ b.greatest < b.least

/-- A result is good exactly in the proper case, and is else refused for exactly one reason. -/
structure ResultLaw {α : Type} (result : Except LpError α) (proper : Prop)
    (reason : LpError → Prop) : Prop where
  accepted_iff : (∃ a, result = .ok a) ↔ proper
  refused_iff : ∀ e, result = .error e ↔ reason e

/-- A change is accepted exactly if its arguments are proper. It is refused for exactly one reason,
and then nothing is changed. -/
structure SetterLaw (act : LpUpdate SparseLp Unit) (lp : SparseLp) (proper : Prop)
    (reason : LpError → Prop) : Prop where
  accepted_iff : (∃ lp', act lp = .ok () lp') ↔ proper
  refused_iff : ∀ e lp', act lp = .error e lp' ↔ reason e ∧ lp' = lp

theorem Bound.malformed_iff (b : Bound) : b.Malformed ↔ ¬ b.Valid := by
  rw [Malformed, Valid, not_and_or, not_and_or, Bool.not_eq_false, Bool.not_eq_false, not_not]

/-! ## Defects of sparse vectors -/

section

variable {outOfRange : ℕ → LpError} {bound : ℕ} {indices : List ℕ} {values : List Float}
  {e e' : LpError}

/-- Before the first defective index no index is out of range, so a repetition is in range. -/
theorem lt_bound_of_repeated {i index : ℕ}
    (hfirst : IsLeast {i | DefectiveAt bound indices i} i) (hearlier : index ∈ indices.take i) :
    index < bound := by
  obtain ⟨j, hj⟩ := List.mem_iff_getElem?.mp hearlier
  have hlt : j < i := by
    have hj := (List.getElem?_eq_some_iff.mp hj).1
    rw [List.length_take] at hj
    omega
  rw [List.getElem?_take_of_lt hlt] at hj
  by_contra hrange
  exact hlt.not_ge (hfirst.2 ⟨index, hj, .inl (Nat.not_lt.mp hrange)⟩)

/-- The first defective position is unique, and so is the index that stands there. -/
theorem firstDefect_unique {i i' index index' : ℕ}
    (hfirst : IsLeast {i | DefectiveAt bound indices i} i)
    (hfirst' : IsLeast {i | DefectiveAt bound indices i} i') (hindex : indices[i]? = some index)
    (hindex' : indices[i']? = some index') : i = i' ∧ index = index' := by
  obtain rfl := hfirst.unique hfirst'
  exact ⟨rfl, Option.some.inj (hindex.symm.trans hindex')⟩

/-- Of several defects one is reported. -/
theorem VectorDefect.unique (h : VectorDefect outOfRange bound indices values e)
    (h' : VectorDefect outOfRange bound indices values e') : e = e' := by
  cases h with
  | lengths hlength =>
    cases h' with
    | lengths => rfl
    | range hlength' => exact absurd hlength' hlength
    | repeated hlength' => exact absurd hlength' hlength
  | range hlength i index hfirst hindex hrange =>
    cases h' with
    | lengths hlength' => exact absurd hlength hlength'
    | range _ i' index' hfirst' hindex' _ =>
      obtain ⟨-, rfl⟩ := firstDefect_unique hfirst hfirst' hindex hindex'
      rfl
    | repeated _ i' index' hfirst' hindex' hearlier =>
      obtain ⟨rfl, rfl⟩ := firstDefect_unique hfirst hfirst' hindex hindex'
      exact absurd (lt_bound_of_repeated hfirst' hearlier) hrange.not_gt
  | repeated hlength i index hfirst hindex hearlier =>
    cases h' with
    | lengths hlength' => exact absurd hlength hlength'
    | range _ i' index' hfirst' hindex' hrange =>
      obtain ⟨rfl, rfl⟩ := firstDefect_unique hfirst hfirst' hindex hindex'
      exact absurd (lt_bound_of_repeated hfirst hearlier) hrange.not_gt
    | repeated _ i' index' hfirst' hindex' _ =>
      obtain ⟨-, rfl⟩ := firstDefect_unique hfirst hfirst' hindex hindex'
      rfl

/-- A sparse vector with a defect is not well-formed. -/
theorem VectorDefect.not_wellGiven (h : VectorDefect outOfRange bound indices values e) :
    ¬ WellGiven bound indices values := by
  intro hgiven
  cases h with
  | lengths hlength => exact hlength hgiven.length_eq
  | range _ i index _ hindex hrange =>
    exact (hgiven.lt_bound index (List.mem_of_getElem? hindex)).not_ge hrange
  | repeated _ i index _ hindex hearlier =>
    have hsplit : (indices.take i ++ indices.drop i).Nodup := by
      rw [List.take_append_drop]
      exact hgiven.nodup
    refine List.disjoint_of_nodup_append hsplit hearlier ?_
    refine List.mem_of_getElem? (i := 0) ?_
    rw [List.getElem?_drop, Nat.add_zero, hindex]

end

namespace SparseLp

variable {check : ℕ → Except LpError Unit} {outOfRange : ℕ → LpError} {bound : ℕ}
  {indices : List ℕ} {values : List Float} {acc entries : Column} {entry : ℕ × Float}
  {e : LpError}

/-! ## The first defect of a sparse vector -/

theorem collectEntry_eq_error
    (hcheck : ∀ i, check i = if i < bound then .ok () else .error (outOfRange i))
    (h : collectEntry check acc entry = .error e) :
    bound ≤ entry.1 ∧ e = outOfRange entry.1 ∨ entry.1 ∈ acc ∧ e = .duplicateIndex entry.1 := by
  rw [collectEntry, bind_eq_error_iff] at h
  rcases h with hfail | ⟨-, -, hrepeated⟩
  · rw [hcheck] at hfail
    split_ifs at hfail with hrange
    exact .inl ⟨Nat.not_lt.mp hrange, (Except.error.inj hfail).symm⟩
  · split_ifs at hrepeated with hmem
    · exact .inr ⟨hmem, (Except.error.inj hrepeated).symm⟩
    · cases hrepeated

theorem check_eq_ok_iff
    (hcheck : ∀ i, check i = if i < bound then .ok () else .error (outOfRange i)) (i : ℕ) :
    check i = .ok () ↔ i < bound := by
  rw [hcheck]
  split_ifs with hi <;> simp [hi]

/-- After `k` entries their indices are collected, and none of them was defective. -/
structure CollectedUpTo (bound : ℕ) (indices : List ℕ) (k : ℕ) (acc : Column) : Prop where
  mem_iff : ∀ i, i ∈ acc ↔ i ∈ indices.take k
  sound : ∀ j < k, ¬ DefectiveAt bound indices j

theorem CollectedUpTo.step {k : ℕ} (hcheck : ∀ i, check i = .ok () ↔ i < bound)
    (hk : indices[k]? = some entry.1) (h : CollectedUpTo bound indices k acc)
    (hcollect : collectEntry check acc entry = .ok entries) :
    CollectedUpTo bound indices (k + 1) entries := by
  obtain ⟨hrange, hfresh, rfl⟩ := collectEntry_eq_ok_iff.mp hcollect
  have hrange := (hcheck _).mp hrange
  refine ⟨?_, ?_⟩
  · intro i
    rw [Std.ExtTreeMap.mem_insert, Nat.compare_eq_eq, h.mem_iff, List.take_add_one, hk]
    simp [or_comm, eq_comm]
  · intro j hj
    rcases Nat.lt_succ_iff_lt_or_eq.mp hj with hj | rfl
    · exact h.sound j hj
    · rintro ⟨index, hindex, hdefect⟩
      cases hk.symm.trans hindex
      rcases hdefect with hlarge | hearlier
      · exact hrange.not_ge hlarge
      · exact hfresh ((h.mem_iff _).mpr hearlier)

/-- A sparse vector is refused for its first defect. -/
theorem defect_of_collect
    (hcheck : ∀ i, check i = if i < bound then .ok () else .error (outOfRange i))
    (h : collect check indices values = .error e) :
    VectorDefect outOfRange bound indices values e := by
  rw [collect] at h
  by_cases hlength : indices.length = values.length
  · rw [if_pos hlength] at h
    have hentry {k : ℕ} {entry : ℕ × Float} (hk : (indices.zip values)[k]? = some entry) :
        indices[k]? = some entry.1 := (List.getElem?_zip_eq_some.mp hk).1
    obtain ⟨k, entry, acc, hk, hcollected, hfail⟩ :=
      foldlM_error_induct (CollectedUpTo bound indices) ⟨by simp, by simp⟩
        (fun k entry acc entries hk hacc => hacc.step (check_eq_ok_iff hcheck) (hentry hk)) h
    have hindex := hentry hk
    have hfirst (hdefect : bound ≤ entry.1 ∨ entry.1 ∈ indices.take k) :
        IsLeast {i | DefectiveAt bound indices i} k := by
      refine ⟨⟨entry.1, hindex, hdefect⟩, ?_⟩
      intro j hj
      by_contra hlt
      exact hcollected.sound j (Nat.not_le.mp hlt) hj
    rcases collectEntry_eq_error hcheck hfail with ⟨hrange, rfl⟩ | ⟨hmem, rfl⟩
    · exact .range hlength k _ (hfirst (.inl hrange)) hindex hrange
    · have hearlier := (hcollected.mem_iff _).mp hmem
      exact .repeated hlength k _ (hfirst (.inr hearlier)) hindex hearlier
  · rw [if_neg hlength] at h
    cases h
    exact .lengths hlength

/-- A sparse vector is collected if it is well-formed, and else refused for its first defect. -/
theorem collect_law
    (hcheck : ∀ i, check i = if i < bound then .ok () else .error (outOfRange i)) :
    ResultLaw (collect check indices values) (WellGiven bound indices values)
      (VectorDefect outOfRange bound indices values) := by
  have haccepted : (∃ entries, collect check indices values = .ok entries) ↔
      WellGiven bound indices values :=
    ⟨fun ⟨entries, h⟩ => (collect_eq_ok (check_eq_ok_iff hcheck) h).1,
      exists_collect (check_eq_ok_iff hcheck)⟩
  refine ⟨haccepted, fun e => ⟨defect_of_collect hcheck, ?_⟩⟩
  intro hdefect
  cases hresult : collect check indices values with
  | ok entries => exact absurd (haccepted.mp ⟨entries, hresult⟩) hdefect.not_wellGiven
  | error e' => rw [(defect_of_collect hcheck hresult).unique hdefect]

theorem checkBound_law (b : Bound) : ResultLaw (checkBound b) (¬ b.Malformed)
    fun e => b.Malformed ∧ e = .invalidBounds b.least b.greatest := by
  constructor <;>
  · rw [b.malformed_iff, checkBound]
    split_ifs with h <;> simp [h, eq_comm]

end SparseLp

/-! ## Changes -/

namespace ResultLaw

variable {α : Type} {lp : SparseLp} {number bound : ℕ} {outOfRange : LpError}
  {check : Except LpError Unit} {rest : Except LpError α} {read : SparseLp → Except LpError α}
  {change : SparseLp → α → SparseLp} {proper : Prop} {reason : LpError → Prop}

/-- The number of a row or column is looked at before the rest. -/
theorem checked (h : ResultLaw rest proper reason)
    (hcheck : check = if number < bound then .ok () else .error outOfRange) :
    ResultLaw (do check; rest) (number < bound ∧ proper)
      fun e => bound ≤ number ∧ e = outOfRange ∨ number < bound ∧ reason e := by
  by_cases hrange : number < bound
  · rw [if_pos hrange] at hcheck
    have hrest : (do check; rest) = rest := by rw [hcheck, ok_bind]
    constructor <;> simp [hrest, h.accepted_iff, h.refused_iff, hrange, hrange.not_ge]
  · rw [if_neg hrange] at hcheck
    have hfail : (do check; rest) = .error outOfRange := by rw [hcheck]; rfl
    constructor <;> simp [hfail, hrange, Nat.not_lt.mp hrange, eq_comm]

/-- A change is made if its arguments are read, and else nothing is changed. -/
theorem guarded (h : ResultLaw (read lp) proper reason) :
    SetterLaw (SparseLp.guarded read change) lp proper reason := by
  constructor
  · simp [SparseLp.guarded_eq_ok_iff, ← h.accepted_iff]
  · intro e lp'
    rw [← h.refused_iff, SparseLp.guarded]
    cases read lp <;> simp [eq_comm]

end ResultLaw

open SparseLp

/-- Each setter is accepted exactly if its arguments are well-formed, and it is refused for the
first defect that it meets. A refusal leaves the whole program as it was. -/
theorem setters_name_first_defect (lp : SparseLp) :
    (∀ col rows values, SetterLaw (setColumn col rows values) lp
      (col < lp.numCols ∧ WellGiven lp.numRows rows values) fun e =>
        lp.numCols ≤ col ∧ e = .columnOutOfRange col lp.numCols ∨
        col < lp.numCols ∧
          VectorDefect (.rowOutOfRange · lp.numRows) lp.numRows rows values e) ∧
    (∀ row cols values, SetterLaw (setRow row cols values) lp
      (row < lp.numRows ∧ WellGiven lp.numCols cols values) fun e =>
        lp.numRows ≤ row ∧ e = .rowOutOfRange row lp.numRows ∨
        row < lp.numRows ∧
          VectorDefect (.columnOutOfRange · lp.numCols) lp.numCols cols values e) ∧
    (∀ row b, SetterLaw (setRowBound row b) lp (row < lp.numRows ∧ ¬ b.Malformed) fun e =>
        lp.numRows ≤ row ∧ e = .rowOutOfRange row lp.numRows ∨
        row < lp.numRows ∧ b.Malformed ∧ e = .invalidBounds b.least b.greatest) ∧
    ∀ col b, SetterLaw (setColBound col b) lp (col < lp.numCols ∧ ¬ b.Malformed) fun e =>
        lp.numCols ≤ col ∧ e = .columnOutOfRange col lp.numCols ∨
        col < lp.numCols ∧ b.Malformed ∧ e = .invalidBounds b.least b.greatest := by
  refine ⟨?column, ?row, ?rowBound, ?colBound⟩
  case column => exact fun col rows values => ((collect_law fun _ => rfl).checked rfl).guarded
  case row => exact fun row cols values => ((collect_law fun _ => rfl).checked rfl).guarded
  case rowBound => exact fun row b => ((checkBound_law b).checked rfl).guarded
  case colBound => exact fun col b => ((checkBound_law b).checked rfl).guarded

end PetriAnalysis
