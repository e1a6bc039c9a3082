import PetriAnalysis.Proofs.Lp.Activity
import PetriAnalysis.Proofs.Lp.Bounds
import PetriAnalysis.Proofs.Net.Firing
import PetriAnalysis.Proofs.Relaxation.Layout

/-!
# The state equation over whole runs

The numbers of firings in a successful sequence are a vector for the base program. The activity
of both rows of a place at this vector is what the sequence changes there. So the first rows are
always met, and the second rows are violated exactly at the places that lose tokens. Nothing is
rounded as long as the weights, the terms and the partial sums are below `2 ^ 53`.

## Main definitions

* `FiringVector n ts x` — the vector that counts the firings in a sequence.
* `ExactlyCounted n ts` — all numbers involved are below `2 ^ 53`.
-/

namespace PetriAnalysis

open Double SparseLp

variable {n : Net} {marking : List Weight} {m m' : Marking} {ts : List TransitionId}
  {lp : SparseLp} {x : List Float}

/-- The vector that counts the firings of each transition. Its first value is reserved. -/
structure FiringVector (n : Net) (ts : List TransitionId) (x : List Float) : Prop where
  length_eq : x.length = n.numTransitions + 1
  reserved : ∀ value, x[0]? = some value → toRat? value = some 0
  count : ∀ (t : ℕ) (value : Float), x[t + 1]? = some value →
    toRat? value = some (occurrences ts t : ℚ)

/-- All weights that move tokens, and all terms and partial sums of the marking equation, are
below `2 ^ 53`. -/
structure ExactlyCounted (n : Net) (ts : List TransitionId) : Prop where
  taken_lt : ∀ p < n.numPlaces, ∀ t < n.numTransitions, (n.takenAt p t).toNat < 2 ^ 53
  output_lt : ∀ p < n.numPlaces, ∀ t < n.numTransitions, (n.outputAt p t).toNat < 2 ^ 53
  product_lt : ∀ p < n.numPlaces, ∀ t < n.numTransitions,
    (occurrences ts t * n.effectAt p t).natAbs < 2 ^ 53
  sum_lt : ∀ p < n.numPlaces, ∀ k ≤ n.numTransitions,
    (∑ t ∈ Finset.range k, occurrences ts t * n.effectAt p t).natAbs < 2 ^ 53

/-! ## Activities -/

/-- A column of zeros in front of the columns of the transitions. -/
def reserve (f : ℕ → ℤ) : ℕ → ℤ
  | 0 => 0
  | t + 1 => f t

theorem sum_reserve (f : ℕ → ℤ) (k : ℕ) :
    ∑ c ∈ Finset.range (k + 1), reserve f c = ∑ t ∈ Finset.range k, f t := by
  rw [Finset.sum_range_succ']
  exact add_zero _

/-- A row whose coefficients are small integers has an exact activity. -/
theorem BaseLayout.exactTerms (h : BaseLayout n marking lp) (hx : FiringVector n ts x) {row : ℕ}
    {d : ℕ → ℤ}
    (hcoef : ∀ t < n.numTransitions, toRat? (lp.coefficient row (t + 1)) = some (d t : ℚ))
    (hproduct : ∀ t < n.numTransitions, (occurrences ts t * d t).natAbs < 2 ^ 53)
    (hsum : ∀ k ≤ n.numTransitions,
      (∑ t ∈ Finset.range k, occurrences ts t * d t).natAbs < 2 ^ 53) :
    ExactTerms lp x row (reserve fun t => occurrences ts t * d t) where
  length_eq := hx.length_eq.trans h.numCols_eq.symm
  term c value hvalue := by
    cases c with
    | zero =>
      refine ⟨0, 0, ?_, ?_, rfl⟩
      · rw [coefficient, h.outside row 0 (by omega)]
        exact toRat?_zero
      · exact hx.reserved value hvalue
    | succ t =>
      have hlt := (List.getElem?_eq_some_iff.mp hvalue).1
      rw [hx.length_eq] at hlt
      refine ⟨d t, occurrences ts t, hcoef t (by omega), ?_, mul_comm _ _⟩
      exact hx.count t value hvalue
  product_lt c hc := by
    rw [h.numCols_eq] at hc
    cases c with
    | zero => exact Nat.two_pow_pos 53
    | succ t => exact hproduct t (by omega)
  sum_lt k hk := by
    rw [h.numCols_eq] at hk
    cases k with
    | zero => exact Nat.two_pow_pos 53
    | succ k =>
      rw [sum_reserve]
      exact hsum k (by omega)

/-- Both cells of a place and a transition hold the exact effect. -/
theorem BaseLayout.toRat?_coefficient (h : BaseLayout n marking lp) (hn : n.WellFormed)
    (hexact : ExactlyCounted n ts) {p t : ℕ} (hp : p < n.numPlaces) (ht : t < n.numTransitions) :
    toRat? (lp.coefficient (p + 1) (t + 1)) = some (n.effectAt p t : ℚ) ∧
      toRat? (lp.coefficient (n.numPlaces + 1 + p) (t + 1)) = some (n.effectAt p t : ℚ) := by
  have houtput := hexact.output_lt p hp t ht
  have htaken := hexact.taken_lt p hp t ht
  have hdifference : toRat? ((n.outputAt p t).toFloat - (n.takenAt p t).toFloat) =
      some (n.effectAt p t : ℚ) :=
    toRat?_sub_int (toRat?_toFloat_of_lt houtput) (toRat?_toFloat_of_lt htaken) (by omega)
  obtain ⟨hfirst, hsecond⟩ := h.coefficient_eq hn hp ht
  rw [hfirst, hsecond]
  exact ⟨hdifference, hdifference⟩

/-- Entries have rows. -/
theorem BaseLayout.rowsInRange (h : BaseLayout n marking lp) : lp.RowsInRange := by
  refine rowsInRange_of_stored? fun r c hr => h.outside r c ?_
  rw [h.numRows_eq] at hr
  omega

/-- The first row is always met. -/
theorem BaseLayout.meets_zero (h : BaseLayout n marking lp) (x : List Float) :
    lp.meets x 0 = true := by
  have hempty : lp.gather x 0 = 0 := gather_of_empty (fun c => h.outside 0 c (Or.inl rfl)) x
  rw [meets, h.freeRow, Option.all_some, hempty]
  exact Bound.contains_free toRat?_zero

/-- What a sequence of firings changes at a place. -/
def changeAt (m m' : Marking) (p : ℕ) : ℤ := m'.count p - m.count p

/-- A successful sequence of firings, with what is needed to count it exactly. -/
structure CountedRun (n : Net) (m : Marking) (ts : List TransitionId) (m' : Marking)
    (lp : SparseLp) (x : List Float) : Prop where
  wellFormed : n.WellFormed
  size_eq : m.size = n.numPlaces
  run : (n.fireAll m ts).run = .ok (.ok m')
  layout : BaseLayout n m.toList lp
  vector : FiringVector n ts x
  exact : ExactlyCounted n ts

namespace CountedRun

variable {p : ℕ}

theorem sum_eq (h : CountedRun n m ts m' lp x) (hp : p < n.numPlaces) :
    ∑ t ∈ Finset.range n.numTransitions, occurrences ts t * n.effectAt p t = changeAt m m' p := by
  have hcount := (h.wellFormed.marking_equation h.run).2 p hp
  rw [changeAt]
  omega

theorem changeAt_lt (h : CountedRun n m ts m' lp x) (hp : p < n.numPlaces) :
    (changeAt m m' p).natAbs < 2 ^ 53 := by
  rw [← h.sum_eq hp]
  exact h.exact.sum_lt p hp n.numTransitions le_rfl

theorem exactTerms (h : CountedRun n m ts m' lp x) (hp : p < n.numPlaces) {row : ℕ}
    (hrow : row = p + 1 ∨ row = n.numPlaces + 1 + p) :
    ExactTerms lp x row (reserve fun t => occurrences ts t * n.effectAt p t) := by
  refine h.layout.exactTerms h.vector ?_ (h.exact.product_lt p hp)
    (h.exact.sum_lt p hp)
  intro t ht
  have hcoef := h.layout.toRat?_coefficient h.wellFormed h.exact hp ht
  rcases hrow with rfl | rfl
  · exact hcoef.1
  · exact hcoef.2

/-- The activity of both rows of a place is what the firings change there. -/
theorem toRat?_activity (h : CountedRun n m ts m' lp x) (hp : p < n.numPlaces) {row : ℕ}
    (hrow : row = p + 1 ∨ row = n.numPlaces + 1 + p) :
    toRat? (lp.rowActivity row x) = some (changeAt m m' p : ℚ) ∧
      toRat? (lp.gather x row) = some (changeAt m m' p : ℚ) := by
  have hexact := h.exactTerms hp hrow
  rw [hexact.toRat?_rowActivity, hexact.toRat?_gather, h.layout.numCols_eq, sum_reserve,
    h.sum_eq hp]
  exact ⟨rfl, rfl⟩

theorem meets_state (h : CountedRun n m ts m' lp x) (hp : p < n.numPlaces) :
    lp.meets x (p + 1) = true := by
  have hsize : p < m.counts.data.size := Nat.lt_of_lt_of_eq hp h.size_eq.symm
  have hcount : m.count p = (m.counts.data[p]).toNat := by
    rw [Marking.count, Array.getElem?_eq_getElem hsize, Option.getD_some]
  have hweight : m.toList[p]? = some m.counts.data[p] := by
    rw [Marking.toList, Family.toList, Array.getElem?_toList, Array.getElem?_eq_getElem hsize]
  rw [meets, h.layout.stateBound p _ hweight, Option.all_some]
  refine Bound.contains_lower_neg_weight (h.changeAt_lt hp) ?_ (h.toRat?_activity hp (.inl rfl)).2
  rw [← hcount, changeAt]
  omega

theorem meets_effect (h : CountedRun n m ts m' lp x) (hp : p < n.numPlaces) :
    lp.meets x (n.numPlaces + 1 + p) = true ↔ m.count p ≤ m'.count p := by
  rw [meets, h.layout.effectBound p hp, Option.all_some,
    Bound.contains_lower_zero_iff_nonneg (h.toRat?_activity hp (.inr rfl)).2, changeAt]
  omega

theorem rowsInRange (h : CountedRun n m ts m' lp x) : lp.RowsInRange :=
  h.layout.rowsInRange

/-- The rows are one free row, and two blocks with a row for each place. -/
theorem filter_rows (h : CountedRun n m ts m' lp x) :
    (List.range lp.numRows).filter (fun r => !lp.meets x r) =
      ((List.range n.numPlaces).filter fun p => m'.count p < m.count p).map
        (n.numPlaces + 1 + ·) := by
  have hrows : lp.numRows = n.numPlaces + 1 + n.numPlaces := by
    rw [h.layout.numRows_eq]
    omega
  have hfirst : (List.range (n.numPlaces + 1)).filter (fun r => !lp.meets x r) = [] := by
    rw [List.filter_eq_nil_iff]
    intro r hr
    have hr := List.mem_range.mp hr
    cases r with
    | zero => simp [h.layout.meets_zero]
    | succ p => simp [h.meets_state (p := p) (by omega)]
  rw [hrows, List.range_add, List.filter_append, hfirst, List.nil_append, List.filter_map]
  congr 1
  refine List.filter_congr ?_
  intro p hp
  have hmeets := h.meets_effect (List.mem_range.mp hp)
  rw [Function.comp_apply, Bool.eq_iff_iff, decide_eq_true_iff, Bool.not_eq_true', ← Nat.not_le,
    ← hmeets, Bool.not_eq_true]

theorem contains_column (h : CountedRun n m ts m' lp x) {c : ℕ} {value : Float} {b : Bound}
    (hvalue : x[c]? = some value) (hb : lp.colBound? c = some b) :
    b.contains value feasibilityTolerance = true := by
  have hc := (List.getElem?_eq_some_iff.mp hvalue).1
  rw [h.vector.length_eq] at hc
  cases (h.layout.colBound c (by omega)).symm.trans hb
  cases c with
  | zero =>
    rw [Bound.contains_lower_zero_iff_nonneg (n := 0) (h.vector.reserved value hvalue)]
  | succ t =>
    have hcount := h.vector.count t value hvalue
    rw [Bound.contains_lower_zero_iff_nonneg (n := occurrences ts t) hcount]
    exact Int.natCast_nonneg _

end CountedRun

/-- Two successful sequences with the same numbers of firings end in the same marking. -/
theorem Net.WellFormed.end_unique (hn : n.WellFormed) (hsize : m.size = n.numPlaces)
    {ts' : List TransitionId} {m'' : Marking} (hrun : (n.fireAll m ts).run = .ok (.ok m'))
    (hrun' : (n.fireAll m ts').run = .ok (.ok m''))
    (hcounts : ∀ t < n.numTransitions, occurrences ts' t = occurrences ts t) : m'' = m' := by
  obtain ⟨hsize₁, hcount₁⟩ := hn.marking_equation hrun
  obtain ⟨hsize₂, hcount₂⟩ := hn.marking_equation hrun'
  refine Marking.ext_count (hsize₂.trans hsize₁.symm) ?_
  intro p hp
  have hp : p < n.numPlaces := by rwa [hsize₂, hsize] at hp
  have hsum : ∑ t ∈ Finset.range n.numTransitions, (occurrences ts' t : ℤ) * n.effectAt p t =
      ∑ t ∈ Finset.range n.numTransitions, occurrences ts t * n.effectAt p t :=
    Finset.sum_congr rfl fun t ht => by rw [hcounts t (Finset.mem_range.mp ht)]
  have := hcount₁ p hp
  have := hcount₂ p hp
  omega

/-- A successful sequence of firings from `m` to `m'` changes each place by the activity of both
of its rows. The rows that are violated are the second rows of the places that lose tokens. The
end of the sequence depends on the numbers of firings alone. -/
theorem state_equation (n : Net) (hn : n.WellFormed) (m m' : Marking) (hsize : m.size = n.numPlaces)
    (ts : List TransitionId) (hrun : (n.fireAll m ts).run = .ok (.ok m')) :
    (∀ (lp : SparseLp) (x : List Float), Answered n m.toList lp → FiringVector n ts x →
      ExactlyCounted n ts →
      (∀ p < n.numPlaces,
        toRat? (lp.rowActivity (p + 1) x) = some ((m'.count p : ℚ) - m.count p) ∧
        toRat? (lp.rowActivity (n.numPlaces + 1 + p) x) = some ((m'.count p : ℚ) - m.count p)) ∧
      lp.violatedRows x = .ok (((List.range n.numPlaces).filter fun p =>
        m'.count p < m.count p).map (n.numPlaces + 1 + ·)) ∧
      lp.isSatisfiedBy x = .ok (decide (∀ p < n.numPlaces, m.count p ≤ m'.count p))) ∧
    ∀ (ts' : List TransitionId) (m'' : Marking), (n.fireAll m ts').run = .ok (.ok m'') →
      (∀ t < n.numTransitions, occurrences ts' t = occurrences ts t) → m'' = m' := by
  refine ⟨?_, fun ts' m'' hrun' => hn.end_unique hsize hrun hrun'⟩
  intro lp x hlp hx hexact
  have hlayout := (contents_of_untimed (answered_iff_untimed.mp hlp)).layout hn
  have h : CountedRun n m ts m' lp x := ⟨hn, hsize, hrun, hlayout, hx, hexact⟩
  have hchange (p : ℕ) : (changeAt m m' p : ℚ) = (m'.count p : ℚ) - m.count p := by
    rw [changeAt, Int.cast_sub, Int.cast_natCast, Int.cast_natCast]
  refine ⟨?_, ?_, ?_⟩
  · intro p hp
    rw [← hchange]
    exact ⟨(h.toRat?_activity hp (.inl rfl)).1, (h.toRat?_activity hp (.inr rfl)).1⟩
  · rw [h.rowsInRange.violatedRows_eq, h.filter_rows]
  · rw [h.rowsInRange.isSatisfiedBy_eq (hx.length_eq.trans hlayout.numCols_eq.symm)
      fun c value hvalue b hb => h.contains_column hvalue hb, h.filter_rows]
    congr 1
    rw [Bool.eq_iff_iff, List.isEmpty_iff, List.map_eq_nil_iff, List.filter_eq_nil_iff,
      decide_eq_true_iff]
    refine forall_congr' ?_
    intro p
    rw [List.mem_range, decide_eq_true_iff, Nat.not_lt]

/-- Two moves along the belt and one refill. -/
def beltRun : List TransitionId := [⟨0⟩, ⟨0⟩, ⟨1⟩]

theorem fireAll_beltRun :
    (belt.fireAll (.ofList [2, 0]) beltRun).run = .ok (.ok (.ofList [1, 2])) := by
  have hn : belt.WellFormed := by decide
  have hmove : belt.preset ⟨0⟩ = .ofList (belt.inputArcs 0) := hn.preset_eq (by decide)
  have hrefill : belt.preset ⟨1⟩ = .ofList (belt.inputArcs 1) := hn.preset_eq (by decide)
  simp only [Net.fireAll, beltRun, List.foldlM_cons, Net.fire, Net.isEnabled, hmove, hrefill]
  rfl

theorem firingVector_beltRun :
    FiringVector belt beltRun [0, (2 : Weight).toFloat, (1 : Weight).toFloat] where
  length_eq := rfl
  reserved value hvalue := by
    obtain rfl : 0 = value := Option.some.inj hvalue
    exact toRat?_zero
  count t value hvalue := by
    rcases t with _ | _ | t
    · obtain rfl := Option.some.inj hvalue
      exact toRat?_toFloat_of_lt (by decide)
    · obtain rfl := Option.some.inj hvalue
      exact toRat?_toFloat_of_lt (by decide)
    · cases hvalue

theorem state_equation_belt : belt.WellFormed ∧ (Marking.ofList [2, 0]).size = belt.numPlaces ∧
    (belt.fireAll (.ofList [2, 0]) beltRun).run = .ok (.ok (.ofList [1, 2])) ∧
    ∃ (lp : SparseLp) (x : List Float), Answered belt [2, 0] lp ∧ FiringVector belt beltRun x ∧
      ExactlyCounted belt beltRun ∧ lp.violatedRows x = .ok [3] ∧
        lp.isSatisfiedBy x = .ok false := by
  have hn : belt.WellFormed := by decide
  have hexact : ExactlyCounted belt beltRun := ⟨by decide, by decide, by decide, by decide⟩
  obtain ⟨lp, huntimed⟩ : ∃ lp, untimed belt [2, 0] (some SparseLp.empty) = .ok lp :=
    hn.sortedArcs.encodable.exists_untimed hn.observable rfl
  have hanswered := answered_iff_untimed.mpr huntimed
  obtain ⟨-, hviolated, hsatisfied⟩ := (state_equation belt hn (.ofList [2, 0]) (.ofList [1, 2])
    rfl beltRun fireAll_beltRun).1 lp _ hanswered firingVector_beltRun hexact
  exact ⟨hn, rfl, fireAll_beltRun, lp, _, hanswered, firingVector_beltRun, hexact, hviolated,
    hsatisfied⟩

end PetriAnalysis
