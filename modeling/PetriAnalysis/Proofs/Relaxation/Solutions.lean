import PetriAnalysis.Proofs.Relaxation.StateEquation

/-!
# Solutions of the base program

Both rows of a place have the same coefficients, and the bound of the first row is at most that
of the second one. So the first rows exclude nothing that the second rows accept, and the vectors
that satisfy a base program are the same for all markings: no place may lose tokens.

What a place gains or loses is added up in doubles, one transition after the other. This is the
exact change as long as nothing is rounded. A loss that is lost in rounding is not noticed.

## Main definitions

* `Net.roundedChange n x p`, `Net.exactChange n x p` — the change at a place, in doubles and
  without rounding.
* `Admissible n x` — what the columns ask for.
* `Unrounded n x` — the two changes agree.
-/

namespace PetriAnalysis

open Double SparseLp

variable {n : Net} {marking : List Weight} {lp : SparseLp} {x : List Float} {p : ℕ}

namespace Net

/-- What the first `k` transitions, fired as often as `x` says, change at a place. The terms are
added up in doubles. -/
def roundedChange (n : Net) (x : List Float) (p k : ℕ) : Float :=
  (List.range k).foldl (fun acc t =>
    acc + ((n.outputAt p t).toFloat - (n.takenAt p t).toFloat) * x.getD (t + 1) 0) 0

/-- What the first `k` transitions, fired as often as `x` says, change at a place. -/
def exactChange (n : Net) (x : List Float) (p k : ℕ) : ℚ :=
  ∑ t ∈ Finset.range k, n.effectAt p t * number (x.getD (t + 1) 0)

end Net

/-- A value for each column, and none is below zero by more than the tolerance. -/
structure Admissible (n : Net) (x : List Float) : Prop where
  length_eq : x.length = n.numTransitions + 1
  entry : ∀ value ∈ x, -number feasibilityTolerance ≤ number value

/-- All weights, products and partial sums are doubles. -/
structure Unrounded (n : Net) (x : List Float) : Prop where
  output : ∀ p < n.numPlaces, ∀ t < n.numTransitions, Representable (n.outputAt p t).toNat
  taken : ∀ p < n.numPlaces, ∀ t < n.numTransitions, Representable (n.takenAt p t).toNat
  effect : ∀ p < n.numPlaces, ∀ t < n.numTransitions, Representable (n.effectAt p t)
  product : ∀ p < n.numPlaces, ∀ t < n.numTransitions,
    Representable (n.effectAt p t * number (x.getD (t + 1) 0))
  sum : ∀ p < n.numPlaces, ∀ k ≤ n.numTransitions, Representable (n.exactChange x p k)

/-- Beyond its end a vector has zeros. -/
theorem toRat?_getD (hx : ∀ value ∈ x, value.isFinite = true) (c : ℕ) :
    toRat? (x.getD c 0) = some (number (x.getD c 0)) := by
  rcases Nat.lt_or_ge c x.length with hc | hc
  · rw [List.getD_eq_getElem _ _ hc]
    exact toRat?_of_isFinite (hx _ (List.getElem_mem hc))
  · rw [List.getD_eq_default _ _ hc]
    rfl

/-! ## The activities of both rows of a place -/

namespace BaseLayout

/-- The two rows of a place have equal coefficients, whatever they store. -/
theorem coefficient_blocks (h : BaseLayout n marking lp) (hn : n.WellFormed)
    (hp : p < n.numPlaces) (c : ℕ) :
    lp.coefficient (p + 1) c = lp.coefficient (n.numPlaces + 1 + p) c := by
  by_cases hc : c = 0 ∨ n.numTransitions < c
  · have hempty (r : ℕ) : lp.stored? r c = none := h.outside r c (by omega)
    rw [coefficient, coefficient, hempty, hempty]
  · obtain ⟨t, rfl⟩ : ∃ t, c = t + 1 := Nat.exists_eq_succ_of_ne_zero (by omega)
    obtain ⟨hfirst, hsecond⟩ := h.coefficient_eq hn hp (t := t) (by omega)
    rw [hfirst, hsecond]

theorem gather_blocks (h : BaseLayout n marking lp) (hn : n.WellFormed)
    (hx : ∀ value ∈ x, value.isFinite = true) (hp : p < n.numPlaces) :
    SameNumber (lp.gather x (p + 1)) (lp.gather x (n.numPlaces + 1 + p)) := by
  have hsum : lp.rowSum x (p + 1) = lp.rowSum x (n.numPlaces + 1 + p) := by
    simp only [rowSum, h.coefficient_blocks hn hp]
  have hfirst : SameNumber (lp.gather x (p + 1)) (lp.rowSum x (p + 1)) := gather_same hx _
  rw [hsum] at hfirst
  exact hfirst.trans (gather_same hx _).symm

/-- For a vector that covers the columns, the activity is the change that doubles add up. -/
theorem gather_change (h : BaseLayout n marking lp) (hn : n.WellFormed)
    (hx : ∀ value ∈ x, value.isFinite = true) (hlength : x.length = n.numTransitions + 1)
    (hp : p < n.numPlaces) :
    SameNumber (lp.gather x (n.numPlaces + 1 + p)) (n.roundedChange x p n.numTransitions) := by
  refine (gather_same hx _).trans ?_
  rw [rowSum, h.numCols_eq, hlength, Nat.min_self, List.range_succ_eq_map, List.foldl_cons,
    List.foldl_map, Net.roundedChange]
  refine List.foldl_rel ?_ ?_
  · -- The first column is empty.
    have hcoef : lp.coefficient (n.numPlaces + 1 + p) 0 = 0 := by
      rw [coefficient, h.outside _ 0 (by omega)]
      rfl
    rw [hcoef]
    exact add_zero_same (toRat?_zero_mul toRat?_zero (toRat?_getD hx 0)) 0
  · intro t ht acc acc' hacc
    rw [Nat.succ_eq_add_one, (h.coefficient_eq hn hp (List.mem_range.mp ht)).2]
    exact hacc.add_right _

/-! ## The verdict -/

theorem meets_effect_iff (h : BaseLayout n marking lp) (hp : p < n.numPlaces) :
    lp.meets x (n.numPlaces + 1 + p) = true ↔
      (Bound.lower 0).contains (lp.gather x (n.numPlaces + 1 + p)) feasibilityTolerance = true := by
  rw [meets, h.effectBound p hp, Option.all_some]

/-- The first row of a place accepts what the second one accepts. -/
theorem meets_state_of_effect (h : BaseLayout n marking lp) (hn : n.WellFormed)
    (hmarking : marking.length = n.numPlaces) (hx : ∀ value ∈ x, value.isFinite = true)
    (hp : p < n.numPlaces) (heffect : lp.meets x (n.numPlaces + 1 + p) = true) :
    lp.meets x (p + 1) = true := by
  have hweight : marking[p]? = some marking[p] := List.getElem?_eq_getElem (hmarking ▸ hp)
  rw [h.meets_effect_iff hp, ← Bound.contains_congr _ (h.gather_blocks hn hx hp)] at heffect
  rw [meets, h.stateBound p _ hweight, Option.all_some]
  exact Bound.contains_lower_neg_weight_of_zero _ heffect

theorem contains_columns_iff (h : BaseLayout n marking lp)
    (hx : ∀ value ∈ x, value.isFinite = true) (hlength : x.length = n.numTransitions + 1) :
    (∀ c value, x[c]? = some value → ∀ b, lp.colBound? c = some b →
      b.contains value feasibilityTolerance = true) ↔
    ∀ value ∈ x, -number feasibilityTolerance ≤ number value := by
  have hcontains (value : Float) (hvalue : value ∈ x) :=
    Bound.contains_lower_zero_iff (toRat?_of_isFinite (hx value hvalue))
  constructor
  · intro hcols value hvalue
    obtain ⟨c, hc⟩ := List.mem_iff_getElem?.mp hvalue
    have hlt := (List.getElem?_eq_some_iff.mp hc).1
    exact (hcontains value hvalue).mp (hcols c value hc _ (h.colBound c (by omega)))
  · intro hentries c value hc b hb
    have hvalue := List.mem_of_getElem? hc
    have hlt := (List.getElem?_eq_some_iff.mp hc).1
    cases (h.colBound c (by omega)).symm.trans hb
    exact (hcontains value hvalue).mpr (hentries value hvalue)

/-- The marking has no part in what satisfies the program. -/
theorem satisfies_iff (h : BaseLayout n marking lp) (hn : n.WellFormed)
    (hmarking : marking.length = n.numPlaces) (hx : ∀ value ∈ x, value.isFinite = true) :
    lp.Satisfies x ↔ Admissible n x ∧
      ∀ p < n.numPlaces, -feasibilityTolerance ≤ n.roundedChange x p n.numTransitions := by
  have heffect (hlength : x.length = n.numTransitions + 1) (p : ℕ) (hp : p < n.numPlaces) :
      lp.meets x (n.numPlaces + 1 + p) = true ↔
        -feasibilityTolerance ≤ n.roundedChange x p n.numTransitions := by
    rw [h.meets_effect_iff hp, Bound.contains_congr _ (h.gather_change hn hx hlength hp),
      Bound.contains_lower_iff_le]
    rfl
  constructor
  · intro hsat
    have hlength := hsat.length_eq.trans h.numCols_eq
    refine ⟨⟨hlength, (h.contains_columns_iff hx hlength).mp hsat.column⟩, ?_⟩
    intro p hp
    refine (heffect hlength p hp).mp (hsat.row _ ?_)
    rw [h.numRows_eq]
    omega
  · rintro ⟨⟨hlength, hentries⟩, hchanges⟩
    have hsecond (p : ℕ) (hp : p < n.numPlaces) : lp.meets x (n.numPlaces + 1 + p) = true :=
      (heffect hlength p hp).mpr (hchanges p hp)
    refine ⟨hlength.trans h.numCols_eq.symm, (h.contains_columns_iff hx hlength).mpr hentries, ?_⟩
    intro r hr
    rw [h.numRows_eq] at hr
    rcases Nat.lt_or_ge n.numPlaces r with hblock | hblock
    · obtain ⟨p, rfl⟩ := Nat.exists_eq_add_of_lt hblock
      rw [Nat.add_right_comm]
      exact hsecond p (by omega)
    · cases r with
      | zero => exact h.meets_zero x
      | succ p => exact h.meets_state_of_effect hn hmarking hx hblock (hsecond p hblock)

end BaseLayout

/-! ## Sums that need no rounding -/

theorem Net.effectAt_cast (n : Net) (p t : ℕ) :
    (n.effectAt p t : ℚ) = (n.outputAt p t).toNat - (n.takenAt p t).toNat := by
  rw [Net.effectAt, Int.cast_sub, Int.cast_natCast, Int.cast_natCast]

theorem Unrounded.toRat?_effect (h : Unrounded n x) (hp : p < n.numPlaces) {t : ℕ}
    (ht : t < n.numTransitions) :
    toRat? ((n.outputAt p t).toFloat - (n.takenAt p t).toFloat) = some (n.effectAt p t : ℚ) := by
  have heffect := h.effect p hp t ht
  rw [n.effectAt_cast] at heffect ⊢
  exact toRat?_sub_exact (toRat?_toFloat_exact (h.output p hp t ht))
    (toRat?_toFloat_exact (h.taken p hp t ht)) heffect

/-- If nothing is rounded, doubles add up to the exact change. -/
theorem Unrounded.toRat?_roundedChange (h : Unrounded n x)
    (hx : ∀ value ∈ x, value.isFinite = true) (hp : p < n.numPlaces) {k : ℕ}
    (hk : k ≤ n.numTransitions) :
    toRat? (n.roundedChange x p k) = some (n.exactChange x p k) := by
  induction k with
  | zero => exact toRat?_zero
  | succ k ih =>
    have hsum := h.sum p hp (k + 1) hk
    rw [Net.exactChange, Finset.sum_range_succ] at hsum ⊢
    rw [Net.roundedChange, List.range_succ, List.foldl_append, List.foldl_cons, List.foldl_nil]
    have hproduct := toRat?_mul_exact (h.toRat?_effect hp hk) (toRat?_getD hx (k + 1))
      (h.product p hp k hk)
    exact toRat?_add_exact (ih (Nat.le_of_succ_le hk)) hproduct hsum

theorem Unrounded.change_iff (h : Unrounded n x) (hx : ∀ value ∈ x, value.isFinite = true)
    (hp : p < n.numPlaces) : -feasibilityTolerance ≤ n.roundedChange x p n.numTransitions ↔
      -number feasibilityTolerance ≤ n.exactChange x p n.numTransitions := by
  have hchange := h.toRat?_roundedChange hx hp le_rfl
  have hcontains := Bound.contains_lower_zero_iff hchange
  rwa [Bound.contains_lower_iff_le] at hcontains

/-- The numbers of firings in a sequence that is counted exactly need no rounding. -/
theorem FiringVector.unrounded {ts : List TransitionId} (h : FiringVector n ts x)
    (hexact : ExactlyCounted n ts) : Unrounded n x := by
  have hproduct {t : ℕ} (ht : t < n.numTransitions) (p : ℕ) :
      n.effectAt p t * number (x.getD (t + 1) 0) =
        ((occurrences ts t * n.effectAt p t : ℤ) : ℚ) := by
    have hlt : t + 1 < x.length := by
      rw [h.length_eq]
      omega
    have hcount := h.count t _ (List.getElem?_eq_getElem hlt)
    rw [List.getD_eq_getElem _ _ hlt, number, hcount, Option.getD_some, mul_comm, Int.cast_mul,
      Int.cast_natCast]
  constructor
  case output =>
    intro p hp t ht
    exact representable_natCast (hexact.output_lt p hp t ht)
  case taken =>
    intro p hp t ht
    exact representable_natCast (hexact.taken_lt p hp t ht)
  case effect =>
    intro p hp t ht
    have houtput := hexact.output_lt p hp t ht
    have htaken := hexact.taken_lt p hp t ht
    refine representable_intCast ?_
    rw [Net.effectAt]
    omega
  case product =>
    intro p hp t ht
    rw [hproduct ht]
    exact representable_intCast (hexact.product_lt p hp t ht)
  case sum =>
    intro p hp k hk
    rw [Net.exactChange, Finset.sum_congr rfl fun t ht =>
      hproduct (Nat.lt_of_lt_of_le (Finset.mem_range.mp ht) hk) p, ← Int.cast_sum]
    exact representable_intCast (hexact.sum_lt p hp k hk)

theorem admissible_of_nonneg (hlength : x.length = n.numTransitions + 1)
    (h : ∀ value ∈ x, 0 ≤ number value) : Admissible n x := by
  refine ⟨hlength, ?_⟩
  intro value hvalue
  exact (neg_nonpos.mpr Bound.number_tolerance_nonneg).trans (h value hvalue)

theorem FiringVector.admissible {ts : List TransitionId} (h : FiringVector n ts x) :
    Admissible n x := by
  refine admissible_of_nonneg h.length_eq ?_
  intro value hvalue
  obtain ⟨c, hc⟩ := List.mem_iff_getElem?.mp hvalue
  cases c with
  | zero => rw [number, h.reserved value hc, Option.getD_some]
  | succ t =>
    rw [number, h.count t value hc, Option.getD_some]
    exact Nat.cast_nonneg _

/-! ## Programs that are answered -/

/-- The verdict on a vector exists, and the marking has no part in it. -/
theorem Net.WellFormed.exists_verdict (hn : n.WellFormed)
    (hx : ∀ value ∈ x, value.isFinite = true) (hlp : Answered n marking lp) :
    ∃ verdict, lp.isSatisfiedBy x = .ok verdict ∧
      (verdict = true ↔ Admissible n x ∧ ∀ p < n.numPlaces,
        -feasibilityTolerance ≤ n.roundedChange x p n.numTransitions) := by
  have hcontents := contents_of_untimed (answered_iff_untimed.mp hlp)
  have hlayout := hcontents.layout hn
  obtain ⟨verdict, hanswer, hsat⟩ := hlayout.rowsInRange.exists_isSatisfiedBy x
  exact ⟨verdict, hanswer, hsat.trans (hlayout.satisfies_iff hn hcontents.covered hx)⟩

theorem Net.WellFormed.exists_answered (hn : n.WellFormed)
    (hmarking : marking.length = n.numPlaces) : ∃ lp : SparseLp, Answered n marking lp := by
  obtain ⟨lp, huntimed⟩ := hn.sortedArcs.encodable.exists_untimed hn.observable hmarking
  exact ⟨lp, answered_iff_untimed.mpr huntimed⟩

/-- The vectors that satisfy a base program are the same for all markings: they cover the columns,
and nothing in them and no change that they make is below zero by more than the tolerance. The
changes are added up in doubles; if nothing is rounded, they are exact. The first row of a place
accepts whatever the second one accepts. -/
theorem base_solutions (n : Net) (hn : n.WellFormed) (x : List Float)
    (hx : ∀ value ∈ x, value.isFinite = true) :
    (∀ (marking marking' : List Weight) (lp lp' : SparseLp), Answered n marking lp →
      Answered n marking' lp' → lp.isSatisfiedBy x = lp'.isSatisfiedBy x) ∧
    ∀ (marking : List Weight) (lp : SparseLp), Answered n marking lp →
      (∃ verdict, lp.isSatisfiedBy x = .ok verdict ∧
        (verdict = true ↔ Admissible n x ∧ ∀ p < n.numPlaces,
          -feasibilityTolerance ≤ n.roundedChange x p n.numTransitions) ∧
        (Unrounded n x → (verdict = true ↔ Admissible n x ∧ ∀ p < n.numPlaces,
          -number feasibilityTolerance ≤ n.exactChange x p n.numTransitions))) ∧
      ∃ rows, lp.violatedRows x = .ok rows ∧
        ∀ p < n.numPlaces, p + 1 ∈ rows → n.numPlaces + 1 + p ∈ rows := by
  refine ⟨?_, ?_⟩
  · intro marking marking' lp lp' hlp hlp'
    obtain ⟨verdict, hanswer, hiff⟩ := hn.exists_verdict hx hlp
    obtain ⟨verdict', hanswer', hiff'⟩ := hn.exists_verdict hx hlp'
    rw [hanswer, hanswer', Bool.eq_iff_iff.mpr (hiff.trans hiff'.symm)]
  · intro marking lp hlp
    obtain ⟨verdict, hanswer, hiff⟩ := hn.exists_verdict hx hlp
    have hcontents := contents_of_untimed (answered_iff_untimed.mp hlp)
    have hlayout := hcontents.layout hn
    refine ⟨⟨verdict, hanswer, hiff, ?_⟩, _, hlayout.rowsInRange.violatedRows_eq x, ?_⟩
    · intro hunrounded
      rw [hiff]
      refine and_congr_right fun _ => forall₂_congr ?_
      intro p hp
      exact hunrounded.change_iff hx hp
    · intro p hp
      have hrow : n.numPlaces + 1 + p < lp.numRows := by
        rw [hlayout.numRows_eq]
        omega
      simp only [List.mem_filter, List.mem_range, Bool.not_eq_true', ← Bool.not_eq_true]
      rintro ⟨-, hviolated⟩
      exact ⟨hrow, mt (hlayout.meets_state_of_effect hn hcontents.covered hx hp) hviolated⟩

/-- One move along the belt and one refill. -/
def roundTrip : List Float := [0, (1 : Weight).toFloat, (1 : Weight).toFloat]

theorem firingVector_roundTrip : FiringVector belt [⟨0⟩, ⟨1⟩] roundTrip where
  length_eq := rfl
  reserved value hvalue := by
    obtain rfl : 0 = value := Option.some.inj hvalue
    exact toRat?_zero
  count t value hvalue := by
    rcases t with _ | _ | t
    · obtain rfl := Option.some.inj hvalue
      exact toRat?_toFloat_of_lt (by decide)
    · obtain rfl := Option.some.inj hvalue
      exact toRat?_toFloat_of_lt (by decide)
    · cases hvalue

theorem base_solutions_belt : belt.WellFormed ∧ (∀ value ∈ roundTrip, value.isFinite = true) ∧
    ∃ lp lp' : SparseLp, Answered belt [2, 0] lp ∧ Answered belt [0, 7] lp' ∧
      Unrounded belt roundTrip ∧ lp.isSatisfiedBy roundTrip = .ok true ∧
        lp'.isSatisfiedBy roundTrip = .ok true := by
  have hn : belt.WellFormed := by decide
  have hx : ∀ value ∈ roundTrip, value.isFinite = true := by decide
  have hunrounded : Unrounded belt roundTrip :=
    firingVector_roundTrip.unrounded ⟨by decide, by decide, by decide, by decide⟩
  obtain ⟨lp, hlp⟩ : ∃ lp : SparseLp, Answered belt [2, 0] lp := hn.exists_answered rfl
  obtain ⟨lp', hlp'⟩ : ∃ lp : SparseLp, Answered belt [0, 7] lp := hn.exists_answered rfl
  obtain ⟨hsame, hverdict⟩ := base_solutions belt hn roundTrip hx
  obtain ⟨⟨verdict, hanswer, hrounded, -⟩, -⟩ := hverdict [2, 0] lp hlp
  obtain rfl : verdict = true :=
    hrounded.mpr ⟨firingVector_roundTrip.admissible, by decide⟩
  refine ⟨hn, hx, lp, lp', hlp, hlp', hunrounded, hanswer, ?_⟩
  rw [← hsame [2, 0] [0, 7] lp lp' hlp hlp', hanswer]

/-- Two transitions drain the tub, and the third one fills it. -/
def tub : Net where
  places := ⟨#[⟨"tub", 0⟩]⟩
  transitions := ⟨#[⟨"drain"⟩, ⟨"drip"⟩, ⟨"fill"⟩]⟩
  pre := ⟨⟨#[#[1, 1, 0]]⟩, 3⟩
  post := ⟨⟨#[#[0, 0, 1]]⟩, 3⟩
  inhibitor := ⟨⟨#[#[false, false, false]]⟩, 3⟩

/-- As many fillings as drainings, and one drop more. -/
def lostDrop : List Float :=
  [0, (9007199254740992 : Weight).toFloat, (1 : Weight).toFloat,
    (9007199254740992 : Weight).toFloat]

/-- The drop is lost in rounding: the vector satisfies the base program of the tub, although the
tub loses a token. -/
theorem drop_unnoticed : tub.WellFormed ∧ (∀ value ∈ lostDrop, value.isFinite = true) ∧
    ∃ lp : SparseLp, Answered tub [0] lp ∧ lp.isSatisfiedBy lostDrop = .ok true ∧
      ¬ (Admissible tub lostDrop ∧ ∀ p < tub.numPlaces,
        -number feasibilityTolerance ≤ tub.exactChange lostDrop p tub.numTransitions) := by
  have hn : tub.WellFormed := by decide
  have hx : ∀ value ∈ lostDrop, value.isFinite = true := by decide
  have hmany : number (9007199254740992 : Weight).toFloat = 2 ^ (53 : ℤ) := by
    have hword : ((9007199254740992 : Weight).toNat : ℚ) = 2 ^ (53 : ℤ) := by
      have hnat : (9007199254740992 : Weight).toNat = 9007199254740992 := rfl
      rw [hnat]
      norm_num
    rw [number_toFloat, hword]
    rw [hword]
    exact representable_two_zpow (by norm_num) (by norm_num)
  have hone : number (1 : Weight).toFloat = 1 := by
    simpa using number_toFloat (w := 1) (representable_natCast (by decide))
  obtain ⟨lp, hlp⟩ : ∃ lp : SparseLp, Answered tub [0] lp := hn.exists_answered rfl
  obtain ⟨verdict, hanswer, hrounded⟩ := hn.exists_verdict hx hlp
  have hadmissible : Admissible tub lostDrop := by
    refine admissible_of_nonneg rfl ?_
    have hzero : number 0 = 0 := rfl
    simp only [lostDrop, List.forall_mem_cons, hzero, hmany, hone]
    norm_num
  obtain rfl : verdict = true := hrounded.mpr ⟨hadmissible, by decide⟩
  refine ⟨hn, hx, lp, hlp, hanswer, ?_⟩
  rintro ⟨-, hexact⟩
  have hloss : tub.exactChange lostDrop 0 3 = -1 := by
    have h₀ : tub.effectAt 0 0 = -1 := rfl
    have h₁ : tub.effectAt 0 1 = -1 := rfl
    have h₂ : tub.effectAt 0 2 = 1 := rfl
    simp only [Net.exactChange, Finset.sum_range_succ, Finset.sum_range_zero, h₀, h₁, h₂, lostDrop,
      List.getD_cons_succ, List.getD_cons_zero, hmany, hone]
    norm_num
  have hbound := hexact 0 (by decide)
  have hcols : tub.numTransitions = 3 := rfl
  rw [hcols, hloss, Bound.number_tolerance] at hbound
  norm_num at hbound

end PetriAnalysis
