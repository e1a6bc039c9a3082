import PetriAnalysis.Lp.Feasibility
import PetriAnalysis.Proofs.Double.Zero

/-!
# Bounds and finite doubles

A bound is valid if its sides are numbers in ascending order, which is so for the free bound and
for bounds from below by finite doubles. A finite double meets a bound from below if it is not below
it by more than the tolerance, and it always meets the free bound. No bound sees the sign of a zero,
and what meets the bound zero meets the negative of every weight.

## Main definitions

* `Bound.Ordered` — the sides are numbers in ascending order.
-/

namespace PetriAnalysis.Bound

open Double SparseLp

variable {x y b : Float} {a c : ℚ}

/-- Both sides are numbers, and the lower one is at most the upper one. -/
def Ordered (bound : Bound) : Prop :=
  bound.least.isNaN = false ∧ bound.greatest.isNaN = false ∧ bound.least ≤ bound.greatest

theorem ordered_iff_valid (bound : Bound) : bound.Ordered ↔ bound.Valid :=
  and_congr_right fun hleast => and_congr_right fun hgreatest =>
    (not_lt_iff_le hleast hgreatest).symm

theorem unpack_infinity : infinity.toModel.unpack = .infinity .positive := rfl

theorem valid_lower (hb : toRat? b = some c) : (lower b).Valid :=
  ⟨isNaN_of_toRat? hb, (by decide : infinity.isNaN = false),
    not_lt_of_unpack_infinity hb unpack_infinity⟩

theorem valid_free : free.Valid := by decide

theorem contains_iff (bound : Bound) (x tolerance : Float) : bound.contains x tolerance = true ↔
    bound.least - tolerance ≤ x ∧ x ≤ bound.greatest + tolerance := by
  rw [contains, Bool.and_eq_true, decide_eq_true_iff, decide_eq_true_iff]

theorem contains_free (hx : toRat? x = some a) : free.contains x feasibilityTolerance = true :=
  (contains_iff _ _ _).mpr ⟨le_of_unpack_neg_infinity hx rfl, le_of_unpack_infinity hx rfl⟩

/-- No bound sees the sign of a zero. -/
theorem contains_congr (bound : Bound) (h : SameNumber x y) (tolerance : Float) :
    bound.contains x tolerance = bound.contains y tolerance := by
  rw [Bool.eq_iff_iff, contains_iff, contains_iff, (h.le_iff _).1, (h.le_iff _).2]

/-- A bound from below only asks for its least value. -/
theorem contains_lower_iff_le :
    (lower b).contains x feasibilityTolerance = true ↔ b - feasibilityTolerance ≤ x := by
  have hhigh (h : b - feasibilityTolerance ≤ x) : x ≤ infinity + feasibilityTolerance :=
    le_infinity_of_le h rfl
  rw [contains_iff]
  exact and_iff_left_of_imp hhigh

theorem contains_lower_iff (hb : toRat? (b - feasibilityTolerance) = some c)
    (hx : toRat? x = some a) : (lower b).contains x feasibilityTolerance = true ↔ c ≤ a := by
  rw [contains_lower_iff_le, le_iff_of_toRat? hb hx]

/-- The tolerance, as it is stored. -/
theorem number_tolerance : number feasibilityTolerance = 4835703278458517 * 2 ^ (-82 : ℤ) := by
  have hunpack : feasibilityTolerance.toModel.unpack =
      .finite .positive 4835703278458517 (-82) (by norm_num) := rfl
  rw [number, toRat?, hunpack, value?_finite]
  norm_num [factor]

theorem toRat?_tolerance : toRat? feasibilityTolerance = some (number feasibilityTolerance) :=
  toRat?_of_isFinite rfl

theorem toRat?_zero_sub_tolerance :
    toRat? (0 - feasibilityTolerance) = some (-number feasibilityTolerance) := by
  have hunpack : (0 - feasibilityTolerance).toModel.unpack =
      .finite .negative 4835703278458517 (-82) (by norm_num) := rfl
  rw [toRat?, hunpack, value?_finite, number_tolerance]
  norm_num [factor]

theorem number_tolerance_nonneg : 0 ≤ number feasibilityTolerance := by
  rw [number_tolerance]
  positivity

/-- A finite double meets the bound zero if it is not below it by more than the tolerance. -/
theorem contains_lower_zero_iff (hx : toRat? x = some a) :
    (lower 0).contains x feasibilityTolerance = true ↔ -number feasibilityTolerance ≤ a :=
  contains_lower_iff toRat?_zero_sub_tolerance hx

/-- An integer meets the bound zero exactly if it is not negative. -/
theorem contains_lower_zero_iff_nonneg {n : ℤ} (hx : toRat? x = some (n : ℚ)) :
    (lower 0).contains x feasibilityTolerance = true ↔ 0 ≤ n := by
  rw [contains_lower_zero_iff hx]
  constructor
  · intro h
    have : (-1 : ℚ) < n := lt_of_lt_of_le (by norm_num [number_tolerance]) h
    have : -1 < n := by exact_mod_cast this
    omega
  · intro h
    have : (0 : ℚ) ≤ n := by exact_mod_cast h
    exact (neg_nonpos.mpr number_tolerance_nonneg).trans this

/-- The least value that meets the negative of a weight. -/
theorem toRat?_least_neg_weight (w : UInt64) :
    toRat? (0 - w.toFloat - feasibilityTolerance) =
      some (rnd (-rnd (w.toNat : ℚ) - number feasibilityTolerance)) := by
  have hbound : |-rnd (w.toNat : ℚ) - number feasibilityTolerance| ≤ 2 ^ (65 : ℤ) := by
    have hlow := rnd_nonneg (q := (w.toNat : ℚ)) (by positivity)
    have hhigh := abs_rnd_le (by norm_num) (abs_toNat_le w)
    rw [abs_of_nonneg hlow] at hhigh
    rw [abs_le, number_tolerance]
    norm_num at hhigh ⊢
    constructor <;> linarith
  exact toRat?_sub (toRat?_neg_toFloat w) toRat?_tolerance
    (abs_rnd_lt_of_le (by norm_num) (by norm_num) hbound)

/-- Whatever is not below the negative of a weight meets the bound that stands for it. -/
theorem contains_lower_neg_weight {w : UInt64} {n : ℤ} (hn : n.natAbs < 2 ^ 53)
    (hw : -(w.toNat : ℤ) ≤ n) (hx : toRat? x = some (n : ℚ)) :
    (lower (0 - w.toFloat)).contains x feasibilityTolerance = true := by
  have htolerance := number_tolerance_nonneg
  rw [contains_lower_iff (toRat?_least_neg_weight w) hx]
  calc rnd (-rnd (w.toNat : ℚ) - number feasibilityTolerance)
      ≤ rnd (-rnd (w.toNat : ℚ)) := rnd_mono (by linarith)
    _ = rnd (-(w.toNat : ℚ)) := by rw [rnd_neg, rnd_of_toRat? (toRat?_toFloat w), rnd_neg]
    _ ≤ rnd (n : ℚ) := rnd_mono (by exact_mod_cast hw)
    _ = n := rnd_intCast hn

/-- Whatever meets the bound zero, finite or not, meets the negative of any weight. -/
theorem contains_lower_neg_weight_of_zero (w : UInt64)
    (hx : (lower 0).contains x feasibilityTolerance = true) :
    (lower (0 - w.toFloat)).contains x feasibilityTolerance = true := by
  have hweight := rnd_nonneg (q := (w.toNat : ℚ)) (by positivity)
  have hle : rnd (-rnd (w.toNat : ℚ) - number feasibilityTolerance) ≤
      -number feasibilityTolerance := calc
    _ ≤ rnd (-number feasibilityTolerance) := rnd_mono (by linarith)
    _ = -number feasibilityTolerance := rnd_of_toRat? toRat?_zero_sub_tolerance
  rw [contains_lower_iff_le] at hx ⊢
  exact le_of_toRat?_of_le (toRat?_least_neg_weight w) toRat?_zero_sub_tolerance hle hx

end PetriAnalysis.Bound
