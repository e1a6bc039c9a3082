import Mathlib
import PetriAnalysis.Proofs.Double.Rounding

/-!
# Doubles as sign, mantissa and exponent

The arithmetic of doubles works on their unpacked form. A finite number has one canonical form,
whose exponent is that of its grid. Rounding an unpacked number agrees with `rnd` and gives a
canonical form, and canonical forms are compared like the numbers that they stand for.

## Main definitions

* `value? u` — the number that an unpacked double stands for.
* `Normalized m e`, `Canonical u` — canonical forms.
* `Describes em q` — a shifted mantissa with its two residual bits stands for `q`.
-/

namespace PetriAnalysis.Double

open Float.Model Float.Model.UnpackedFloat

/-- The number that an unpacked double stands for, if it is finite. -/
def value? : UnpackedFloat → Option ℚ
  | .zero _ => some 0
  | .finite s m e _ => some (s.apply m * 2 ^ e)
  | .infinity _ => none
  | .notANumber => none

/-- A mantissa and an exponent as they are stored. -/
def Normalized (m : ℕ) (e : ℤ) : Prop :=
  m < 2 ^ 53 ∧ -1074 ≤ e ∧ (2 ^ 52 ≤ m ∨ e = -1074)

/-- An unpacked double as it is stored, apart from exponents that are too large. -/
def Canonical : UnpackedFloat → Prop
  | .finite _ m e _ => Normalized m e
  | _ => True

/-- The sign of a number as a factor. -/
def factor : Sign → ℚ
  | .negative => -1
  | .positive => 1

@[simp] theorem factor_neg (s : Sign) : factor (-s) = -factor s := by
  cases s
  · exact (neg_neg (1 : ℚ)).symm
  · rfl

@[simp] theorem factor_mul (s s' : Sign) : factor (s * s') = factor s * factor s' := by
  cases s <;> cases s'
  · exact (by norm_num : (1 : ℚ) = -1 * -1)
  · exact (mul_one (-1 : ℚ)).symm
  · exact (one_mul (-1 : ℚ)).symm
  · exact (one_mul (1 : ℚ)).symm

theorem apply_cast (s : Sign) (n : ℤ) : ((s.apply n : ℤ) : ℚ) = factor s * n := by
  cases s <;> simp [Sign.apply, factor]

theorem value?_finite (s : Sign) (m : ℕ) (e : ℤ) (hm : 0 < m) :
    value? (.finite s m e hm) = some (factor s * (m * 2 ^ e)) := by
  simp only [value?, apply_cast, Int.cast_natCast, mul_assoc]

/-- The finite forms, and the numbers that they stand for. -/
inductive StandsFor : UnpackedFloat → ℚ → Prop where
  | zero (s : Sign) : StandsFor (.zero s) 0
  | finite (s : Sign) (m : ℕ) (e : ℤ) (hm : 0 < m) :
      StandsFor (.finite s m e hm) (factor s * (m * 2 ^ e))

theorem standsFor_of_value? {u : UnpackedFloat} {a : ℚ} (h : value? u = some a) :
    StandsFor u a := by
  cases u with
  | zero s =>
    obtain rfl : 0 = a := Option.some.inj h
    exact .zero s
  | finite s m e hm =>
    rw [value?_finite, Option.some.injEq] at h
    rw [← h]
    exact .finite s m e hm
  | infinity s => cases h
  | notANumber => cases h

theorem rnd_factor_mul (s : Sign) {q : ℚ} (hq : 0 ≤ q) :
    rnd (factor s * q) = factor s * rndMagnitude q := by
  cases s <;> simp [factor, rnd_of_nonneg hq]

/-! ## The exponent of the grid -/

theorem log_mantissa {m : ℕ} (hm : 0 < m) (e : ℤ) :
    Int.log 2 ((m : ℚ) * 2 ^ e) = m.log2 + e := by
  have hq : (0 : ℚ) < m * 2 ^ e := by positivity
  have hlow : ((2 : ℕ) : ℚ) ^ ((m.log2 : ℤ) + e) ≤ m * 2 ^ e := by
    rw [Nat.cast_ofNat, zpow_add₀ two_ne_zero, zpow_natCast]
    gcongr
    exact_mod_cast Nat.log2_self_le hm.ne'
  have hhigh : (m : ℚ) * 2 ^ e < ((2 : ℕ) : ℚ) ^ ((m.log2 : ℤ) + e + 1) := by
    rw [show (m.log2 : ℤ) + e + 1 = ((m.log2 + 1 : ℕ) : ℤ) + e by push_cast; ring,
      Nat.cast_ofNat, zpow_add₀ two_ne_zero, zpow_natCast]
    gcongr
    exact_mod_cast Nat.lt_log2_self
  have h₁ := (Int.zpow_le_iff_le_log (by norm_num) hq).mp hlow
  have h₂ := (Int.lt_zpow_iff_log_lt (by norm_num) hq).mp hhigh
  omega

theorem targetExponent_eq (m : ℕ) (e : ℤ) :
    Format.binary64.targetExponent (totalExponent m e) = max (m.log2 + e - 52) (-1074) := by
  simp only [Format.targetExponent, totalExponent, Format.mantissaBits, Format.minExponent]
  push_cast
  omega

theorem gridExponent_mantissa {m : ℕ} (hm : 0 < m) (e : ℤ) :
    gridExponent (m * 2 ^ e) = max (m.log2 + e - 52) (-1074) := by
  rw [gridExponent, log_mantissa hm]

/-! ## Shifting a mantissa -/

/-- The mantissa is the integral part of `q`, the round bit tells whether the rest reaches one
half, and the sticky bit whether anything is left over after that. -/
def Describes (em : ExtendedMantissa) (q : ℚ) : Prop :=
  ∃ rest : ℚ, 0 ≤ rest ∧ rest < 1 / 2 ∧ (em.stickyBit = true ↔ 0 < rest) ∧
    q = em.mantissa + (if em.roundBit then 1 / 2 else 0) + rest

theorem describes_exact (m : ℕ) : Describes ⟨m, false, false⟩ m :=
  ⟨0, le_rfl, by norm_num, by simp, by simp⟩

theorem Describes.shiftRightOne {em : ExtendedMantissa} {q : ℚ} (h : Describes em q) :
    Describes em.shiftRightOne (q / 2) := by
  obtain ⟨m, round, sticky⟩ := em
  obtain ⟨rest, hnonneg, hlt, hsticky, rfl⟩ := h
  have hparity : (m : ℚ) = 2 * (m / 2 : ℕ) + (m % 2 : ℕ) := by
    exact_mod_cast (Nat.div_add_mod m 2).symm
  have hbit : m % 2 = 0 ∨ m % 2 = 1 := by omega
  refine ⟨(if round then 1 / 2 else 0) / 2 + rest / 2, ?_, ?_, ?_, ?_⟩
  · split_ifs <;> linarith
  · split_ifs <;> linarith
  · cases round
    · simpa [ExtendedMantissa.shiftRightOne] using hsticky
    · simp only [ExtendedMantissa.shiftRightOne, Bool.true_or, if_true, true_iff]
      linarith
  · simp only [ExtendedMantissa.shiftRightOne, bne_iff_ne, ne_eq]
    rw [hparity]
    rcases hbit with hbit | hbit <;> simp only [hbit] <;> norm_num <;> ring

theorem Describes.shiftRight {em : ExtendedMantissa} {q : ℚ} (h : Describes em q) (n : ℕ) :
    Describes (em >>> n) (q / 2 ^ n) := by
  change Describes (n.repeat ExtendedMantissa.shiftRightOne em) _
  induction n with
  | zero => simpa [Nat.repeat] using h
  | succ n ih =>
    rw [pow_succ, ← div_div]
    exact ih.shiftRightOne

theorem Describes.floor_eq {em : ExtendedMantissa} {q : ℚ} (h : Describes em q) :
    ⌊q⌋ = em.mantissa := by
  obtain ⟨rest, hnonneg, hlt, -, rfl⟩ := h
  rw [Int.floor_eq_iff]
  push_cast
  constructor <;> split_ifs <;> linarith

/-- The two residual bits are enough to round. -/
theorem Describes.roundedMantissa_eq {em : ExtendedMantissa} {q : ℚ} (h : Describes em q) :
    (em.roundedMantissa : ℤ) = roundEven q := by
  have hfloor := h.floor_eq
  obtain ⟨m, round, sticky⟩ := em
  obtain ⟨rest, hnonneg, hlt, hsticky, hq⟩ := h
  have hrest : q - ⌊q⌋ = (if round then 1 / 2 else 0) + rest := by
    rw [hfloor, hq]
    push_cast
    ring
  rw [roundEven, hrest, hfloor]
  cases sticky
  · have hzero : rest = 0 := by
      simp only [Bool.false_eq_true, false_iff, not_lt] at hsticky
      linarith
    cases round <;>
      simp [hzero, ExtendedMantissa.roundedMantissa, ExtendedMantissa.accuracy,
        Accuracy.roundToNearestEven]
  · have hpos : 0 < rest := by simpa using hsticky
    cases round
    · rw [if_pos (by simpa using hlt)]
      rfl
    · rw [if_neg (by simpa using hnonneg), if_pos (by simpa using hpos)]
      rfl

/-! ## Rounding -/

theorem shiftToTargetExponent_of_le {m : ℕ} {e : ℤ}
    (h : Format.binary64.targetExponent (totalExponent m e) ≤ e) :
    shiftToTargetExponent Format.binary64 m e .exact = (⟨m, false, false⟩, e) := by
  have hshift : (Format.binary64.targetExponent (totalExponent m e) - e).toNat = 0 := by omega
  simp only [shiftToTargetExponent, shiftToExponent, hshift]
  simp [HShiftRight.hShiftRight, Nat.repeat, ExtendedMantissa.ofMantissaAndAccuracy]

/-- The first of the two shifts puts the mantissa on its grid. -/
theorem roundedMantissa_shift {m : ℕ} (hm : 0 < m) {e : ℤ}
    (he : e ≤ gridExponent (m * 2 ^ e)) :
    ∃ em, shiftToTargetExponent Format.binary64 m e .exact = (em, gridExponent (m * 2 ^ e)) ∧
      (em.roundedMantissa : ℤ) = roundEven (m * 2 ^ e / 2 ^ gridExponent (m * 2 ^ e)) := by
  have htarget : Format.binary64.targetExponent (totalExponent m e) =
      gridExponent (m * 2 ^ e) := by
    rw [targetExponent_eq, gridExponent_mantissa hm]
  obtain ⟨k, hk⟩ := Int.eq_ofNat_of_zero_le (sub_nonneg.mpr he)
  refine ⟨(⟨m, false, false⟩ : ExtendedMantissa) >>> k, ?_, ?_⟩
  · have hgrid : e + k = gridExponent (m * 2 ^ e) := by omega
    simp only [shiftToTargetExponent, shiftToExponent, htarget, hk, Int.toNat_natCast, hgrid]
    rfl
  · rw [((describes_exact m).shiftRight k).roundedMantissa_eq, mul_div_assoc,
      ← zpow_sub₀ two_ne_zero, ← neg_sub, hk, zpow_neg, zpow_natCast, div_eq_mul_inv]

/-- A rounded mantissa with at most the digits of its format stays on its grid. -/
theorem shiftToTargetExponent_rounded {r : ℕ} {g : ℤ} (hr : r < 2 ^ 53) (hg : -1074 ≤ g) :
    shiftToTargetExponent Format.binary64 r g .exact = (⟨r, false, false⟩, g) := by
  apply shiftToTargetExponent_of_le
  rw [targetExponent_eq]
  rcases Nat.eq_zero_or_pos r with rfl | hpos
  · simp only [Nat.log2_zero]
    omega
  · have : r.log2 < 53 := (Nat.log2_lt hpos.ne').mpr hr
    omega

/-- A mantissa that was rounded up to one digit more is shifted once more. -/
theorem shiftToTargetExponent_overflow {g : ℤ} (hg : -1074 ≤ g) :
    shiftToTargetExponent Format.binary64 (2 ^ 53) g .exact = (⟨2 ^ 52, false, false⟩, g + 1) := by
  have htarget : Format.binary64.targetExponent (totalExponent (2 ^ 53) g) = g + 1 := by
    rw [targetExponent_eq, Nat.log2_two_pow]
    omega
  simp only [shiftToTargetExponent, shiftToExponent, htarget, add_sub_cancel_left]
  rfl

/-- Rounding agrees with `rnd` and gives a canonical form. -/
theorem roundWithAccuracy_value (s : Sign) {m : ℕ} (hm : 0 < m) {e : ℤ}
    (he : e ≤ gridExponent (m * 2 ^ e)) :
    value? (roundWithAccuracy Format.binary64 s m e .exact) = some (rnd (factor s * (m * 2 ^ e))) ∧
      Canonical (roundWithAccuracy Format.binary64 s m e .exact) := by
  have hq : (0 : ℚ) < m * 2 ^ e := by positivity
  obtain ⟨em, hfirst, hround⟩ := roundedMantissa_shift hm he
  have hle := roundEven_grid_le ((m : ℚ) * 2 ^ e)
  have hfull := le_roundEven_grid hq
  have hmin := gridExponent_ge ((m : ℚ) * 2 ^ e)
  rw [rnd_factor_mul s hq.le]
  rw [rndMagnitude, roundWithAccuracy, hfirst]
  dsimp only
  generalize gridExponent ((m : ℚ) * 2 ^ e) = g at *
  rw [← hround] at hle hfull ⊢
  generalize em.roundedMantissa = r at *
  rcases Nat.lt_or_ge r (2 ^ 53) with hr | hr
  · rw [shiftToTargetExponent_rounded hr hmin]
    dsimp only
    split_ifs with hzero
    · simp [value?, Canonical, hzero]
    · rw [value?_finite]
      refine ⟨by push_cast; rfl, hr, hmin, ?_⟩
      rcases eq_or_ne g (-1074) with hg | hg
      · exact Or.inr hg
      · have := hfull hg
        exact Or.inl (by exact_mod_cast this)
  · obtain rfl : r = 2 ^ 53 := by
      have : r ≤ 2 ^ 53 := by exact_mod_cast hle
      omega
    rw [shiftToTargetExponent_overflow hmin]
    dsimp only
    rw [dif_neg (by norm_num), value?_finite]
    refine ⟨?_, by norm_num, by omega, Or.inl le_rfl⟩
    rw [zpow_add₀ two_ne_zero]
    push_cast
    ring_nf

theorem roundWithAccuracy_zero (s : Sign) (e : ℤ) :
    roundWithAccuracy Format.binary64 s 0 e .exact = .zero s := by
  have hzero (k : ℕ) : ((⟨0, false, false⟩ : ExtendedMantissa) >>> k) = ⟨0, false, false⟩ := by
    change k.repeat ExtendedMantissa.shiftRightOne _ = _
    induction k with
    | zero => rfl
    | succ k ih =>
      rw [Nat.repeat, ih]
      rfl
  have hshift (e : ℤ) : (shiftToTargetExponent Format.binary64 0 e .exact).1 =
      ⟨0, false, false⟩ := hzero _
  have hround : (⟨0, false, false⟩ : ExtendedMantissa).roundedMantissa = 0 := rfl
  simp only [roundWithAccuracy, hshift, hround, dite_true]

/-- Giving a mantissa more digits does not change the number. -/
theorem decreaseExponent_value (m : ℕ) (e t : ℤ) :
    ((decreaseExponent m e t).1 : ℚ) * 2 ^ (decreaseExponent m e t).2 = m * 2 ^ e := by
  simp only [decreaseExponent, Nat.shiftLeft_eq]
  push_cast
  rw [mul_assoc, ← zpow_natCast, ← zpow_add₀ two_ne_zero]
  congr 2
  omega

theorem decreaseExponent_snd {e t : ℤ} (h : t ≤ e) (m : ℕ) : (decreaseExponent m e t).2 = t := by
  simp only [decreaseExponent]
  omega

theorem round_value (s : Sign) (m : ℕ) (e : ℤ) :
    value? (UnpackedFloat.round Format.binary64 s m e) = some (rnd (factor s * (m * 2 ^ e))) ∧
      Canonical (UnpackedFloat.round Format.binary64 s m e) := by
  unfold UnpackedFloat.round
  rcases Nat.eq_zero_or_pos m with rfl | hm
  · simp [decreaseExponent, roundWithAccuracy_zero, value?, Canonical]
  · have hvalue := decreaseExponent_value m e (gridExponent (m * 2 ^ e))
    have hexponent : (decreaseExponent m e (gridExponent (m * 2 ^ e))).2 ≤
        gridExponent (m * 2 ^ e) := by
      simp only [decreaseExponent]
      omega
    rw [targetExponent_eq, ← gridExponent_mantissa hm]
    rcases hd : decreaseExponent m e (gridExponent (m * 2 ^ e)) with ⟨m', e'⟩
    rw [hd] at hvalue hexponent
    dsimp only at hvalue hexponent ⊢
    rw [hd, ← hvalue]
    rw [← hvalue] at hexponent
    have hpos : 0 < m' := by
      have : (0 : ℚ) < m' * 2 ^ e' := by
        rw [hvalue]
        positivity
      exact_mod_cast pos_of_mul_pos_left this (by positivity)
    exact roundWithAccuracy_value s hpos hexponent

/-- Normalizing agrees with `rnd` and gives a canonical form. -/
theorem normalize_value (m e : ℤ) :
    value? (UnpackedFloat.normalize Format.binary64 m e .positive) = some (rnd (m * 2 ^ e)) ∧
      Canonical (UnpackedFloat.normalize Format.binary64 m e .positive) := by
  rw [UnpackedFloat.normalize]
  rcases lt_trichotomy m 0 with hm | rfl | hm
  · have hcast : (((-m).toNat : ℕ) : ℚ) = -m := by
      exact_mod_cast Int.toNat_of_nonneg (by omega : 0 ≤ -m)
    rw [Int.compare_eq_lt.mpr hm]
    simpa [factor, hcast] using round_value .negative (-m).toNat e
  · simp [value?, Canonical]
  · have hcast : ((m.toNat : ℕ) : ℚ) = m := by
      exact_mod_cast Int.toNat_of_nonneg hm.le
    rw [Int.compare_eq_gt.mpr hm]
    simpa [factor, hcast] using round_value .positive m.toNat e

end PetriAnalysis.Double
