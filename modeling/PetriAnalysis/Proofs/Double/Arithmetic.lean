import PetriAnalysis.Proofs.Double.Unpacked

/-!
# Arithmetic and comparison of unpacked doubles

Sums, differences and products of canonical forms stand for the rounded sums, differences and
products of the numbers, and are canonical again. Canonical forms are compared like the numbers.
Signed zeros stand for the same number, so nothing is said here about the sign of a zero.
-/

namespace PetriAnalysis.Double

open Float.Model Float.Model.UnpackedFloat

/-! ## Sums and differences -/

theorem rnd_of_canonical {s : Sign} {m : ℕ} {e : ℤ} {hm : 0 < m}
    (h : Canonical (.finite s m e hm)) : rnd (factor s * (m * 2 ^ e)) = factor s * (m * 2 ^ e) := by
  rw [rnd_factor_mul s (by positivity), rndMagnitude_of_fits h.1 h.2.1]

/-- What a canonical form stands for needs no rounding. -/
theorem rnd_of_value? {u : UnpackedFloat} (hu : Canonical u) {a : ℚ} (ha : value? u = some a) :
    rnd a = a := by
  cases standsFor_of_value? ha with
  | zero s => exact rnd_zero
  | finite s m e hm => exact rnd_of_canonical hu

theorem value?_neg {u : UnpackedFloat} {a : ℚ} (ha : value? u = some a) :
    value? u.neg = some (-a) := by
  cases standsFor_of_value? ha with
  | zero s =>
    rw [neg_zero]
    rfl
  | finite s m e hm => rw [UnpackedFloat.neg, value?_finite, factor_neg, neg_mul]

theorem canonical_neg {u : UnpackedFloat} (hu : Canonical u) : Canonical u.neg := by
  cases u <;> exact hu

/-- Two numbers are added on the finer of their grids. -/
theorem aligned_value (s : Sign) (m : ℕ) {e t : ℤ} (h : t ≤ e) :
    ((s.apply ((decreaseExponent m e t).1 : ℤ) : ℤ) : ℚ) * 2 ^ t = factor s * (m * 2 ^ e) := by
  have hvalue := decreaseExponent_value m e t
  rw [decreaseExponent_snd h] at hvalue
  rw [apply_cast, Int.cast_natCast, mul_assoc, hvalue]

theorem add_value {u v : UnpackedFloat} (hu : Canonical u) (hv : Canonical v) {a b : ℚ}
    (ha : value? u = some a) (hb : value? v = some b) :
    value? (UnpackedFloat.add Format.binary64 u v) = some (rnd (a + b)) ∧
      Canonical (UnpackedFloat.add Format.binary64 u v) := by
  cases standsFor_of_value? ha with
  | zero s =>
    rw [zero_add, rnd_of_value? hv hb]
    cases standsFor_of_value? hb with
    | zero s' =>
      simp only [UnpackedFloat.add]
      split_ifs <;> exact ⟨hb, trivial⟩
    | finite s' m' e' hm' => exact ⟨hb, hv⟩
  | finite s m e hm =>
    cases standsFor_of_value? hb with
    | zero s' =>
      rw [add_zero, rnd_of_value? hu ha]
      exact ⟨ha, hu⟩
    | finite s' m' e' hm' =>
      have hsum := normalize_value
        (s.apply (decreaseExponent m e (min e e')).1 +
          s'.apply (decreaseExponent m' e' (min e e')).1)
        (min e e')
      rw [Int.cast_add, add_mul, aligned_value s m (min_le_left e e'),
        aligned_value s' m' (min_le_right e e')] at hsum
      exact hsum

/-- A difference is the sum with the negated number, but for the sign of a zero. -/
theorem sub_value {u v : UnpackedFloat} (hu : Canonical u) (hv : Canonical v) {a b : ℚ}
    (ha : value? u = some a) (hb : value? v = some b) :
    value? (UnpackedFloat.sub Format.binary64 u v) = some (rnd (a - b)) ∧
      Canonical (UnpackedFloat.sub Format.binary64 u v) := by
  cases standsFor_of_value? ha with
  | zero s =>
    rw [zero_sub, rnd_of_value? (canonical_neg hv) (value?_neg hb)]
    cases standsFor_of_value? hb with
    | zero s' =>
      simp only [UnpackedFloat.sub]
      split_ifs <;> exact ⟨value?_neg hb, trivial⟩
    | finite s' m' e' hm' => exact ⟨value?_neg hb, canonical_neg hv⟩
  | finite s m e hm =>
    cases standsFor_of_value? hb with
    | zero s' =>
      rw [sub_zero, rnd_of_value? hu ha]
      exact ⟨ha, hu⟩
    | finite s' m' e' hm' =>
      have hdifference := normalize_value
        (s.apply (decreaseExponent m e (min e e')).1 -
          s'.apply (decreaseExponent m' e' (min e e')).1)
        (min e e')
      rw [Int.cast_sub, sub_mul, aligned_value s m (min_le_left e e'),
        aligned_value s' m' (min_le_right e e')] at hdifference
      exact hdifference

/-! ## Products -/

/-- The product of two stored mantissas is not coarser than its grid. -/
theorem add_le_gridExponent_mul {m m' : ℕ} {e e' : ℤ} (hm : 0 < m) (hm' : 0 < m')
    (h : Normalized m e) (h' : Normalized m' e') :
    e + e' ≤ gridExponent ((m * m' : ℕ) * 2 ^ (e + e')) := by
  rw [gridExponent_mantissa (Nat.mul_pos hm hm')]
  rcases h.2.2 with hfull | rfl
  · have : 52 ≤ (m * m').log2 :=
      (Nat.le_log2 (Nat.mul_pos hm hm').ne').mpr (hfull.trans (Nat.le_mul_of_pos_right m hm'))
    omega
  · rcases h'.2.2 with hfull | rfl
    · have : 52 ≤ (m * m').log2 :=
        (Nat.le_log2 (Nat.mul_pos hm hm').ne').mpr (hfull.trans (Nat.le_mul_of_pos_left m' hm))
      omega
    · omega

theorem mul_value {u v : UnpackedFloat} (hu : Canonical u) (hv : Canonical v) {a b : ℚ}
    (ha : value? u = some a) (hb : value? v = some b) :
    value? (UnpackedFloat.mul Format.binary64 u v) = some (rnd (a * b)) ∧
      Canonical (UnpackedFloat.mul Format.binary64 u v) := by
  cases standsFor_of_value? ha with
  | zero s =>
    cases standsFor_of_value? hb with
    | zero s' => simp [UnpackedFloat.mul, value?, Canonical]
    | finite s' m' e' hm' => simp [UnpackedFloat.mul, value?, Canonical]
  | finite s m e hm =>
    cases standsFor_of_value? hb with
    | zero s' => simp [UnpackedFloat.mul, value?, Canonical]
    | finite s' m' e' hm' =>
      have hproduct := roundWithAccuracy_value (s * s') (Nat.mul_pos hm hm')
        (add_le_gridExponent_mul hm hm' hu hv)
      have hexact : factor (s * s') * (((m * m' : ℕ) : ℚ) * 2 ^ (e + e')) =
          factor s * (m * 2 ^ e) * (factor s' * (m' * 2 ^ e')) := by
        rw [factor_mul, zpow_add₀ two_ne_zero]
        push_cast
        ring
      rw [hexact] at hproduct
      exact hproduct

/-! ## Comparison -/

/-- On coarser grids the stored numbers are larger. -/
theorem mantissa_lt_of_lt {m m' : ℕ} {e e' : ℤ} (h : Normalized m e) (h' : Normalized m' e')
    (he : e < e') : (m : ℚ) * 2 ^ e < m' * 2 ^ e' := by
  have hfull : 2 ^ 52 ≤ m' := h'.2.2.resolve_right (by have := h.2.1; omega)
  calc (m : ℚ) * 2 ^ e < 2 ^ 53 * 2 ^ e := by
        have : (m : ℚ) < 2 ^ 53 := by exact_mod_cast h.1
        gcongr
    _ ≤ 2 ^ 52 * 2 ^ e' := grid_le_grid he
    _ ≤ m' * 2 ^ e' := by
        have : (2 : ℚ) ^ 52 ≤ m' := by exact_mod_cast hfull
        gcongr

/-- Stored magnitudes are compared by exponent and then by mantissa. -/
theorem compare_mantissa {m m' : ℕ} {e e' : ℤ} (h : Normalized m e) (h' : Normalized m' e') :
    (compare e e').then (compare m m') = compare ((m : ℚ) * 2 ^ e) (m' * 2 ^ e') := by
  rcases lt_trichotomy e e' with he | rfl | he
  · rw [Int.compare_eq_lt.mpr he, compare_lt_iff_lt.mpr (mantissa_lt_of_lt h h' he)]
    rfl
  · rw [Int.compare_eq_eq.mpr rfl]
    have hpos : (0 : ℚ) < 2 ^ e := by positivity
    rcases lt_trichotomy m m' with hm | rfl | hm
    · rw [Nat.compare_eq_lt.mpr hm, compare_lt_iff_lt.mpr (by gcongr)]
      rfl
    · rw [Nat.compare_eq_eq.mpr rfl, compare_eq_iff_eq.mpr rfl]
      rfl
    · rw [Nat.compare_eq_gt.mpr hm, compare_gt_iff_gt.mpr (by gcongr)]
      rfl
  · rw [Int.compare_eq_gt.mpr he, compare_gt_iff_gt.mpr (mantissa_lt_of_lt h' h he)]
    rfl

theorem compare_neg_neg (a b : ℚ) : compare (-a) (-b) = (compare a b).swap := by
  rcases lt_trichotomy a b with h | rfl | h
  · rw [compare_lt_iff_lt.mpr h, compare_gt_iff_gt.mpr (neg_lt_neg h)]
    rfl
  · rw [compare_eq_iff_eq.mpr rfl, compare_eq_iff_eq.mpr rfl]
    rfl
  · rw [compare_gt_iff_gt.mpr h, compare_lt_iff_lt.mpr (neg_lt_neg h)]
    rfl

/-- Canonical forms are compared like the numbers that they stand for. -/
theorem compare_value {u v : UnpackedFloat} (hu : Canonical u) (hv : Canonical v) {a b : ℚ}
    (ha : value? u = some a) (hb : value? v = some b) : u.compare v = some (compare a b) := by
  cases standsFor_of_value? ha with
  | zero s =>
    cases standsFor_of_value? hb with
    | zero s' =>
      rw [compare_eq_iff_eq.mpr rfl]
      rfl
    | finite s' m' e' hm' =>
      have hpos : (0 : ℚ) < m' * 2 ^ e' := by positivity
      cases s'
      · rw [compare_gt_iff_gt.mpr (by simpa [factor] using hpos)]
        rfl
      · rw [compare_lt_iff_lt.mpr (by simpa [factor] using hpos)]
        rfl
  | finite s m e hm =>
    have hpos : (0 : ℚ) < m * 2 ^ e := by positivity
    cases standsFor_of_value? hb with
    | zero s' =>
      cases s
      · rw [compare_lt_iff_lt.mpr (by simpa [factor] using hpos)]
        rfl
      · rw [compare_gt_iff_gt.mpr (by simpa [factor] using hpos)]
        rfl
    | finite s' m' e' hm' =>
      have hpos' : (0 : ℚ) < m' * 2 ^ e' := by positivity
      have hmagnitude := compare_mantissa hu hv
      cases s <;> cases s' <;> simp only [factor, one_mul, neg_one_mul]
      · rw [compare_neg_neg, ← hmagnitude]
        rfl
      · rw [compare_lt_iff_lt.mpr (by linarith)]
        rfl
      · rw [compare_gt_iff_gt.mpr (by linarith)]
        rfl
      · rw [← hmagnitude]
        rfl

end PetriAnalysis.Double
