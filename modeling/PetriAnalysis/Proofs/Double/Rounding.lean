import Mathlib.Algebra.Order.Field.Power
import Mathlib.Data.Int.Log
import Mathlib.Data.Rat.Floor
import Mathlib.Tactic.FieldSimp
import Mathlib.Tactic.Linarith
import Mathlib.Tactic.Positivity
import Mathlib.Tactic.Ring

/-!
# Rounding to 53 binary digits

Arithmetic on doubles is exact arithmetic on rational numbers followed by one rounding, as long
as the result is not too large. A positive number is put on the grid of the multiples of a power
of two that leaves it at most 53 binary digits and is at least `2 ^ (-1074)`; a tie goes to the
even multiple. Rounding is monotone and keeps what has 53 digits already.

## Main definitions

* `roundEven q` — the nearest integer.
* `gridExponent q` — the exponent of the grid on which `q` is put.
* `rnd q` — the rounded value.
-/

namespace PetriAnalysis.Double

/-- The integer nearest to `q`; of two that are equally near, the even one. -/
def roundEven (q : ℚ) : ℤ :=
  if q - ⌊q⌋ < 1 / 2 then ⌊q⌋ else if 1 / 2 < q - ⌊q⌋ then ⌊q⌋ + 1 else ⌊q⌋ + ⌊q⌋ % 2

theorem floor_le_roundEven (q : ℚ) : ⌊q⌋ ≤ roundEven q := by
  rw [roundEven]
  split_ifs <;> omega

theorem roundEven_le_floor_add_one (q : ℚ) : roundEven q ≤ ⌊q⌋ + 1 := by
  unfold roundEven
  split_ifs <;> omega

@[simp] theorem roundEven_intCast (n : ℤ) : roundEven n = n := by
  simp [roundEven]

theorem roundEven_mono {a b : ℚ} (h : a ≤ b) : roundEven a ≤ roundEven b := by
  rcases (Int.floor_le_floor h).lt_or_eq with hlt | heq
  · calc roundEven a ≤ ⌊a⌋ + 1 := roundEven_le_floor_add_one a
      _ ≤ ⌊b⌋ := hlt
      _ ≤ roundEven b := floor_le_roundEven b
  · -- Within one unit interval, only the position relative to the middle counts.
    have hrest : a - ⌊a⌋ ≤ b - ⌊b⌋ := by
      rw [heq]
      linarith
    simp only [roundEven]
    rw [heq] at hrest ⊢
    split_ifs <;> first | omega | linarith

/-- The exponent of the grid for a number of the size of `q`. -/
def gridExponent (q : ℚ) : ℤ := max (Int.log 2 q - 52) (-1074)

theorem gridExponent_ge (q : ℚ) : -1074 ≤ gridExponent q := le_max_right _ _

theorem gridExponent_mono {a b : ℚ} (ha : 0 < a) (h : a ≤ b) :
    gridExponent a ≤ gridExponent b :=
  max_le_max_right _ (sub_le_sub_right (Int.log_mono_right ha h) _)

/-- A positive number has at most 53 digits in front of its grid. -/
theorem div_grid_lt (q : ℚ) : q / 2 ^ gridExponent q < 2 ^ 53 := by
  rw [div_lt_iff₀ (by positivity), ← zpow_natCast, ← zpow_add₀ two_ne_zero]
  refine (Int.lt_zpow_succ_log_self (b := 2) (by norm_num) q).trans_le ?_
  refine zpow_le_zpow_right₀ (by norm_num) ?_
  have : Int.log 2 q - 52 ≤ gridExponent q := le_max_left _ _
  push_cast
  omega

/-- Off the finest grid, a positive number has all 53 digits. -/
theorem le_div_grid {q : ℚ} (hq : 0 < q) (hg : gridExponent q ≠ -1074) :
    2 ^ 52 ≤ q / 2 ^ gridExponent q := by
  rw [le_div_iff₀ (by positivity), ← zpow_natCast, ← zpow_add₀ two_ne_zero]
  have hlog : gridExponent q = Int.log 2 q - 52 := by
    unfold gridExponent at hg ⊢
    omega
  rw [hlog]
  simpa using Int.zpow_log_le_self (b := 2) (by norm_num) hq

/-- A number that is not negative, put on its grid. -/
def rndMagnitude (q : ℚ) : ℚ := roundEven (q / 2 ^ gridExponent q) * 2 ^ gridExponent q

theorem rndMagnitude_nonneg {q : ℚ} (hq : 0 ≤ q) : 0 ≤ rndMagnitude q := by
  have hfloor : 0 ≤ ⌊q / 2 ^ gridExponent q⌋ := Int.floor_nonneg.mpr (by positivity)
  have : (0 : ℚ) ≤ roundEven (q / 2 ^ gridExponent q) := by
    exact_mod_cast hfloor.trans (floor_le_roundEven _)
  rw [rndMagnitude]
  positivity

theorem roundEven_grid_le (q : ℚ) : roundEven (q / 2 ^ gridExponent q) ≤ 2 ^ 53 := by
  have h := roundEven_mono (div_grid_lt q).le
  rwa [show ((2 : ℚ) ^ 53) = ((2 ^ 53 : ℤ) : ℚ) by norm_num, roundEven_intCast] at h

theorem le_roundEven_grid {q : ℚ} (hq : 0 < q) (hg : gridExponent q ≠ -1074) :
    2 ^ 52 ≤ roundEven (q / 2 ^ gridExponent q) := by
  have h := roundEven_mono (le_div_grid hq hg)
  rwa [show ((2 : ℚ) ^ 52) = ((2 ^ 52 : ℤ) : ℚ) by norm_num, roundEven_intCast] at h

/-- What is stored on a grid is at most what is stored in full on a coarser one. -/
theorem grid_le_grid {e e' : ℤ} (h : e < e') : (2 : ℚ) ^ 53 * 2 ^ e ≤ 2 ^ 52 * 2 ^ e' := by
  rw [← zpow_natCast, ← zpow_natCast, ← zpow_add₀ two_ne_zero, ← zpow_add₀ two_ne_zero]
  refine zpow_le_zpow_right₀ (by norm_num) ?_
  push_cast
  omega

theorem rndMagnitude_mono {a b : ℚ} (ha : 0 < a) (h : a ≤ b) :
    rndMagnitude a ≤ rndMagnitude b := by
  rcases (gridExponent_mono ha h).lt_or_eq with hlt | heq
  · -- On different grids, the power of two between them separates the results.
    have hb : gridExponent b ≠ -1074 := by
      have := gridExponent_ge a
      omega
    have hlow : (roundEven (a / 2 ^ gridExponent a) : ℚ) ≤ 2 ^ 53 := by
      exact_mod_cast roundEven_grid_le a
    have hhigh : (2 : ℚ) ^ 52 ≤ roundEven (b / 2 ^ gridExponent b) := by
      exact_mod_cast le_roundEven_grid (ha.trans_le h) hb
    calc rndMagnitude a ≤ 2 ^ 53 * 2 ^ gridExponent a := by
          rw [rndMagnitude]
          gcongr
      _ ≤ 2 ^ 52 * 2 ^ gridExponent b := grid_le_grid hlt
      _ ≤ rndMagnitude b := by
          unfold rndMagnitude
          gcongr
  · have hdiv : a / 2 ^ gridExponent a ≤ b / 2 ^ gridExponent b := by
      rw [heq]
      gcongr
    have hround : (roundEven (a / 2 ^ gridExponent a) : ℚ) ≤
        roundEven (b / 2 ^ gridExponent b) := by
      exact_mod_cast roundEven_mono hdiv
    simp only [rndMagnitude]
    rw [heq] at hround ⊢
    gcongr

/-- A multiple of `2 ^ e` with at most 53 digits lies on its grid already. -/
theorem rndMagnitude_of_fits {n : ℕ} {e : ℤ} (hn : n < 2 ^ 53) (he : -1074 ≤ e) :
    rndMagnitude (n * 2 ^ e) = n * 2 ^ e := by
  rcases Nat.eq_zero_or_pos n with rfl | hpos
  · simp [rndMagnitude, roundEven]
  have hq : (0 : ℚ) < n * 2 ^ e := by positivity
  have hlog : Int.log 2 ((n : ℚ) * 2 ^ e) < 53 + e := by
    rw [← Int.lt_zpow_iff_log_lt (by norm_num) hq, zpow_add₀ (by norm_num)]
    have : (n : ℚ) < 2 ^ 53 := by exact_mod_cast hn
    push_cast
    gcongr
    exact_mod_cast this
  have hgrid : gridExponent (n * 2 ^ e) ≤ e := max_le (by omega) he
  obtain ⟨k, hk⟩ := Int.eq_ofNat_of_zero_le (sub_nonneg.mpr hgrid)
  have hdiv : (n : ℚ) * 2 ^ e / 2 ^ gridExponent (n * 2 ^ e) = ((n * 2 ^ k : ℤ) : ℚ) := by
    rw [mul_div_assoc, ← zpow_sub₀ two_ne_zero, hk]
    push_cast
    rw [zpow_natCast]
  rw [rndMagnitude, hdiv, roundEven_intCast, ← hdiv, div_mul_cancel₀ _ (by positivity)]

/-- The double nearest to a rational number, if that is not too large for a double. -/
def rnd (q : ℚ) : ℚ := if q < 0 then -rndMagnitude (-q) else rndMagnitude q

theorem rnd_of_nonneg {q : ℚ} (hq : 0 ≤ q) : rnd q = rndMagnitude q := if_neg hq.not_gt

theorem rnd_of_neg {q : ℚ} (hq : q < 0) : rnd q = -rndMagnitude (-q) := if_pos hq

@[simp] theorem rnd_zero : rnd 0 = 0 := by
  simp [rnd, rndMagnitude, roundEven]

@[simp] theorem rnd_neg (q : ℚ) : rnd (-q) = -rnd q := by
  rcases lt_trichotomy q 0 with hq | rfl | hq
  · rw [rnd_of_neg hq, rnd_of_nonneg (by linarith), neg_neg]
  · simp
  · rw [rnd_of_nonneg hq.le, rnd_of_neg (by linarith), neg_neg]

theorem rnd_nonneg {q : ℚ} (hq : 0 ≤ q) : 0 ≤ rnd q := by
  rw [rnd_of_nonneg hq]
  exact rndMagnitude_nonneg hq

/-- Rounding keeps the order. -/
theorem rnd_mono {a b : ℚ} (h : a ≤ b) : rnd a ≤ rnd b := by
  rcases lt_or_ge a 0 with ha | ha
  · rcases lt_or_ge b 0 with hb | hb
    · rw [rnd_of_neg ha, rnd_of_neg hb]
      exact neg_le_neg (rndMagnitude_mono (by linarith) (by linarith))
    · calc rnd a ≤ 0 := by
            rw [rnd_of_neg ha]
            exact neg_nonpos.mpr (rndMagnitude_nonneg (by linarith))
        _ ≤ rnd b := rnd_nonneg hb
  · rcases ha.eq_or_lt with rfl | hpos
    · simpa using rnd_nonneg h
    · rw [rnd_of_nonneg ha, rnd_of_nonneg (ha.trans h)]
      exact rndMagnitude_mono hpos h

/-- What has 53 digits already is kept. -/
theorem rnd_of_fits {n : ℤ} {e : ℤ} (hn : n.natAbs < 2 ^ 53) (he : -1074 ≤ e) :
    rnd (n * 2 ^ e) = n * 2 ^ e := by
  obtain ⟨m, rfl | rfl⟩ := n.eq_nat_or_neg
  · have h := rndMagnitude_of_fits (n := m) (by simpa using hn) he
    rw [Int.cast_natCast, rnd_of_nonneg (by positivity), h]
  · have h := rndMagnitude_of_fits (n := m) (by simpa using hn) he
    rw [Int.cast_neg, Int.cast_natCast, neg_mul, rnd_neg, rnd_of_nonneg (by positivity), h]

/-- Integers of at most 53 digits are kept. -/
theorem rnd_intCast {n : ℤ} (hn : n.natAbs < 2 ^ 53) : rnd n = n := by
  simpa using rnd_of_fits (e := 0) hn (by norm_num)

theorem rnd_two_zpow {k : ℤ} (hk : -1074 ≤ k) : rnd (2 ^ k) = 2 ^ k := by
  simpa using rnd_of_fits (n := 1) (by norm_num) hk

/-- Powers of two bound rounded numbers where they bound the numbers themselves. -/
theorem abs_rnd_le {q : ℚ} {k : ℤ} (hk : -1074 ≤ k) (h : |q| ≤ 2 ^ k) : |rnd q| ≤ 2 ^ k := by
  rw [abs_le] at h ⊢
  constructor
  · calc -2 ^ k = rnd (-2 ^ k) := by rw [rnd_neg, rnd_two_zpow hk]
      _ ≤ rnd q := rnd_mono h.1
  · calc rnd q ≤ rnd (2 ^ k) := rnd_mono h.2
      _ = 2 ^ k := rnd_two_zpow hk

theorem le_abs_rnd {q : ℚ} {k : ℤ} (hk : -1074 ≤ k) (h : 2 ^ k ≤ |q|) : 2 ^ k ≤ |rnd q| := by
  rcases le_abs.mp h with h | h
  · calc (2 : ℚ) ^ k = rnd (2 ^ k) := (rnd_two_zpow hk).symm
      _ ≤ rnd q := rnd_mono h
      _ ≤ |rnd q| := le_abs_self _
  · calc (2 : ℚ) ^ k = rnd (2 ^ k) := (rnd_two_zpow hk).symm
      _ ≤ rnd (-q) := rnd_mono h
      _ = -rnd q := rnd_neg q
      _ ≤ |rnd q| := neg_le_abs _

/-! ## Rounded integers -/

/-- A natural number is rounded to an integer: if it has more than 53 digits, its grid consists of
integers. -/
theorem exists_int_rnd (n : ℕ) : ∃ k : ℤ, rnd n = k := by
  rcases Nat.lt_or_ge n (2 ^ 53) with hn | hn
  · exact ⟨n, by simpa using rnd_intCast (n := n) hn⟩
  · have hpos : (0 : ℚ) < n := by
      have : 0 < n := (Nat.two_pow_pos 53).trans_le hn
      exact_mod_cast this
    have hlog : 53 ≤ Int.log 2 (n : ℚ) := by
      rw [← Int.zpow_le_iff_le_log (by norm_num) hpos]
      exact_mod_cast hn
    have hgrid : 0 ≤ gridExponent n :=
      (by omega : 0 ≤ Int.log 2 (n : ℚ) - 52).trans (le_max_left _ _)
    obtain ⟨k, hk⟩ := Int.eq_ofNat_of_zero_le hgrid
    refine ⟨roundEven (n / 2 ^ gridExponent n) * 2 ^ k, ?_⟩
    rw [rnd_of_nonneg hpos.le, rndMagnitude, hk]
    push_cast
    rw [zpow_natCast]

/-- Nothing else is rounded to an integer of at most 53 digits. -/
theorem rnd_eq_intCast_iff {e d : ℤ} (hd : d.natAbs < 2 ^ 53) : rnd e = d ↔ e = d := by
  constructor
  · intro h
    rcases lt_or_ge e.natAbs (2 ^ 53) with he | he
    · rw [rnd_intCast he] at h
      exact_mod_cast h
    · have hlarge : (2 : ℚ) ^ (53 : ℤ) ≤ |(e : ℚ)| := by
        rw [← Int.cast_abs, Int.abs_eq_natAbs]
        exact_mod_cast he
      have hresult := le_abs_rnd (by norm_num) hlarge
      rw [h, ← Int.cast_abs, Int.abs_eq_natAbs] at hresult
      have : 2 ^ 53 ≤ d.natAbs := by exact_mod_cast hresult
      omega
  · rintro rfl
    exact rnd_intCast hd

end PetriAnalysis.Double
