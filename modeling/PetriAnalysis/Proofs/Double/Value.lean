import PetriAnalysis.Proofs.Double.Packing

/-!
# Doubles as numbers

A finite double stands for a rational number. Sums, differences and products of finite doubles
stand for the rounded results, as long as these are not too large, and finite doubles are ordered
like the numbers. Integers below `2 ^ 53` are added, subtracted and multiplied without rounding.

## Main definitions

* `toRat? x` — the number that `x` stands for, if it is finite.
* `number x` — the same, with zero for a double that is not finite.
* `Representable q` — some double stands for `q`.
-/

namespace PetriAnalysis.Double

open Float.Model Float.Model.UnpackedFloat

/-- The number that a double stands for, if it is finite. -/
def toRat? (x : Float) : Option ℚ := value? x.toModel.unpack

/-- The number that a finite double stands for. -/
def number (x : Float) : ℚ := (toRat? x).getD 0

theorem toRat?_of_isFinite {x : Float} (h : x.isFinite = true) : toRat? x = some (number x) := by
  change x.toModel.unpack.isFinite = true at h
  rw [number, toRat?]
  cases hx : x.toModel.unpack with
  | zero s => rfl
  | finite s m e hm => rfl
  | infinity s =>
    rw [hx] at h
    cases h
  | notANumber =>
    rw [hx] at h
    cases h

theorem rnd_of_toRat? {x : Float} {a : ℚ} (h : toRat? x = some a) : rnd a = a :=
  rnd_of_value? (canonical_unpack _) h

/-- A canonical form whose number is not too large is packed without loss. -/
theorem toRat?_pack {u : UnpackedFloat} (hu : Canonical u) {a : ℚ} (ha : value? u = some a)
    (hsize : |a| < 2 ^ (1024 : ℤ)) : toRat? (.ofModel (.pack u)) = some a := by
  rw [toRat?, unpack_pack hu, ha]
  rintro s m e hm rfl
  rw [value?_finite, Option.some.injEq] at ha
  by_contra hlarge
  obtain ⟨-, -, hfull⟩ := hu
  have hm : (2 : ℚ) ^ 52 ≤ m := by exact_mod_cast hfull.resolve_right (by omega)
  have he : (2 : ℚ) ^ (972 : ℤ) ≤ 2 ^ e := zpow_le_zpow_right₀ (by norm_num) (by omega)
  have habs : |a| = m * 2 ^ e := by
    rw [← ha, abs_mul]
    cases s <;> simp [factor, abs_of_pos]
  have : (2 : ℚ) ^ (1024 : ℤ) ≤ |a| := calc
    (2 : ℚ) ^ (1024 : ℤ) = 2 ^ 52 * 2 ^ (972 : ℤ) := by
      rw [show (1024 : ℤ) = (52 : ℕ) + 972 by norm_num, zpow_add₀ two_ne_zero, zpow_natCast]
    _ ≤ (m : ℚ) * 2 ^ e := by gcongr
    _ = |a| := habs.symm
  exact this.not_gt hsize

theorem le_iff_compare (x y : Float) :
    x ≤ y ↔ (x.toModel.unpack.compare y.toModel.unpack).any (·.isLE) = true :=
  decide_eq_true_iff

theorem lt_iff_compare (x y : Float) :
    x < y ↔ x.toModel.unpack.compare y.toModel.unpack = some .lt :=
  decide_eq_true_iff.trans beq_iff_eq

section

variable {x y : Float} {a b : ℚ}

theorem toRat?_add (hx : toRat? x = some a) (hy : toRat? y = some b)
    (hsize : |rnd (a + b)| < 2 ^ (1024 : ℤ)) : toRat? (x + y) = some (rnd (a + b)) :=
  have h := add_value (canonical_unpack x.toModel) (canonical_unpack y.toModel) hx hy
  toRat?_pack h.2 h.1 hsize

theorem toRat?_sub (hx : toRat? x = some a) (hy : toRat? y = some b)
    (hsize : |rnd (a - b)| < 2 ^ (1024 : ℤ)) : toRat? (x - y) = some (rnd (a - b)) :=
  have h := sub_value (canonical_unpack x.toModel) (canonical_unpack y.toModel) hx hy
  toRat?_pack h.2 h.1 hsize

theorem toRat?_mul (hx : toRat? x = some a) (hy : toRat? y = some b)
    (hsize : |rnd (a * b)| < 2 ^ (1024 : ℤ)) : toRat? (x * y) = some (rnd (a * b)) :=
  have h := mul_value (canonical_unpack x.toModel) (canonical_unpack y.toModel) hx hy
  toRat?_pack h.2 h.1 hsize

/-- Finite doubles are ordered like the numbers that they stand for. -/
theorem le_iff_of_toRat? (hx : toRat? x = some a) (hy : toRat? y = some b) : x ≤ y ↔ a ≤ b := by
  have h := compare_value (canonical_unpack x.toModel) (canonical_unpack y.toModel) hx hy
  rw [le_iff_compare, h, Option.any_some, Ordering.isLE_iff_ne_gt]
  exact compare_le_iff_le

end

/-! ## Infinite doubles -/

/-- Finite doubles lie between the infinite ones. -/
theorem compare_infinity {u : UnpackedFloat} {a : ℚ} (h : value? u = some a) :
    u.compare (.infinity .positive) = some .lt ∧
      UnpackedFloat.compare (.infinity .positive) u = some .gt ∧
      UnpackedFloat.compare (.infinity .negative) u = some .lt := by
  cases standsFor_of_value? h with
  | zero s => exact ⟨rfl, rfl, rfl⟩
  | finite s m e hm => cases s <;> exact ⟨rfl, rfl, rfl⟩

section

variable {x y : Float} {a : ℚ}

theorem le_of_unpack_infinity (hx : toRat? x = some a)
    (hy : y.toModel.unpack = .infinity .positive) : x ≤ y := by
  rw [le_iff_compare, hy, (compare_infinity hx).1]
  rfl

theorem not_lt_of_unpack_infinity (hx : toRat? x = some a)
    (hy : y.toModel.unpack = .infinity .positive) : ¬ y < x := by
  rw [lt_iff_compare, hy, (compare_infinity hx).2.1]
  decide

theorem le_of_unpack_neg_infinity (hx : toRat? x = some a)
    (hy : y.toModel.unpack = .infinity .negative) : y ≤ x := by
  rw [le_iff_compare, hy, (compare_infinity hx).2.2]
  rfl

theorem isNaN_of_toRat? (hx : toRat? x = some a) : x.isNaN = false := by
  change x.toModel.unpack.isNaN = false
  rw [toRat?] at hx
  generalize x.toModel.unpack = u at hx ⊢
  cases standsFor_of_value? hx with
  | zero s => rfl
  | finite s m e hm => rfl

end

/-! ## Doubles that are numbers -/

/-- Exchanging the two sides of a comparison turns its result around. -/
theorem compare_swap (u v : UnpackedFloat) : v.compare u = (u.compare v).map Ordering.swap := by
  have hmagnitude (m m' : ℕ) (e e' : ℤ) : (compare e' e).then (compare m' m) =
      ((compare e e').then (compare m m')).swap := by
    rw [Ordering.swap_then, Int.compare_swap, Nat.compare_swap]
  cases u with
  | zero s => cases v with
    | zero s' => rfl
    | finite s' m' e' hm' => cases s' <;> rfl
    | infinity s' => cases s' <;> rfl
    | notANumber => rfl
  | finite s m e hm => cases v with
    | zero s' => cases s <;> rfl
    | finite s' m' e' hm' =>
      cases s <;> cases s' <;>
        simp only [UnpackedFloat.compare, Option.map_some, hmagnitude m m'] <;> rfl
    | infinity s' => cases s' <;> rfl
    | notANumber => rfl
  | infinity s => cases v with
    | infinity s' => cases s <;> cases s' <;> rfl
    | notANumber => rfl
    | _ => cases s <;> rfl
  | notANumber => cases v <;> rfl

/-- Any two numbers, finite or not, can be compared. -/
theorem exists_compare {u v : UnpackedFloat} (hu : u.isNaN = false) (hv : v.isNaN = false) :
    ∃ o, u.compare v = some o := by
  cases u with
  | notANumber => cases hu
  | zero s => cases v with
    | notANumber => cases hv
    | zero s' => exact ⟨_, rfl⟩
    | finite s' m' e' hm' => cases s' <;> exact ⟨_, rfl⟩
    | infinity s' => cases s' <;> exact ⟨_, rfl⟩
  | finite s m e hm => cases v with
    | notANumber => cases hv
    | zero s' => cases s <;> exact ⟨_, rfl⟩
    | finite s' m' e' hm' => cases s <;> cases s' <;> exact ⟨_, rfl⟩
    | infinity s' => cases s' <;> exact ⟨_, rfl⟩
  | infinity s => cases v with
    | notANumber => cases hv
    | infinity s' => exact ⟨_, rfl⟩
    | _ => cases s <;> exact ⟨_, rfl⟩

/-- The order of numbers, finite or not, is total. -/
theorem not_lt_iff_le {x y : Float} (hx : x.isNaN = false) (hy : y.isNaN = false) :
    ¬ y < x ↔ x ≤ y := by
  obtain ⟨o, ho⟩ : ∃ o, x.toModel.unpack.compare y.toModel.unpack = some o := exists_compare hx hy
  rw [lt_iff_compare, le_iff_compare, compare_swap x.toModel.unpack, ho]
  cases o <;> decide

/-! ## Integers -/

theorem abs_rnd_lt_of_le {q : ℚ} {k : ℤ} (hk : -1074 ≤ k) (hk' : k < 1024) (h : |q| ≤ 2 ^ k) :
    |rnd q| < 2 ^ (1024 : ℤ) :=
  (abs_rnd_le hk h).trans_lt (zpow_lt_zpow_right₀ (by norm_num) hk')

theorem abs_toNat_le (w : UInt64) : |(w.toNat : ℚ)| ≤ 2 ^ (64 : ℤ) := by
  rw [abs_of_nonneg (by positivity)]
  exact_mod_cast w.toNat_lt.le

/-- A word is converted to the nearest double. -/
theorem toRat?_toFloat (w : UInt64) : toRat? w.toFloat = some (rnd w.toNat) := by
  have h := normalize_value (w.toNat : ℤ) 0
  simp only [Int.cast_natCast, zpow_zero, mul_one] at h
  exact toRat?_pack h.2 h.1 (abs_rnd_lt_of_le (by norm_num) (by norm_num) (abs_toNat_le w))

/-- Small integers are far from too large after rounding. -/
theorem abs_rnd_lt {n : ℤ} (hn : n.natAbs < 2 ^ 53) : |rnd (n : ℚ)| < 2 ^ (1024 : ℤ) := by
  refine abs_rnd_lt_of_le (k := 53) (by norm_num) (by norm_num) ?_
  rw [← Int.cast_abs, Int.abs_eq_natAbs]
  exact_mod_cast hn.le

/-- A small word is converted without rounding. -/
theorem toRat?_toFloat_of_lt {w : UInt64} (hw : w.toNat < 2 ^ 53) :
    toRat? w.toFloat = some ((w.toNat : ℤ) : ℚ) := by
  rw [toRat?_toFloat, ← rnd_intCast (n := w.toNat) hw, Int.cast_natCast]

/-! ## Results that need no rounding -/

/-- A number that some double stands for. -/
structure Representable (q : ℚ) : Prop where
  rnd_eq : rnd q = q
  abs_lt : |q| < 2 ^ (1024 : ℤ)

theorem representable_intCast {n : ℤ} (hn : n.natAbs < 2 ^ 53) : Representable n :=
  ⟨rnd_intCast hn, rnd_intCast hn ▸ abs_rnd_lt hn⟩

theorem representable_natCast {n : ℕ} (hn : n < 2 ^ 53) : Representable n := by
  rw [← Int.cast_natCast]
  exact representable_intCast hn

theorem representable_two_zpow {e : ℤ} (he : -1074 ≤ e) (he' : e < 1024) :
    Representable (2 ^ e) := by
  refine ⟨rnd_two_zpow he, ?_⟩
  rw [abs_of_nonneg (by positivity)]
  exact zpow_lt_zpow_right₀ (by norm_num) he'

theorem toRat?_toFloat_exact {w : UInt64} (h : Representable w.toNat) :
    toRat? w.toFloat = some (w.toNat : ℚ) := by
  rw [toRat?_toFloat, h.rnd_eq]

theorem number_toFloat {w : UInt64} (h : Representable w.toNat) : number w.toFloat = w.toNat := by
  rw [number, toRat?_toFloat_exact h, Option.getD_some]

section

variable {x y : Float} {a b : ℚ}

theorem toRat?_add_exact (hx : toRat? x = some a) (hy : toRat? y = some b)
    (h : Representable (a + b)) : toRat? (x + y) = some (a + b) := by
  have hsum := toRat?_add hx hy
  rw [h.rnd_eq] at hsum
  exact hsum h.abs_lt

theorem toRat?_sub_exact (hx : toRat? x = some a) (hy : toRat? y = some b)
    (h : Representable (a - b)) : toRat? (x - y) = some (a - b) := by
  have hdifference := toRat?_sub hx hy
  rw [h.rnd_eq] at hdifference
  exact hdifference h.abs_lt

theorem toRat?_mul_exact (hx : toRat? x = some a) (hy : toRat? y = some b)
    (h : Representable (a * b)) : toRat? (x * y) = some (a * b) := by
  have hproduct := toRat?_mul hx hy
  rw [h.rnd_eq] at hproduct
  exact hproduct h.abs_lt

end

section

variable {x y : Float} {a b : ℤ}

theorem toRat?_add_int (hx : toRat? x = some (a : ℚ)) (hy : toRat? y = some (b : ℚ))
    (h : (a + b).natAbs < 2 ^ 53) : toRat? (x + y) = some ((a + b : ℤ) : ℚ) := by
  have hexact := representable_intCast h
  rw [Int.cast_add] at hexact ⊢
  exact toRat?_add_exact hx hy hexact

theorem toRat?_sub_int (hx : toRat? x = some (a : ℚ)) (hy : toRat? y = some (b : ℚ))
    (h : (a - b).natAbs < 2 ^ 53) : toRat? (x - y) = some ((a - b : ℤ) : ℚ) := by
  have hexact := representable_intCast h
  rw [Int.cast_sub] at hexact ⊢
  exact toRat?_sub_exact hx hy hexact

theorem toRat?_mul_int (hx : toRat? x = some (a : ℚ)) (hy : toRat? y = some (b : ℚ))
    (h : (a * b).natAbs < 2 ^ 53) : toRat? (x * y) = some ((a * b : ℤ) : ℚ) := by
  have hexact := representable_intCast h
  rw [Int.cast_mul] at hexact ⊢
  exact toRat?_mul_exact hx hy hexact

end

/-! ## Differences that need no rounding -/

theorem unpack_zero : (0 : Float).toModel.unpack = .zero .positive := rfl

@[simp] theorem toRat?_zero : toRat? 0 = some 0 := rfl

/-- The negative of a word is rounded once. -/
theorem toRat?_neg_toFloat (w : UInt64) : toRat? (0 - w.toFloat) = some (-rnd w.toNat) := by
  have hround : rnd (0 - rnd (w.toNat : ℚ)) = -rnd w.toNat := by
    rw [zero_sub, rnd_neg, rnd_of_toRat? (toRat?_toFloat w)]
  have h := toRat?_sub toRat?_zero (toRat?_toFloat w)
  rw [hround, abs_neg] at h
  exact h (abs_rnd_lt_of_le (by norm_num) (by norm_num) (abs_toNat_le w))

/-- Taking zero away leaves a double as it is. -/
theorem sub_zero (x : Float) : x - 0 = x := by
  have h : UnpackedFloat.sub Format.binary64 x.toModel.unpack (0 : Float).toModel.unpack =
      x.toModel.unpack := by
    rw [unpack_zero]
    rcases x.toModel.unpack with s | - | s | ⟨s, m, e, hm⟩
    · rfl
    · rfl
    · cases s <;> rfl
    · rfl
  change Float.ofModel (Float.Model.pack _) = x
  rw [h, pack_unpack]

/-- A finite double minus itself is positive zero. -/
theorem sub_self {x : Float} {a : ℚ} (hx : toRat? x = some a) : x - x = 0 := by
  have h : UnpackedFloat.sub Format.binary64 x.toModel.unpack x.toModel.unpack =
      .zero .positive := by
    rw [toRat?] at hx
    generalize x.toModel.unpack = u at hx ⊢
    cases standsFor_of_value? hx with
    | zero s => cases s <;> rfl
    | finite s m e hm =>
      simp only [UnpackedFloat.sub, Int.sub_self]
      rfl
  change Float.ofModel (Float.Model.pack _) = 0
  rw [h]
  rfl

end PetriAnalysis.Double
