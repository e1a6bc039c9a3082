import PetriAnalysis.Proofs.Double.Value

/-!
# Doubles up to the sign of a zero

There are two zeros. Adding one of them to a double, finite or not, keeps it, but may turn one
zero into the other. No comparison sees the difference, so sums that have a term more or less
that is zero are interchangeable wherever they are compared.

## Main definitions

* `SameNumber x y` — the same double, or two zeros.
-/

namespace PetriAnalysis.Double

open Float.Model Float.Model.UnpackedFloat

/-- The same double, or two zeros whose signs may differ. -/
def SameNumber (x y : Float) : Prop := x = y ∨ (toRat? x = some 0 ∧ toRat? y = some 0)

namespace SameNumber

variable {x y z : Float}

theorem refl (x : Float) : SameNumber x x := Or.inl rfl

theorem symm (h : SameNumber x y) : SameNumber y x := by
  rcases h with rfl | ⟨hx, hy⟩
  · exact refl x
  · exact Or.inr ⟨hy, hx⟩

theorem trans (h : SameNumber x y) (h' : SameNumber y z) : SameNumber x z := by
  rcases h with rfl | ⟨hx, hy⟩
  · exact h'
  · rcases h' with rfl | ⟨-, hz⟩
    · exact Or.inr ⟨hx, hy⟩
    · exact Or.inr ⟨hx, hz⟩

end SameNumber

variable {x y z : Float}

/-! ## Adding a zero -/

/-- A double that stands for zero is one of the two zeros. -/
theorem unpack_of_toRat?_zero (h : toRat? z = some 0) : ∃ s, z.toModel.unpack = .zero s := by
  rw [toRat?] at h
  generalize z.toModel.unpack = u at h
  cases u with
  | zero s => exact ⟨s, rfl⟩
  | finite s m e hm =>
    rw [value?_finite, Option.some.injEq] at h
    have hpos : (0 : ℚ) < m * 2 ^ e := by positivity
    cases s with
    | negative =>
      rw [factor] at h
      linarith
    | positive =>
      rw [factor] at h
      linarith
  | infinity s => cases h
  | notANumber => cases h

theorem toRat?_of_unpack_zero {s : Sign} (h : z.toModel.unpack = .zero s) : toRat? z = some 0 := by
  rw [toRat?, h, value?]

theorem add_comm (x y : Float) : x + y = y + x := by
  refine congrArg (fun u => Float.ofModel (Float.Model.pack u)) ?_
  cases x.toModel.unpack with
  | zero s => cases y.toModel.unpack with
    | zero s' => cases s <;> cases s' <;> rfl
    | _ => rfl
  | finite s m e hm => cases y.toModel.unpack with
    | finite s' m' e' hm' =>
      simp only [UnpackedFloat.add, min_comm e' e, Int.add_comm (s'.apply _)]
    | _ => rfl
  | infinity s => cases y.toModel.unpack with
    | infinity s' => cases s <;> cases s' <;> rfl
    | _ => rfl
  | notANumber => cases y.toModel.unpack <;> rfl

/-- A zero that is added to anything but a zero is lost. -/
theorem zero_add_unpacked (s : Sign) (u : UnpackedFloat) :
    (∃ s', u = .zero s') ∨ UnpackedFloat.add Format.binary64 (.zero s) u = u := by
  cases u with
  | zero s' => exact Or.inl ⟨s', rfl⟩
  | finite s' m e hm => exact Or.inr rfl
  | infinity s' => exact Or.inr rfl
  | notANumber => exact Or.inr rfl

theorem zero_add_same (hz : toRat? z = some 0) (x : Float) : SameNumber (z + x) x := by
  obtain ⟨s, hs⟩ := unpack_of_toRat?_zero hz
  rcases zero_add_unpacked s x.toModel.unpack with ⟨s', hs'⟩ | hsum
  · have hx := toRat?_of_unpack_zero hs'
    have hsum := toRat?_add hz hx
    rw [add_zero, rnd_zero] at hsum
    exact Or.inr ⟨hsum (by norm_num), hx⟩
  · rw [← hs] at hsum
    refine Or.inl ?_
    change Float.ofModel (Float.Model.pack _) = x
    rw [hsum, pack_unpack]

theorem add_zero_same (hz : toRat? z = some 0) (x : Float) : SameNumber (x + z) x :=
  add_comm z x ▸ zero_add_same hz x

/-- The sign of a zero is lost in a sum, unless the sum is a zero itself. -/
theorem SameNumber.add_right (h : SameNumber x y) (z : Float) : SameNumber (x + z) (y + z) := by
  rcases h with rfl | ⟨hx, hy⟩
  · exact refl _
  · exact (zero_add_same hx z).trans (zero_add_same hy z).symm

/-- A zero times a finite double is a zero. -/
theorem toRat?_zero_mul {a : ℚ} (hz : toRat? z = some 0) (hx : toRat? x = some a) :
    toRat? (z * x) = some 0 := by
  have hproduct := toRat?_mul hz hx
  rw [zero_mul, rnd_zero] at hproduct
  exact hproduct (by norm_num)

/-! ## Comparisons -/

/-- Comparisons do not see the sign of a zero. -/
theorem SameNumber.le_iff (h : SameNumber x y) (z : Float) :
    (z ≤ x ↔ z ≤ y) ∧ (x ≤ z ↔ y ≤ z) := by
  rcases h with rfl | ⟨hx, hy⟩
  · exact ⟨Iff.rfl, Iff.rfl⟩
  · obtain ⟨s, hs⟩ := unpack_of_toRat?_zero hx
    obtain ⟨s', hs'⟩ := unpack_of_toRat?_zero hy
    simp only [le_iff_compare, hs, hs']
    cases z.toModel.unpack with
    | zero s => exact ⟨Iff.rfl, Iff.rfl⟩
    | finite s m e hm => cases s <;> exact ⟨Iff.rfl, Iff.rfl⟩
    | infinity s => cases s <;> exact ⟨Iff.rfl, Iff.rfl⟩
    | notANumber => exact ⟨Iff.rfl, Iff.rfl⟩

theorem compare_notANumber (u : UnpackedFloat) : u.compare .notANumber = none := by
  cases u <;> rfl

/-- What is not below some double is a number, and then it is at most infinite. -/
theorem le_infinity_of_le (hxy : x ≤ y) (hz : z.toModel.unpack = .infinity .positive) : y ≤ z := by
  rw [le_iff_compare] at hxy ⊢
  rw [hz]
  cases hy : y.toModel.unpack with
  | zero s => rfl
  | finite s m e hm => cases s <;> rfl
  | infinity s => cases s <;> rfl
  | notANumber =>
    rw [hy, compare_notANumber] at hxy
    cases hxy

theorem not_le_of_unpack_neg_infinity {a : ℚ} (hx : toRat? x = some a)
    (hy : y.toModel.unpack = .infinity .negative) : ¬ x ≤ y := by
  rw [le_iff_compare, hy]
  rw [toRat?] at hx
  generalize x.toModel.unpack = u at hx ⊢
  cases standsFor_of_value? hx with
  | zero s => exact Bool.false_ne_true
  | finite s m e hm => cases s <;> exact Bool.false_ne_true

/-- What is not below a finite double is not below a smaller one. -/
theorem le_of_toRat?_of_le {a b : ℚ} (hx : toRat? x = some a) (hy : toRat? y = some b)
    (hab : a ≤ b) (hyz : y ≤ z) : x ≤ z := by
  cases hz : toRat? z with
  | some c => exact (le_iff_of_toRat? hx hz).mpr (hab.trans ((le_iff_of_toRat? hy hz).mp hyz))
  | none =>
    -- Only positive infinity is left: nothing finite is below the negative one.
    cases hu : z.toModel.unpack with
    | infinity s =>
      cases s with
      | negative => exact absurd hyz (not_le_of_unpack_neg_infinity hy hu)
      | positive => exact le_of_unpack_infinity hx hu
    | notANumber =>
      rw [le_iff_compare, hu, compare_notANumber] at hyz
      cases hyz
    | zero s =>
      rw [toRat?, hu] at hz
      cases hz
    | finite s m e hm =>
      rw [toRat?, hu] at hz
      cases hz

end PetriAnalysis.Double
