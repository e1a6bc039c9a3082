import PetriAnalysis.Proofs.Relaxation.Solutions

/-!
# Precision of the effects

Both cells of a place and a transition are computed by converting the two weights to doubles and
then subtracting. So a weight of more than 53 digits is rounded before anything is subtracted, and
the errors of the two conversions end up in the effect. If the effect itself has at most 53 digits,
it is stored exactly if both weights are rounded by the same amount, and only then. In particular
weights that are doubles have an exact effect, and an effect that is not zero may be stored as zero.

## Main definitions

* `Double.conversionError w` — what rounding adds to a weight.
* `StoredEffect n lp p t value` — the number in both cells of a place and a transition.
-/

namespace PetriAnalysis

open SparseLp

namespace Double

/-- What a word is larger by as a double. -/
def conversionError (w : UInt64) : ℚ := rnd w.toNat - w.toNat

theorem conversionError_of_lt {w : UInt64} (h : w.toNat < 2 ^ 53) : conversionError w = 0 :=
  sub_eq_zero.mpr (representable_natCast h).rnd_eq

theorem rnd_toNat_nonneg (w : UInt64) : 0 ≤ rnd w.toNat := rnd_nonneg w.toNat.cast_nonneg

theorem rnd_toNat_le (w : UInt64) : rnd w.toNat ≤ 2 ^ (64 : ℤ) :=
  (le_abs_self _).trans (abs_rnd_le (by norm_num) (abs_toNat_le w))

variable (v w : UInt64)

/-- Words are subtracted after they have been rounded, and the difference is rounded again. -/
theorem toRat?_sub_toFloat :
    toRat? (v.toFloat - w.toFloat) = some (rnd (rnd v.toNat - rnd w.toNat)) := by
  have hv := rnd_toNat_nonneg v
  have hv' := rnd_toNat_le v
  have hw := rnd_toNat_nonneg w
  have hw' := rnd_toNat_le w
  have habs : |rnd v.toNat - rnd w.toNat| ≤ 2 ^ (64 : ℤ) :=
    abs_le.mpr ⟨by linarith, by linarith⟩
  exact toRat?_sub (toRat?_toFloat v) (toRat?_toFloat w)
    (abs_rnd_lt_of_le (by norm_num) (by norm_num) habs)

/-- A small integer is stored for two words exactly if it is the difference of the rounded words. -/
theorem rnd_sub_eq_iff {d : ℤ} (hd : d.natAbs < 2 ^ 53) :
    rnd (rnd v.toNat - rnd w.toNat) = d ↔ rnd v.toNat - rnd w.toNat = d := by
  obtain ⟨k, hk⟩ := exists_int_rnd v.toNat
  obtain ⟨l, hl⟩ := exists_int_rnd w.toNat
  rw [hk, hl, ← Int.cast_sub, rnd_eq_intCast_iff hd, Int.cast_inj]

end Double

open Double

variable {n : Net} {marking : List Weight} {lp : SparseLp} {p t : ℕ}

/-- Both cells of a place and a transition store this number. -/
structure StoredEffect (n : Net) (lp : SparseLp) (p t : ℕ) (value : ℚ) : Prop where
  state : toRat? (lp.coefficient (p + 1) (t + 1)) = some value
  effect : toRat? (lp.coefficient (n.numPlaces + 1 + p) (t + 1)) = some value

/-- Both cells store the difference of the rounded weights, rounded once more. -/
theorem BaseLayout.storedEffect (h : BaseLayout n marking lp) (hn : n.WellFormed)
    (hp : p < n.numPlaces) (ht : t < n.numTransitions) :
    StoredEffect n lp p t (rnd (rnd (n.outputAt p t).toNat - rnd (n.takenAt p t).toNat)) := by
  obtain ⟨hstate, heffect⟩ := h.coefficient_eq hn hp ht
  have hvalue := toRat?_sub_toFloat (n.outputAt p t) (n.takenAt p t)
  exact ⟨hstate ▸ hvalue, heffect ▸ hvalue⟩

/-- Both cells of a place and a transition store the difference of the rounded weights, rounded once
more. An effect of at most 53 digits is stored exactly if both weights are rounded by the same
amount, and only then. Zero is stored if the rounded weights are equal, and only then. -/
theorem stored_effect_exact_iff (n : Net) (hn : n.WellFormed) (marking : List Weight)
    (lp : SparseLp) (hlp : Answered n marking lp) (p t : ℕ) (hp : p < n.numPlaces)
    (ht : t < n.numTransitions) :
    ∃ value, StoredEffect n lp p t value ∧
      value = rnd (rnd (n.outputAt p t).toNat - rnd (n.takenAt p t).toNat) ∧
      ((n.effectAt p t).natAbs < 2 ^ 53 → (value = n.effectAt p t ↔
        conversionError (n.outputAt p t) = conversionError (n.takenAt p t))) ∧
      (value = 0 ↔ rnd (n.outputAt p t).toNat = rnd (n.takenAt p t).toNat) := by
  have hlayout := (contents_of_untimed (answered_iff_untimed.mp hlp)).layout hn
  refine ⟨_, hlayout.storedEffect hn hp ht, rfl, ?_, ?_⟩
  · intro hsmall
    rw [rnd_sub_eq_iff _ _ hsmall, n.effectAt_cast, conversionError, conversionError,
      sub_eq_sub_iff_sub_eq_sub]
  · have hzero := rnd_sub_eq_iff (n.outputAt p t) (n.takenAt p t) (d := 0) (by decide)
    rw [Int.cast_zero] at hzero
    rw [hzero, sub_eq_zero]

/-- One transition takes `2 ^ 53` tokens and gives back one more. The other one takes three tokens
and gives back one. -/
def hoard : Net where
  places := ⟨#[⟨"hoard", 0⟩]⟩
  transitions := ⟨#[⟨"grow"⟩, ⟨"spend"⟩]⟩
  pre := ⟨⟨#[#[9007199254740992, 3]]⟩, 2⟩
  post := ⟨⟨#[#[9007199254740993, 1]]⟩, 2⟩
  inhibitor := ⟨⟨#[#[false, false]]⟩, 2⟩

theorem stored_effect_exact_iff_hoard : hoard.WellFormed ∧ 0 < hoard.numPlaces ∧
    1 < hoard.numTransitions ∧ (hoard.effectAt 0 1).natAbs < 2 ^ 53 ∧
    ∃ lp : SparseLp, Answered hoard [0] lp ∧ StoredEffect hoard lp 0 1 (-2) := by
  have hn : hoard.WellFormed := by decide
  have hp : 0 < hoard.numPlaces := by decide
  have ht : 1 < hoard.numTransitions := by decide
  have hsmall : (hoard.effectAt 0 1).natAbs < 2 ^ 53 := by decide
  obtain ⟨lp, hlp⟩ : ∃ lp : SparseLp, Answered hoard [0] lp := hn.exists_answered rfl
  obtain ⟨value, hstored, -, hexact, -⟩ := stored_effect_exact_iff hoard hn [0] lp hlp 0 1 hp ht
  have herrors : conversionError (hoard.outputAt 0 1) = conversionError (hoard.takenAt 0 1) :=
    (conversionError_of_lt (by decide)).trans (conversionError_of_lt (by decide)).symm
  have heffect : hoard.effectAt 0 1 = -2 := by decide
  obtain rfl := (hexact hsmall).mpr herrors
  rw [heffect] at hstored
  exact ⟨hn, hp, ht, hsmall, lp, hlp, by exact_mod_cast hstored⟩

/-- A transition that adds one token is stored with an effect of zero. -/
theorem gain_stored_as_zero : hoard.WellFormed ∧ (hoard.effectAt 0 0).natAbs < 2 ^ 53 ∧
    ∃ lp : SparseLp, Answered hoard [0] lp ∧ StoredEffect hoard lp 0 0 0 ∧
      hoard.effectAt 0 0 = 1 ∧ ¬ StoredEffect hoard lp 0 0 (hoard.effectAt 0 0) := by
  have hn : hoard.WellFormed := by decide
  have heffect : hoard.effectAt 0 0 = 1 := by decide
  have hzero : (hoard.outputAt 0 0).toFloat - (hoard.takenAt 0 0).toFloat = 0 := by decide
  obtain ⟨lp, hlp⟩ : ∃ lp : SparseLp, Answered hoard [0] lp := hn.exists_answered rfl
  have hlayout := (contents_of_untimed (answered_iff_untimed.mp hlp)).layout hn
  obtain ⟨hstate, hsecond⟩ := hlayout.coefficient_eq hn (p := 0) (t := 0) (by decide) (by decide)
  rw [hzero] at hstate hsecond
  have hstored : StoredEffect hoard lp 0 0 0 := ⟨hstate ▸ toRat?_zero, hsecond ▸ toRat?_zero⟩
  refine ⟨hn, by decide, lp, hlp, hstored, heffect, ?_⟩
  rintro ⟨hone, -⟩
  rw [hstored.state, heffect] at hone
  norm_num at hone

end PetriAnalysis
