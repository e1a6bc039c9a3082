import PetriAnalysis.Proofs.Double.Arithmetic

/-!
# Doubles as 64-bit words

A double is stored in 64 bits: its sign, its exponent and its mantissa. Unpacking a word gives a
canonical form, packing that form gives the word back, and a canonical form that was packed is
unpacked to itself unless its exponent is too large.
-/

namespace PetriAnalysis.Double

open Float.Model Float.Model.UnpackedFloat

theorem toNat_implicit (m : BitVec 52) : (1#1 ++ m).toNat = 2 ^ 52 + m.toNat := by
  rw [BitVec.toNat_append, ← Nat.shiftLeft_add_eq_or_of_lt m.isLt]
  rfl

/-- The exponent that is added to the stored one. -/
theorem bias_eq : (Format.binary64.exponentBias + (52 : ℕ) : ℤ) = 1075 := rfl

/-- Unpacked words are canonical. -/
theorem canonical_unpack (x : Float.Model) : Canonical x.unpack := by
  obtain ⟨⟨b⟩, hvalid⟩ := x
  change Canonical (UnpackedFloat.unpack Format.binary64 b)
  have hmantissa : (@unpackMantissa Format.binary64 b).toNat < 2 ^ 52 := BitVec.isLt _
  simp only [UnpackedFloat.unpack]
  split_ifs with hmax hzero hmin hzero
  · trivial
  · trivial
  · trivial
  · have hexponent : (((@unpackExponent Format.binary64 b).toNat : ℤ) -
        (Format.binary64.exponentBias + (52 : ℕ)) + 1) = -1074 := by
      rw [hmin]
      rfl
    exact ⟨by omega, hexponent.ge, Or.inr hexponent⟩
  · have hpos : 0 < (@unpackExponent Format.binary64 b).toNat :=
      Nat.pos_of_ne_zero fun h => hmin (BitVec.eq_of_toNat_eq h)
    have hfull := toNat_implicit (@unpackMantissa Format.binary64 b)
    have hbias := bias_eq
    exact ⟨by omega, by omega, Or.inl (by omega)⟩

theorem pack_unpack (x : Float.Model) : Float.Model.pack x.unpack = x := by
  obtain ⟨⟨b⟩, hvalid⟩ := x
  have h := pack_unpack_of_valid hvalid
  simp only [Float.Model.pack, Float.Model.unpack, h]

theorem pack_finite (s : Sign) (m : ℕ) (e : ℤ) (hm : 0 < m) :
    UnpackedFloat.pack Format.binary64 (.finite s m e hm) =
      if 2048 ≤ (e + 1075).toNat + 1 then packedInfinity Format.binary64 s
      else if m.log2 = 52 then
        packComponents Format.binary64 s (BitVec.ofNat 11 (e + 1075).toNat) (BitVec.ofNat 52 m)
      else packComponents Format.binary64 s 0#11 (BitVec.ofNat 52 m) := by
  have hbias : e + Format.binary64.exponentBias + (52 : ℕ) = e + 1075 := by
    change e + (1023 : ℤ) + 52 = e + 1075
    ring
  have hdigits : m.log2 + 1 = Format.binary64.mantissaBits ↔ m.log2 = 52 := Nat.succ_inj
  simp only [UnpackedFloat.pack, hbias, hdigits]

theorem unpack_packedInfinity (s : Sign) :
    UnpackedFloat.unpack Format.binary64 (packedInfinity Format.binary64 s) = .infinity s := by
  cases s <;> rfl

theorem unpack_packComponents_normal (s : Sign) (e : BitVec 11) (m : BitVec 52)
    (he : e.toNat ≠ 0) (hmax : e.toNat ≠ 2047) :
    UnpackedFloat.unpack Format.binary64 (packComponents Format.binary64 s e m) =
      .finite s (2 ^ 52 + m.toNat) (e.toNat - 1075) (by omega) := by
  have hzero : e ≠ 0#_ := fun h => he (by rw [h]; rfl)
  have hones : e ≠ -1#_ := fun h => hmax (by rw [h]; rfl)
  simp only [UnpackedFloat.unpack, unpackExponent_packComponents, unpackMantissa_packComponents,
    unpackSign_packComponents, Sign.ofBitVec_toBitVec]
  rw [if_neg hones, if_neg hzero]
  simp only [toNat_implicit, bias_eq]

theorem unpack_packComponents_subnormal (s : Sign) (m : BitVec 52) (hm : 0 < m.toNat) :
    UnpackedFloat.unpack Format.binary64 (packComponents Format.binary64 s 0#11 m) =
      .finite s m.toNat (-1074) hm := by
  have hzero : m ≠ 0#_ := fun h => hm.ne' (by rw [h]; rfl)
  have hexponent : ((0#11).toNat : ℤ) - (Format.binary64.exponentBias + (52 : ℕ)) + 1 = -1074 := rfl
  simp only [UnpackedFloat.unpack, unpackExponent_packComponents, unpackMantissa_packComponents,
    unpackSign_packComponents, Sign.ofBitVec_toBitVec]
  rw [if_neg (by decide), if_pos trivial, dif_neg hzero]
  simp only [hexponent]

/-- A canonical form whose exponent is not too large is packed without loss. -/
theorem unpack_pack {u : UnpackedFloat} (hu : Canonical u)
    (hmax : ∀ s m e hm, u = .finite s m e hm → e ≤ 971) : (Float.Model.pack u).unpack = u := by
  cases u with
  | infinity s => exact unpack_packedInfinity s
  | notANumber => exact unpack_packedNaN
  | zero s => exact unpack_packedZero
  | finite s m e hm =>
    obtain ⟨hlt, hmin, hfull⟩ := hu
    have hexponent := hmax s m e hm rfl
    have hword : (Float.Model.pack (.finite s m e hm)).unpack = UnpackedFloat.unpack
        Format.binary64 (UnpackedFloat.pack Format.binary64 (.finite s m e hm)) := rfl
    have hlog : m.log2 = 52 ↔ 2 ^ 52 ≤ m := by
      rw [Nat.log2_eq_iff hm.ne']
      omega
    rw [hword, pack_finite, if_neg (by omega)]
    rcases Nat.lt_or_ge m (2 ^ 52) with hsmall | hlarge
    · obtain rfl : e = -1074 := hfull.resolve_left (by omega)
      have hmantissa : (BitVec.ofNat 52 m).toNat = m := by
        rw [BitVec.toNat_ofNat]
        omega
      rw [if_neg (by omega), unpack_packComponents_subnormal _ _ (by omega)]
      simp only [hmantissa]
    · have hmantissa : 2 ^ 52 + (BitVec.ofNat 52 m).toNat = m := by
        rw [BitVec.toNat_ofNat]
        omega
      have hbiased : (BitVec.ofNat 11 (e + 1075).toNat).toNat = (e + 1075).toNat := by
        rw [BitVec.toNat_ofNat]
        omega
      have hback : ((e + 1075).toNat : ℤ) - 1075 = e := by omega
      rw [if_pos (by omega), unpack_packComponents_normal _ _ _ (by omega) (by omega)]
      simp only [hmantissa, hbiased, hback]

end PetriAnalysis.Double
