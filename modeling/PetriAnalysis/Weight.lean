/-!
# Weights

Token counts, arc weights and inhibitor thresholds are 64-bit words. Sums and differences
that leave that range are refused, so no token is ever lost by wrapping round.

## Main definitions

* `Weight`, `Weight.add?`, `Weight.sub?`.
-/

namespace PetriAnalysis

/-- A number of tokens. -/
abbrev Weight := UInt64

namespace Weight

/-- The sum, unless it is beyond the largest weight. -/
def add? (a b : Weight) : Option Weight :=
  if a.toNat + b.toNat < UInt64.size then some (a + b) else none

/-- The difference, unless `b` is the larger. -/
def sub? (a b : Weight) : Option Weight :=
  if b ≤ a then some (a - b) else none

theorem add?_eq_some_iff {a b c : Weight} :
    add? a b = some c ↔ a.toNat + b.toNat = c.toNat := by
  unfold add?
  split
  · next h =>
    simp only [Option.some.injEq, ← UInt64.toNat_inj, UInt64.toNat_add]
    rw [Nat.mod_eq_of_lt h]
  · next h =>
    have := c.toNat_lt_size
    simp only [reduceCtorEq, false_iff]
    omega

theorem add?_eq_none_iff {a b : Weight} :
    add? a b = none ↔ UInt64.size ≤ a.toNat + b.toNat := by
  unfold add?
  split <;> simp <;> omega

theorem sub?_eq_some_iff {a b c : Weight} :
    sub? a b = some c ↔ a.toNat = b.toNat + c.toNat := by
  unfold sub?
  split
  · next h =>
    have h' := UInt64.le_iff_toNat_le.mp h
    simp only [Option.some.injEq, ← UInt64.toNat_inj, UInt64.toNat_sub_of_le _ _ h]
    omega
  · next h =>
    have h' : ¬ b.toNat ≤ a.toNat := fun h' => h (UInt64.le_iff_toNat_le.mpr h')
    simp only [reduceCtorEq, false_iff]
    omega

end Weight

end PetriAnalysis
