/-!
# Exact values of floating-point numbers

A finite double is a natural number times a power of two. Its decimal texts are computed from
that pair with exact arithmetic, so no rounding happens but the one that a text asks for.

## Main definitions

* `Magnitude`, `Magnitude.ofFloat` — the absolute value of a finite double.
* `Magnitude.inUnits` — that value in units of a power of ten, as a fraction of naturals.
-/

namespace PetriAnalysis.Decimal

/-- The value `mantissa * 2 ^ exponent`. -/
structure Magnitude where
  mantissa : Nat
  exponent : Int
  /-- The next smaller double is half as far away as the next larger one. -/
  narrowBelow : Bool

/-- Tells whether the sign bit is set. -/
def isNegative (x : Float) : Bool := x.toBits >>> 63 == 1

namespace Magnitude

/-- The absolute value of a finite double. -/
def ofFloat (x : Float) : Magnitude :=
  let exponentBits := (x.toBits >>> 52 &&& 0x7FF).toNat
  let fraction := (x.toBits &&& 0xFFFFFFFFFFFFF).toNat
  if exponentBits = 0 then ⟨fraction, -1074, false⟩
  else ⟨0x10000000000000 + fraction, exponentBits - 1075, fraction = 0 ∧ 1 < exponentBits⟩

/-- The numerator and the denominator of `m * 2 ^ e` in units of `10 ^ k`. -/
def ratio (m : Nat) (e k : Int) : Nat × Nat :=
  (m * Nat.pow 2 e.toNat * Nat.pow 10 (-k).toNat, Nat.pow 2 (-e).toNat * Nat.pow 10 k.toNat)

/-- The value in units of `10 ^ k`, as a numerator and a denominator. -/
def inUnits (x : Magnitude) (k : Int) : Nat × Nat :=
  ratio x.mantissa x.exponent k

end Magnitude

end PetriAnalysis.Decimal
