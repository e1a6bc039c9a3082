/-!
# Bounds of rows and columns

A bound is an interval of doubles whose missing sides are infinite. A bound may be written down
with a side that is not a number, or with its sides exchanged; such a bound is not `Valid`, and
no linear program accepts it.

## Main definitions

* `Bound`, `Bound.lower`, `Bound.upper`.
* `Bound.contains` — membership up to a tolerance.
* `Bound.Valid`.
-/

namespace PetriAnalysis

/-- The values that a row or a column may take. -/
inductive Bound where
  | free
  | lower (bound : Float)
  | upper (bound : Float)
  | double (lower upper : Float)
  | fixed (value : Float)
  deriving BEq, Inhabited

namespace Bound

/-- Positive infinity. -/
def infinity : Float := Float.ofBits 0x7FF0000000000000

/-- The least value. -/
def least : Bound → Float
  | .lower x | .double x _ | .fixed x => x
  | .free | .upper _ => -infinity

/-- The greatest value. -/
def greatest : Bound → Float
  | .upper x | .double _ x | .fixed x => x
  | .free | .lower _ => infinity

/-- Tells whether `x` is at most `tolerance` outside the interval. -/
def contains (b : Bound) (x tolerance : Float) : Bool :=
  b.least - tolerance ≤ x && x ≤ b.greatest + tolerance

/-- Both sides are numbers, and they are in order. -/
def Valid (b : Bound) : Prop :=
  b.least.isNaN = false ∧ b.greatest.isNaN = false ∧ ¬ b.greatest < b.least

instance (b : Bound) : Decidable b.Valid :=
  inferInstanceAs (Decidable (_ ∧ _ ∧ _))

end Bound

end PetriAnalysis
