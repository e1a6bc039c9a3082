import PetriAnalysis.Decimal.Shortest

/-!
# Decimal texts with a fixed number of places

The exact value of the double is rounded, and a value halfway between two texts goes to the one
whose last digit is even.

## Main definitions

* `roundToEven` — a quotient rounded to the nearest natural number.
* `fixed` — the text with a given number of places.
-/

namespace PetriAnalysis.Decimal

/-- The natural number nearest to `num / den`, the even one of two equally near ones. -/
def roundToEven (num den : Nat) : Nat :=
  let below := num / den
  let twice := 2 * (num % den)
  if twice < den then below
  else if den < twice then below + 1
  else below + below % 2

/-- The text of a double with the given number of digits after the point. -/
def fixed (places : Nat) : Float → String :=
  textVia fun m =>
    let (num, den) := m.inUnits (-places)
    withPlaces (roundToEven num den) places

end PetriAnalysis.Decimal
