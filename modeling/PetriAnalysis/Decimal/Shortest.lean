import PetriAnalysis.Decimal.Magnitude

/-!
# Shortest decimal texts

The decimal text of a double has the fewest digits that still identify it. The reals that round
to a double form an interval, whose ends belong to it when the mantissa is even; the coarsest
grid of powers of ten with a point in that interval gives the fewest digits. On that grid the
nearer one of the value's two neighbours is taken, and the upper one when both are equally near.

The text is always positional: a large number is padded with zeros, no exponent is written, and
an integral value has no point.

## Main definitions

* `Magnitude.readsBack` — a decimal lies in the interval.
* `Magnitude.shortest` — the digits and the power of ten.
* `text` — the decimal text of any double.
-/

namespace PetriAnalysis.Decimal

/-- The value `digits * 10 ^ exponent`. -/
structure Numeral where
  digits : Nat
  exponent : Int
  deriving DecidableEq

namespace Magnitude

/-- The number `digits` of units of `10 ^ k` rounds to this value. The ends of the interval are
taken in quarters of the last binary place. -/
def readsBack (x : Magnitude) (k : Int) (digits : Nat) : Bool :=
  let unit := ratio 1 (x.exponent - 2) k
  let low := (4 * x.mantissa - if x.narrowBelow then 1 else 2) * unit.1
  let high := (4 * x.mantissa + 2) * unit.1
  let point := digits * unit.2
  if x.mantissa % 2 = 0 then low ≤ point ∧ point ≤ high else low < point ∧ point < high

/-- The point of the grid `10 ^ k` that stands for this value, if there is one. -/
def onGrid? (x : Magnitude) (k : Int) : Option Numeral :=
  let (num, den) := x.inUnits k
  let below := num / den
  let upperIsNearer := den ≤ 2 * (num % den)
  match x.readsBack k below, x.readsBack k (below + 1) with
  | true, true => some ⟨if upperIsNearer then below + 1 else below, k⟩
  | true, false => some ⟨below, k⟩
  | false, true => some ⟨below + 1, k⟩
  | false, false => none

/-- The exponent of the coarsest grid: every double is below its unit. -/
def coarsest : Int := 309

/-- The shortest numeral that rounds to this value. The finest grid that is tried holds every
double. -/
def shortest (x : Magnitude) : Numeral :=
  ((List.range 1384).findSome? fun (j : Nat) => x.onGrid? (coarsest - j)).getD ⟨0, 0⟩

end Magnitude

/-- The decimal digits of a natural number. -/
def digitsOf (n : Nat) : List Char := Nat.toDigits 10 n

/-- Pads a text with zeros in front to the given width. -/
def padZeros (width : Nat) (cs : List Char) : List Char :=
  List.replicate (width - cs.length) '0' ++ cs

/-- Writes `n / 10 ^ places` with that many digits after the point. -/
def withPlaces (n places : Nat) : String :=
  let cs := padZeros (places + 1) (digitsOf n)
  let whole := cs.length - places
  if places = 0 then String.ofList cs
  else String.ofList (cs.take whole ++ '.' :: cs.drop whole)

/-- The positional text of a numeral. -/
def Numeral.positional (d : Numeral) : String :=
  if 0 ≤ d.exponent then String.ofList (digitsOf d.digits ++ List.replicate d.exponent.toNat '0')
  else withPlaces d.digits (-d.exponent).toNat

/-- Puts the sign of `x` in front of the text of its absolute value. -/
def signed (x : Float) (absolute : String) : String :=
  if isNegative x then "-" ++ absolute else absolute

/-- The text of a double by way of the text of its magnitude. -/
def textVia (finite : Magnitude → String) (x : Float) : String :=
  if x.isNaN then "NaN"
  else if x.isInf then signed x "inf"
  else signed x (finite (.ofFloat x))

/-- The shortest decimal text of a double. -/
def text : Float → String :=
  textVia fun m => if m.mantissa = 0 then "0" else m.shortest.positional

end PetriAnalysis.Decimal
