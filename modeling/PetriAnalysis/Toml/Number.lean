import PetriAnalysis.Toml.Text

/-!
# Numbers and dates in TOML

Numbers, dates and times are spelt with a handful of characters, so such a value is first cut
out as a whole and then classified. Single underscores may stand between digits. A decimal
number has no leading zero, one in another base has no sign. A date is a day of the calendar,
and a time has at most 23 hours, 59 minutes and 60 seconds.

## Main definitions

* `integer?` — the value of an integer.
* `isFloat` — the spellings of floating-point numbers.
* `isDateTime` — the spellings of dates and times.
-/

namespace PetriAnalysis.Toml

open Text

/-- The digits of a number without the underscores between them. -/
def ungroup? (isDigit : Char → Bool) : List Char → Option (List Char)
  | [] => none
  | [c] => if isDigit c then some [c] else none
  | c :: d :: rest =>
    if isDigit c then
      if d = '_' then (ungroup? isDigit rest).map (c :: ·)
      else (ungroup? isDigit (d :: rest)).map (c :: ·)
    else none

/-- The digits of a decimal number, which does not begin with a superfluous zero. -/
def decimalDigits? (s : List Char) : Option (List Char) :=
  match ungroup? Char.isDigit s with
  | some ('0' :: _ :: _) => none
  | ds => ds

/-- The number spelt with digits of the given base. -/
def baseNumber? (base : Nat) (s : List Char) : Option Nat := do
  let ds ← ungroup? (fun c => ((hexValue? c).map fun v => decide (v < base)).getD false) s
  return ds.foldl (fun n c => base * n + (hexValue? c).getD 0) 0

/-- A sign, which may be missing, and what follows. -/
def sign : List Char → Bool × List Char
  | '+' :: rest => (false, rest)
  | '-' :: rest => (true, rest)
  | s => (false, s)

/-- The value of an integer. -/
def integer? (s : List Char) : Option Int :=
  match s with
  | '0' :: 'x' :: ds => (baseNumber? 16 ds).map Int.ofNat
  | '0' :: 'o' :: ds => (baseNumber? 8 ds).map Int.ofNat
  | '0' :: 'b' :: ds => (baseNumber? 2 ds).map Int.ofNat
  | s =>
    let (negative, ds) := sign s
    (decimalDigits? ds).map fun ds => if negative then -(ofDigits ds : Int) else ofDigits ds

/-- The exponent of a floating-point number, spelt after its letter. -/
def exponent? (s : List Char) : Option Int :=
  let (negative, ds) := sign s
  (ungroup? Char.isDigit ds).map fun ds => if negative then -(ofDigits ds : Int) else ofDigits ds

/-- Tells whether `mantissa * 10 ^ exponent` is below the least number that rounds to infinity. -/
def isFinite (mantissa : Nat) (exponent : Int) : Bool :=
  let digits : Int := (Nat.toDigits 10 mantissa).length
  if mantissa = 0 ∨ digits + exponent < 0 then true
  else if 310 < digits + exponent then false
  else
    mantissa * Nat.pow 10 exponent.toNat <
      (Nat.pow 2 1024 - Nat.pow 2 970) * Nat.pow 10 (-exponent).toNat

/-- Tells whether a text spells a floating-point number: a fraction, an exponent or both after
the whole part, or a special value. -/
def isFloat (s : List Char) : Bool :=
  let (_, s) := sign s
  if s = ['i', 'n', 'f'] ∨ s = ['n', 'a', 'n'] then true
  else
    let isMark (c : Char) : Bool := c = 'e' || c = 'E'
    let whole := s.takeWhile fun c => c ≠ '.' && !isMark c
    let rest := s.drop whole.length
    let value? : Option (Nat × Int) := do
      let whole ← decimalDigits? whole
      match rest with
      | '.' :: rest =>
        let fraction ← ungroup? Char.isDigit (rest.takeWhile fun c => !isMark c)
        let e ← match rest.dropWhile fun c => !isMark c with
          | [] => some 0
          | _ :: e => exponent? e
        return (ofDigits (whole ++ fraction), e - fraction.length)
      | _ :: e => return (ofDigits whole, ← exponent? e)
      | [] => none
    match value? with
    | some (mantissa, exponent) => isFinite mantissa exponent
    | none => false

/-- The number spelt with two digits. -/
def twoDigits? (a b : Char) : Option Nat :=
  if a.isDigit ∧ b.isDigit then some (ofDigits [a, b]) else none

/-- The number of days of a month. -/
def daysIn (year month : Nat) : Nat :=
  if month = 2 then
    if year % 4 = 0 ∧ (year % 100 ≠ 0 ∨ year % 400 = 0) then 29 else 28
  else if month = 4 ∨ month = 6 ∨ month = 9 ∨ month = 11 then 30
  else 31

/-- Reads a date. -/
def date? : List Char → Option (List Char)
  | a :: b :: c :: d :: '-' :: e :: f :: '-' :: g :: h :: rest => do
    let century ← twoDigits? a b
    let year ← twoDigits? c d
    let month ← twoDigits? e f
    let day ← twoDigits? g h
    if 1 ≤ month ∧ month ≤ 12 ∧ 1 ≤ day ∧ day ≤ daysIn (100 * century + year) month then some rest
    else none
  | _ => none

/-- Reads hours and minutes. -/
def minutes? : List Char → Option (List Char)
  | a :: b :: ':' :: c :: d :: rest => do
    let hour ← twoDigits? a b
    let minute ← twoDigits? c d
    if hour ≤ 23 ∧ minute ≤ 59 then some rest else none
  | _ => none

/-- Reads a time of day. The seconds may be left out, and they may have a fraction. -/
def time? (s : List Char) : Option (List Char) := do
  match ← minutes? s with
  | ':' :: a :: b :: rest =>
    unless (← twoDigits? a b) ≤ 60 do none
    match rest with
    | '.' :: rest => (digits? rest).map Prod.snd
    | rest => some rest
  | rest => some rest

/-- Tells whether a text is an offset from universal time, or empty. -/
def isOffset : List Char → Bool
  | [] | ['Z'] | ['z'] => true
  | '+' :: rest | '-' :: rest => minutes? rest = some []
  | _ => false

/-- Tells whether a text is a date, a time or both. Only both together may have an offset. -/
def isDateTime (s : List Char) : Bool :=
  match date? s with
  | some [] => true
  | some (separator :: rest) =>
    if separator = 'T' ∨ separator = 't' ∨ separator = ' ' then
      match time? rest with
      | some rest => isOffset rest
      | none => false
    else false
  | none => time? s = some []

/-- Tells whether a character may stand in a number, a date or a time. -/
def isAtomChar (c : Char) : Bool :=
  c.isAlphanum || c = '_' || c = '+' || c = '-' || c = '.' || c = ':'

/-- Cuts a number, a date or a time off the front of a text. A blank may stand between a date and
a time. -/
def atom (s : List Char) : List Char × List Char :=
  let first := s.takeWhile isAtomChar
  let rest := s.dropWhile isAtomChar
  match rest with
  | ' ' :: c :: more =>
    if date? first = some [] ∧ c.isDigit then
      (first ++ ' ' :: (c :: more).takeWhile isAtomChar, (c :: more).dropWhile isAtomChar)
    else (first, rest)
  | _ => (first, rest)

end PetriAnalysis.Toml
