import PetriAnalysis.Json.StringLiteral

/-!
# Tokens of JSON

A JSON text is a sequence of tokens with blanks between them. A natural number is kept apart
from all other number literals, of which only the spelling is kept: no value here is read from
a negative or a fractional number.

## Main definitions

* `Token`, `Token.write` — tokens and their written form.
* `scanNumber`, `scanToken` — read one token.
* `scan` — reads a text as a list of tokens.
-/

namespace PetriAnalysis.Json

open Text

/-- A token. -/
inductive Token where
  | openBrace
  | closeBrace
  | openBracket
  | closeBracket
  | comma
  | colon
  | null
  | boolean (b : Bool)
  /-- A number without sign, fraction and exponent. -/
  | natural (n : Nat)
  /-- Any other number, as it is spelt. -/
  | decimal (literal : List Char)
  /-- A string literal, with its text if it has one. -/
  | string (text : Option (List Char))
  deriving DecidableEq

/-- The written form of a token. -/
def Token.write : Token → List Char
  | .openBrace => ['{']
  | .closeBrace => ['}']
  | .openBracket => ['[']
  | .closeBracket => [']']
  | .comma => [',']
  | .colon => [':']
  | .null => ['n', 'u', 'l', 'l']
  | .boolean true => ['t', 'r', 'u', 'e']
  | .boolean false => ['f', 'a', 'l', 's', 'e']
  | .natural n => Nat.toDigits 10 n
  | .decimal literal => literal
  | .string (some text) => writeText text
  | .string none => writeUnpaired

/-- Tells whether a character may stand between two tokens. -/
def isBlank (c : Char) : Bool := c = ' ' || c = '\n' || c = '\t' || c = '\r'

/-- The whole part of a number: a zero, or digits that do not begin with a zero. -/
def wholePart? : List Char → Option (List Char × List Char)
  | '0' :: rest => some (['0'], rest)
  | s => digits? s

/-- The fraction of a number, which may be missing. -/
def fractionPart? : List Char → Option (List Char × List Char)
  | '.' :: rest => (digits? rest).map fun (ds, rest) => ('.' :: ds, rest)
  | s => some ([], s)

/-- The sign of an exponent, which may be missing. -/
def signPart : List Char → List Char × List Char
  | '+' :: rest => (['+'], rest)
  | '-' :: rest => (['-'], rest)
  | s => ([], s)

/-- The exponent of a number, which may be missing. -/
def exponentPart? : List Char → Option (List Char × List Char)
  | [] => some ([], [])
  | c :: rest =>
    if c = 'e' ∨ c = 'E' then
      let (sign, rest) := signPart rest
      (digits? rest).map fun (ds, rest) => (c :: sign ++ ds, rest)
    else some ([], c :: rest)

/-- The minus sign of a number, which may be missing. -/
def minusPart : List Char → List Char × List Char
  | '-' :: rest => (['-'], rest)
  | s => ([], s)

/-- Reads a number. -/
def scanNumber (s : List Char) : Option (Token × List Char) := do
  let (sign, rest) := minusPart s
  let (whole, rest) ← wholePart? rest
  let (fraction, rest) ← fractionPart? rest
  let (exponent, rest) ← exponentPart? rest
  if sign = [] ∧ fraction = [] ∧ exponent = [] then return (.natural (ofDigits whole), rest)
  else return (.decimal (sign ++ whole ++ fraction ++ exponent), rest)

/-- Reads the token at the front of a text that does not begin with a blank. -/
def scanToken : List Char → Option (Token × List Char)
  | '{' :: rest => some (.openBrace, rest)
  | '}' :: rest => some (.closeBrace, rest)
  | '[' :: rest => some (.openBracket, rest)
  | ']' :: rest => some (.closeBracket, rest)
  | ',' :: rest => some (.comma, rest)
  | ':' :: rest => some (.colon, rest)
  | 'n' :: 'u' :: 'l' :: 'l' :: rest => some (.null, rest)
  | 't' :: 'r' :: 'u' :: 'e' :: rest => some (.boolean true, rest)
  | 'f' :: 'a' :: 'l' :: 's' :: 'e' :: rest => some (.boolean false, rest)
  | '"' :: rest => (pieces rest).map fun (ps, rest) => (.string (textOf ps), rest)
  | s => scanNumber s

theorem length_lt_of_wholePart? {s ds rest : List Char} (h : wholePart? s = some (ds, rest)) :
    rest.length < s.length := by
  unfold wholePart? at h
  split at h
  · cases h; simp
  · exact length_lt_of_digits? h

theorem length_le_of_fractionPart? {s ds rest : List Char}
    (h : fractionPart? s = some (ds, rest)) : rest.length ≤ s.length := by
  unfold fractionPart? at h
  split at h
  · simp only [Option.map_eq_some_iff, Prod.exists] at h
    obtain ⟨ds, r, hd, h⟩ := h
    cases h
    have := length_lt_of_digits? hd
    simp only [List.length_cons]
    omega
  · cases h; exact Nat.le_refl _

theorem length_signPart_le (s : List Char) : (signPart s).2.length ≤ s.length := by
  unfold signPart
  split <;> simp

theorem length_le_of_exponentPart? {s ds rest : List Char}
    (h : exponentPart? s = some (ds, rest)) : rest.length ≤ s.length := by
  unfold exponentPart? at h
  split at h
  · cases h; exact Nat.le_refl _
  · next c r =>
    split at h
    · simp only [Option.map_eq_some_iff, Prod.exists] at h
      obtain ⟨ds, r', hd, h⟩ := h
      cases h
      have := length_lt_of_digits? hd
      have := length_signPart_le r
      simp only [List.length_cons]
      omega
    · cases h; exact Nat.le_refl _

theorem length_minusPart_le (s : List Char) : (minusPart s).2.length ≤ s.length := by
  unfold minusPart
  split <;> simp

theorem length_lt_of_scanNumber {s rest : List Char} {t : Token}
    (h : scanNumber s = some (t, rest)) : rest.length < s.length := by
  unfold scanNumber at h
  simp only [Option.bind_eq_bind, Option.bind_eq_some_iff, Prod.exists] at h
  obtain ⟨whole, r₁, h₁, fraction, r₂, h₂, exponent, r₃, h₃, h⟩ := h
  have l₁ := length_lt_of_wholePart? h₁
  have l₂ := length_le_of_fractionPart? h₂
  have l₃ := length_le_of_exponentPart? h₃
  have l₀ := length_minusPart_le s
  have : rest = r₃ := by
    split at h
    · exact (Prod.mk.inj (Option.some.inj h)).2.symm
    · exact (Prod.mk.inj (Option.some.inj h)).2.symm
  subst this
  omega

theorem length_lt_of_scanToken {s rest : List Char} {t : Token}
    (h : scanToken s = some (t, rest)) : rest.length < s.length := by
  unfold scanToken at h
  split at h
  case h_10 r =>
    simp only [Option.map_eq_some_iff, Prod.exists] at h
    obtain ⟨ps, r', hp, h⟩ := h
    cases h
    exact Nat.lt_succ_of_lt (length_lt_of_pieces hp)
  case h_11 => exact length_lt_of_scanNumber h
  all_goals
    cases h
    simp only [List.length_cons]
    omega

/-- Reads a text as a list of tokens. -/
def scan (s : List Char) : Option (List Token) :=
  match s with
  | [] => some []
  | c :: rest =>
    if isBlank c then scan rest
    else
      match h : scanToken (c :: rest) with
      | none => none
      | some (t, rest') =>
        have := length_lt_of_scanToken h
        (scan rest').map (t :: ·)
termination_by s.length
decreasing_by
  · exact Nat.lt_succ_self _
  · exact this

end PetriAnalysis.Json
