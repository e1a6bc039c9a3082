import PetriAnalysis.Text.Digits

/-!
# String literals of JSON

Inside a string literal every character stands for itself, but for quotation marks, backslashes
and control characters, which are written with an escape. An escape by number gives a unit of
16 bits; a character beyond 16 bits takes a pair of such units. A literal may hold a unit that
has no partner. It is well-formed then, but it has no text.

## Main definitions

* `Piece`, `textOf` — the parts of a literal and their text.
* `pieces` — reads a literal up to its closing quotation mark.
* `writeChar`, `writeText` — the written form of a text.
-/

namespace PetriAnalysis.Json

open Text

/-- A part of a string literal. -/
inductive Piece where
  /-- A character. -/
  | char (c : Char)
  /-- A unit that was escaped by number. -/
  | unit (u : Nat)
  deriving DecidableEq

/-- Tells whether a unit is the first of a pair. -/
def isLeading (u : Nat) : Bool := 0xD800 ≤ u && u ≤ 0xDBFF

/-- Tells whether a unit is the second of a pair. -/
def isTrailing (u : Nat) : Bool := 0xDC00 ≤ u && u ≤ 0xDFFF

/-- The character of a pair of units. -/
def pairChar (u v : Nat) : Char := Char.ofNat (0x10000 + (u - 0xD800) * 0x400 + (v - 0xDC00))

/-- The text of a literal, unless a unit has no partner. -/
def textOf : List Piece → Option (List Char)
  | [] => some []
  | .char c :: rest => (textOf rest).map (c :: ·)
  | .unit u :: .unit v :: rest =>
    if isLeading u then
      if isTrailing v then (textOf rest).map (pairChar u v :: ·) else none
    else if isTrailing u then none
    else (textOf (.unit v :: rest)).map (Char.ofNat u :: ·)
  | .unit u :: rest =>
    if isLeading u || isTrailing u then none else (textOf rest).map (Char.ofNat u :: ·)

/-- The character that an escape by letter stands for. -/
def escapedChar? : Char → Option Char
  | '"' => some '"'
  | '\\' => some '\\'
  | '/' => some '/'
  | 'b' => some '\x08'
  | 'f' => some '\x0c'
  | 'n' => some '\n'
  | 'r' => some '\r'
  | 't' => some '\t'
  | _ => none

/-- Reads a literal whose opening quotation mark has been read, and answers its pieces and what
follows its closing quotation mark. Control characters have to be escaped. -/
def pieces : List Char → Option (List Piece × List Char)
  | [] => none
  | '"' :: rest => some ([], rest)
  | '\\' :: 'u' :: a :: b :: c :: d :: rest => do
    let u ← hexNumber? [a, b, c, d]
    let (ps, rest) ← pieces rest
    return (.unit u :: ps, rest)
  | '\\' :: e :: rest => do
    let c ← escapedChar? e
    let (ps, rest) ← pieces rest
    return (.char c :: ps, rest)
  | c :: rest =>
    if c.toNat < 0x20 then none
    else do
      let (ps, rest) ← pieces rest
      return (.char c :: ps, rest)

theorem length_lt_of_pieces {s : List Char} {ps : List Piece} {rest : List Char}
    (h : pieces s = some (ps, rest)) : rest.length < s.length := by
  fun_induction pieces s generalizing ps rest with
  | case1 => cases h
  | case2 r => cases h; simp
  | case3 a b c d r ih =>
    simp only [Option.bind_eq_bind, Option.bind_eq_some_iff, Prod.exists] at h
    obtain ⟨u, -, qs, r', hr, h⟩ := h
    cases h
    have := ih hr
    simp only [List.length_cons]
    omega
  | case4 e r _ ih =>
    simp only [Option.bind_eq_bind, Option.bind_eq_some_iff, Prod.exists] at h
    obtain ⟨u, -, qs, r', hr, h⟩ := h
    cases h
    have := ih hr
    simp only [List.length_cons]
    omega
  | case5 => cases h
  | case6 c r _ _ _ _ ih =>
    simp only [Option.bind_eq_bind, Option.bind_eq_some_iff, Prod.exists] at h
    obtain ⟨qs, r', hr, h⟩ := h
    cases h
    have := ih hr
    simp only [List.length_cons]
    omega

/-- A character as it is written in a literal. -/
def writeChar (c : Char) : List Char :=
  match c with
  | '"' => ['\\', '"']
  | '\\' => ['\\', '\\']
  | '\x08' => ['\\', 'b']
  | '\x0c' => ['\\', 'f']
  | '\n' => ['\\', 'n']
  | '\r' => ['\\', 'r']
  | '\t' => ['\\', 't']
  | c =>
    if c.toNat < 0x20 then ['\\', 'u', '0', '0', hexDigit (c.toNat / 16), hexDigit c.toNat]
    else [c]

/-- A text as a literal, with its quotation marks. -/
def writeText (cs : List Char) : List Char := '"' :: cs.flatMap writeChar ++ ['"']

/-- A literal without a text: a single leading unit. -/
def writeUnpaired : List Char := ['"', '\\', 'u', 'd', '8', '0', '0', '"']

end PetriAnalysis.Json
