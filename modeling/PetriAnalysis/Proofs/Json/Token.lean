import Mathlib.Data.List.Basic
import PetriAnalysis.Json.Token
import PetriAnalysis.Proofs.Json.StringLiteral

/-!
# Tokens are read back

Tokens are written one after the other with nothing between them. All but the numbers show where
they end. A number goes on for as long as there are digits, and it would go on with a fraction or an
exponent too. So a list of tokens is read back as long as no number follows another.

## Main definitions

* `Token.IsNumber` — the two kinds of numbers.
* `EndsNumber s` — a number that stands before `s` does not go on into it.
* `Separable ts` — the tokens can be told apart without blanks.
-/

namespace PetriAnalysis.Json

open Text

/-- Tells whether a token is a number. -/
def Token.IsNumber : Token → Prop
  | .natural _ | .decimal _ => True
  | _ => False

/-- The text does not begin with a character that a number may go on with. -/
def EndsNumber (s : List Char) : Prop :=
  ∀ c ∈ s.head?, c.isDigit = false ∧ c ≠ '.' ∧ c ≠ 'e' ∧ c ≠ 'E'

/-- No number follows another, and no number is kept as it was spelt. -/
inductive Separable : List Token → Prop
  | nil : Separable []
  | natural {n : Nat} {ts : List Token} :
    (∀ t ∈ ts.head?, ¬ t.IsNumber) → Separable ts → Separable (.natural n :: ts)
  | other {t : Token} {ts : List Token} : ¬ t.IsNumber → Separable ts → Separable (t :: ts)

variable {c : Char} {n : Nat} {s rest : List Char} {t : Token} {ts : List Token}

/-! ## Numbers -/

theorem digitChar_ne_zero : ∀ d < 10, d ≠ 0 → Nat.digitChar d ≠ '0' := by decide

/-- The digits of a positive number do not begin with a zero. -/
theorem head?_toDigits_ne_zero (h : n ≠ 0) : (Nat.toDigits 10 n).head? ≠ some '0' := by
  induction n using Nat.strongRecOn with
  | ind n ih =>
    rcases Nat.lt_or_ge n 10 with hlt | hge
    · rw [Nat.toDigits_of_lt_base hlt]
      simpa using digitChar_ne_zero n hlt h
    · rw [Nat.toDigits_of_base_le (by decide) hge,
        List.head?_append_of_ne_nil _ Nat.toDigits_ne_nil]
      exact ih (n / 10) (by omega) (by omega)

theorem ofDigits_toDigits (n : Nat) : ofDigits (Nat.toDigits 10 n) = n :=
  Nat.ofDigitChars_ten_toDigits

theorem isDigit_of_mem_toDigits (h : c ∈ Nat.toDigits 10 n) : c.isDigit = true :=
  Nat.isDigit_of_mem_toDigits (by decide) (by decide) h

/-- Digits are split off up to the end of the number. -/
theorem digits?_toDigits (h : EndsNumber rest) :
    digits? (Nat.toDigits 10 n ++ rest) = some (Nat.toDigits 10 n, rest) := by
  have hdigits : ∀ c ∈ Nat.toDigits 10 n, c.isDigit = true := fun c => isDigit_of_mem_toDigits
  obtain ⟨htake, hdrop⟩ :
      rest.takeWhile Char.isDigit = [] ∧ rest.dropWhile Char.isDigit = rest := by
    cases rest with
    | nil => exact ⟨rfl, rfl⟩
    | cons c rest => simp [(h c rfl).1]
  unfold digits?
  rw [List.takeWhile_append_of_pos hdigits, List.dropWhile_append_of_pos hdigits, htake, hdrop,
    List.append_nil]
  split
  case h_1 hnil => exact absurd hnil Nat.toDigits_ne_nil
  case h_2 => rfl

theorem wholePart?_toDigits (h : EndsNumber rest) :
    wholePart? (Nat.toDigits 10 n ++ rest) = some (Nat.toDigits 10 n, rest) := by
  by_cases hn : n = 0
  · subst hn
    rfl
  · unfold wholePart?
    split
    case h_1 hzero =>
      refine absurd ?_ (head?_toDigits_ne_zero hn)
      rw [← List.head?_append_of_ne_nil _ Nat.toDigits_ne_nil, hzero]
      rfl
    case h_2 => exact digits?_toDigits h

theorem fractionPart?_of_endsNumber (h : EndsNumber rest) :
    fractionPart? rest = some ([], rest) := by
  unfold fractionPart?
  split
  case h_1 => exact absurd rfl (h '.' rfl).2.1
  case h_2 => rfl

theorem exponentPart?_of_endsNumber (h : EndsNumber rest) :
    exponentPart? rest = some ([], rest) := by
  cases rest with
  | nil => rfl
  | cons c rest => simp [exponentPart?, (h c rfl).2.2]

/-- A digit does not begin anything but a number. -/
theorem scanToken_of_isDigit (h : c.isDigit = true) : scanToken (c :: s) = scanNumber (c :: s) := by
  unfold scanToken
  split
  case h_11 => rfl
  -- Every other pattern begins with a character that is not a digit.
  all_goals
    rename_i hs
    obtain ⟨rfl, -⟩ := List.cons.inj hs
    exact absurd h (by decide)

theorem minusPart_of_isDigit (h : c.isDigit = true) : minusPart (c :: s) = ([], c :: s) := by
  unfold minusPart
  split
  case h_1 hs =>
    obtain ⟨rfl, -⟩ := List.cons.inj hs
    exact absurd h (by decide)
  case h_2 => rfl

/-- The digits of a number begin with a digit. -/
theorem exists_toDigits_append (n : Nat) (rest : List Char) :
    ∃ c s, c.isDigit = true ∧ Nat.toDigits 10 n ++ rest = c :: s := by
  obtain ⟨c, s, hc⟩ := List.exists_cons_of_ne_nil (Nat.toDigits_ne_nil (n := n) (b := 10))
  refine ⟨c, s ++ rest, isDigit_of_mem_toDigits (n := n) ?_, by rw [hc]; rfl⟩
  rw [hc]
  exact List.mem_cons_self

theorem scanToken_toDigits (h : EndsNumber rest) :
    scanToken (Nat.toDigits 10 n ++ rest) = some (.natural n, rest) := by
  have hwhole := wholePart?_toDigits (n := n) h
  obtain ⟨c, s, hc, hs⟩ := exists_toDigits_append n rest
  rw [hs] at hwhole ⊢
  rw [scanToken_of_isDigit hc, scanNumber, minusPart_of_isDigit hc]
  simp [hwhole, fractionPart?_of_endsNumber h, exponentPart?_of_endsNumber h, ofDigits_toDigits]

/-! ## Lists of tokens -/

/-- Every token but a number shows where it ends. -/
theorem scanToken_write (h : ¬ t.IsNumber) (rest : List Char) :
    scanToken (t.write ++ rest) = some (t, rest) := by
  cases t with
  | natural => exact absurd trivial h
  | decimal => exact absurd trivial h
  | boolean b => cases b <;> rfl
  | string text =>
    cases text with
    | none =>
      simp only [Token.write, writeUnpaired, List.cons_append, List.nil_append, scanToken,
        pieces_unpaired]
      rfl
    | some cs =>
      obtain ⟨ps, hread, htext⟩ := exists_pieces cs rest
      simp [Token.write, writeText, scanToken, hread, htext]
  | _ => rfl

/-- No number goes on with a token that is not a number. -/
theorem endsNumber_write (h : ¬ t.IsNumber) (rest : List Char) : EndsNumber (t.write ++ rest) := by
  intro c hc
  cases t with
  | natural => exact absurd trivial h
  | decimal => exact absurd trivial h
  | boolean b => cases b <;> cases hc <;> decide
  | string text => cases text <;> cases hc <;> decide
  | _ => cases hc; decide

theorem endsNumber_flatMap_write (h : ∀ t ∈ ts.head?, ¬ t.IsNumber) :
    EndsNumber (ts.flatMap Token.write) := by
  cases ts with
  | nil => rintro c ⟨⟩
  | cons t ts => exact endsNumber_write (h t rfl) (ts.flatMap Token.write)

theorem scanToken_blank (h : isBlank c = true) : scanToken (c :: s) = none := by
  simp only [isBlank, Bool.or_eq_true, decide_eq_true_eq] at h
  rcases h with ((rfl | rfl) | rfl) | rfl <;> rfl

/-- A text is scanned token by token. No token is read from a text that begins with a blank, so the
text is not scanned from behind its blanks. -/
theorem scan_of_scanToken (h : scanToken s = some (t, rest)) :
    scan s = (scan rest).map (t :: ·) := by
  cases s with
  | nil => cases h
  | cons c s =>
    have hblank : isBlank c = false := by
      by_contra hc
      rw [scanToken_blank (Bool.of_not_eq_false hc)] at h
      cases h
    rw [scan, hblank]
    simp only [Bool.false_eq_true, if_false]
    split
    case h_1 hnone => cases h.symm.trans hnone
    case h_2 hsome =>
      cases h.symm.trans hsome
      rfl

/-- Tokens that can be told apart are read back. -/
theorem scan_write (h : Separable ts) : scan (ts.flatMap Token.write) = some ts := by
  induction h with
  | nil => simp [scan]
  | natural hnext _ ih =>
    rw [List.flatMap_cons, Token.write,
      scan_of_scanToken (scanToken_toDigits (endsNumber_flatMap_write hnext)), ih]
    rfl
  | other hnumber _ ih =>
    rw [List.flatMap_cons, scan_of_scanToken (scanToken_write hnumber _), ih]
    rfl

end PetriAnalysis.Json
