import PetriAnalysis.Text.Digits

/-!
# Texts in TOML

A text stands between quotation marks, where a backslash begins an escape, or between
apostrophes, where every character stands for itself. Three marks in a row open a text that may
go over several lines; a line feed right after them is not part of it, and up to two more marks
before the closing ones are. Between quotation marks a backslash at the end of a line skips the
line feed and all blanks after it. Control characters other than the tab stand nowhere.

## Main definitions

* `isBlank`, `isControl` — classes of characters.
* `escape?` — an escape.
* `text?` — a text in any of its four forms.
-/

namespace PetriAnalysis.Toml

open Text

/-- Tells whether a character is a blank inside a line. -/
def isBlank (c : Char) : Bool := c = ' ' || c = '\t'

/-- Tells whether a character may not stand in a text or a comment of one line. -/
def isControl (c : Char) : Bool := (c.toNat < 0x20 && c ≠ '\t') || c.toNat = 0x7F

/-- The character with the given number. -/
def scalar? (n : Nat) : Option Char := if n.isValidChar then some (Char.ofNat n) else none

/-- The character that an escape by letter stands for. -/
def escapedLetter? : Char → Option Char
  | 'b' => some '\x08'
  | 't' => some '\t'
  | 'n' => some '\n'
  | 'f' => some '\x0c'
  | 'r' => some '\r'
  | 'e' => some '\x1b'
  | '"' => some '"'
  | '\\' => some '\\'
  | _ => none

/-- The number of hexadecimal digits in an escape by number. -/
def escapeWidth? : Char → Option Nat
  | 'x' => some 2
  | 'u' => some 4
  | 'U' => some 8
  | _ => none

/-- Reads an escape whose backslash has been read. -/
def escape? : List Char → Option (Char × List Char)
  | [] => none
  | c :: rest =>
    match escapeWidth? c with
    | some width =>
      if width ≤ rest.length then
        ((hexNumber? (rest.take width)).bind scalar?).map (·, rest.drop width)
      else none
    | none => (escapedLetter? c).map (·, rest)

theorem length_lt_of_escape? {s rest : List Char} {c : Char} (h : escape? s = some (c, rest)) :
    rest.length < s.length := by
  unfold escape? at h
  split at h
  · cases h
  · next e r =>
    split at h
    · next width _ =>
      split at h
      · simp only [Option.map_eq_some_iff, Prod.mk.injEq] at h
        obtain ⟨_, _, _, rfl⟩ := h
        simp only [List.length_drop, List.length_cons]
        omega
      · cases h
    · simp only [Option.map_eq_some_iff, Prod.mk.injEq] at h
      obtain ⟨_, _, _, rfl⟩ := h
      simp

/-- Reads a text of one line up to its closing quotation mark. -/
def quoted? (s : List Char) : Option (List Char × List Char) :=
  match s with
  | [] => none
  | '"' :: rest => some ([], rest)
  | '\\' :: rest =>
    match h : escape? rest with
    | none => none
    | some (c, rest') =>
      have := length_lt_of_escape? h
      (quoted? rest').map fun (cs, rest) => (c :: cs, rest)
  | c :: rest =>
    if isControl c then none else (quoted? rest).map fun (cs, rest) => (c :: cs, rest)
termination_by s.length
decreasing_by all_goals simp_all; try omega

/-- Up to two marks that stand before the closing three, and what follows. -/
def surplusMarks (mark : Char) : List Char → List Char × List Char
  | c :: d :: rest =>
    if c = mark ∧ d = mark then ([c, d], rest)
    else if c = mark then ([c], d :: rest)
    else ([], c :: d :: rest)
  | [c] => if c = mark then ([c], []) else ([], [c])
  | [] => ([], [])

/-- What follows a line feed and all blanks and line feeds after it. -/
def skipLines (s : List Char) : List Char := s.dropWhile fun c => isBlank c || c = '\n'

theorem length_skipLines_le (s : List Char) : (skipLines s).length ≤ s.length :=
  (List.dropWhile_sublist _).length_le

/-- Reads a text of several lines up to its closing quotation marks. -/
def quotedLines? (s : List Char) : Option (List Char × List Char) :=
  match s with
  | [] => none
  | '"' :: '"' :: '"' :: rest => some (surplusMarks '"' rest)
  | '\\' :: rest =>
    match _hskip : rest.dropWhile isBlank with
    | '\n' :: rest' =>
      have := length_skipLines_le rest'
      have : (rest.dropWhile isBlank).length ≤ rest.length := (List.dropWhile_sublist _).length_le
      quotedLines? (skipLines rest')
    | _ =>
      match h : escape? rest with
      | none => none
      | some (c, rest') =>
        have := length_lt_of_escape? h
        (quotedLines? rest').map fun (cs, rest) => (c :: cs, rest)
  | c :: rest =>
    if isControl c ∧ c ≠ '\n' then none
    else (quotedLines? rest).map fun (cs, rest) => (c :: cs, rest)
termination_by s.length
decreasing_by all_goals simp_all; try omega

/-- Reads a text of one line up to its closing apostrophe. -/
def verbatim? : List Char → Option (List Char × List Char)
  | [] => none
  | '\'' :: rest => some ([], rest)
  | c :: rest =>
    if isControl c then none else (verbatim? rest).map fun (cs, rest) => (c :: cs, rest)

/-- Reads a text of several lines up to its closing apostrophes. -/
def verbatimLines? : List Char → Option (List Char × List Char)
  | [] => none
  | '\'' :: '\'' :: '\'' :: rest => some (surplusMarks '\'' rest)
  | c :: rest =>
    if isControl c ∧ c ≠ '\n' then none
    else (verbatimLines? rest).map fun (cs, rest) => (c :: cs, rest)

/-- A text without the line feed that it may begin with. -/
def dropLineFeed : List Char → List Char
  | '\n' :: rest => rest
  | s => s

/-- Reads a text of one line, which may be the name of a member. -/
def lineText? : List Char → Option (List Char × List Char)
  | '"' :: rest => quoted? rest
  | '\'' :: rest => verbatim? rest
  | _ => none

/-- Reads a text. -/
def text? : List Char → Option (List Char × List Char)
  | '"' :: '"' :: '"' :: rest => quotedLines? (dropLineFeed rest)
  | '\'' :: '\'' :: '\'' :: rest => verbatimLines? (dropLineFeed rest)
  | s => lineText? s

end PetriAnalysis.Toml
