import PetriAnalysis.Json.StringLiteral

/-!
# String literals are read back

A character is written as itself, with an escape by letter, or with an escape by number. Each of the
three is read as one piece, and this piece has the character as its text. So the text of a written
literal is the text that it was written for.

## Main definitions

* `Piece.StandsFor p c` — a piece whose text is a character, whatever pieces follow it.
* `ReadsAsPiece written p` — characters of a literal that are read as one piece.
-/

namespace PetriAnalysis.Json

open Text

/-- The text of a piece is a character, whatever follows the piece. -/
def Piece.StandsFor (p : Piece) (c : Char) : Prop :=
  ∀ ps, textOf (p :: ps) = (textOf ps).map (c :: ·)

/-- Characters that are read as one piece, whatever follows them. -/
def ReadsAsPiece (written : List Char) (p : Piece) : Prop :=
  ∀ rest, pieces (written ++ rest) = (pieces rest).map fun (ps, rest) => (p :: ps, rest)

variable {c : Char} {u : Nat}

/-! ## The three forms of a character -/

theorem standsFor_char (c : Char) : (Piece.char c).StandsFor c := fun _ => rfl

/-- A unit that is not one of a pair stands for its own character. -/
theorem standsFor_unit (hleading : isLeading u = false) (htrailing : isTrailing u = false) :
    (Piece.unit u).StandsFor (Char.ofNat u) := by
  intro ps
  -- A unit is read together with the piece behind it, which may be a unit too.
  cases ps with
  | nil => simp [textOf, hleading, htrailing]
  | cons p ps => cases p <;> simp [textOf, hleading, htrailing]

theorem standsFor_control (h : c.toNat < 0x20) : (Piece.unit c.toNat).StandsFor c := by
  have hunit := standsFor_unit (u := c.toNat) (by simp [isLeading]; omega)
    (by simp [isTrailing]; omega)
  rwa [Char.ofNat_toNat] at hunit

/-- A control character is written with two digits that give its number. -/
theorem hexNumber?_control :
    ∀ n < 0x20, hexNumber? ['0', '0', hexDigit (n / 16), hexDigit n] = some n := by
  decide

theorem readsAsPiece_control (h : c.toNat < 0x20) :
    ReadsAsPiece ['\\', 'u', '0', '0', hexDigit (c.toNat / 16), hexDigit c.toNat]
      (.unit c.toNat) := by
  intro rest
  cases hrest : pieces rest <;> simp [pieces, hexNumber?_control c.toNat h, hrest]

theorem readsAsPiece_escaped {e : Char} (h : escapedChar? e = some c) :
    ReadsAsPiece ['\\', e] (.char c) := by
  intro rest
  have he : e ≠ 'u' := by rintro rfl; simp [escapedChar?] at h
  cases hrest : pieces rest <;> simp [pieces, h, he, hrest]

theorem readsAsPiece_self (hquote : c ≠ '"') (hbackslash : c ≠ '\\') (hcontrol : ¬ c.toNat < 0x20) :
    ReadsAsPiece [c] (.char c) := by
  intro rest
  cases hrest : pieces rest <;> simp [pieces, hbackslash, hcontrol, hrest]

/-- Every character is written as characters that are read as one piece, which stands for it. -/
theorem exists_piece (c : Char) : ∃ p, ReadsAsPiece (writeChar c) p ∧ p.StandsFor c := by
  unfold writeChar
  split
  -- All but the last case are escapes by letter.
  case h_8 hquote hbackslash _ _ _ _ _ =>
    split
    case isTrue hcontrol => exact ⟨_, readsAsPiece_control hcontrol, standsFor_control hcontrol⟩
    case isFalse hcontrol =>
      exact ⟨_, readsAsPiece_self hquote hbackslash hcontrol, standsFor_char c⟩
  all_goals exact ⟨_, readsAsPiece_escaped rfl, standsFor_char _⟩

/-! ## Literals -/

/-- A written text is read up to its closing quotation mark, and gives the text. -/
theorem exists_pieces (cs rest : List Char) :
    ∃ ps, pieces (cs.flatMap writeChar ++ '"' :: rest) = some (ps, rest) ∧ textOf ps = some cs := by
  induction cs with
  | nil => exact ⟨[], by simp [pieces], rfl⟩
  | cons c cs ih =>
    obtain ⟨p, hread, htext⟩ := exists_piece c
    obtain ⟨ps, hps, hcs⟩ := ih
    refine ⟨p :: ps, ?_, ?_⟩
    · rw [List.flatMap_cons, List.append_assoc, hread, hps]
      rfl
    · rw [htext, hcs]
      rfl

/-- The literal without a text is read as a single unit. -/
theorem pieces_unpaired (rest : List Char) :
    pieces ('\\' :: 'u' :: 'd' :: '8' :: '0' :: '0' :: '"' :: rest) =
      some ([.unit 0xD800], rest) := by
  have hunit : hexNumber? ['d', '8', '0', '0'] = some 0xD800 := by decide
  simp [pieces, hunit]

end PetriAnalysis.Json
