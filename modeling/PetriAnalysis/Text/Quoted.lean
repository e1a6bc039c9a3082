import PetriAnalysis.Text.Unprintable

/-!
# Quoted texts

A quoted text stands between quotation marks. Inside, a quotation mark and a backslash are
preceded by a backslash, the usual control characters have a letter of their own, and any other
unprintable character is written by its code point.

## Main definitions

* `escape` — the written form of one character.
* `quote` — the written form of a text.
-/

namespace PetriAnalysis.Text

/-- The lower-case hexadecimal digits of a number. -/
def hexDigits (n : Nat) : List Char := Nat.toDigits 16 n

/-- A character as it is written inside a quoted text. -/
def escape (c : Char) : List Char :=
  match c with
  | '"' => ['\\', '"']
  | '\\' => ['\\', '\\']
  | '\n' => ['\\', 'n']
  | '\r' => ['\\', 'r']
  | '\t' => ['\\', 't']
  | '\x00' => ['\\', '0']
  | c => if isUnprintable c then ['\\', 'u', '{'] ++ hexDigits c.toNat ++ ['}'] else [c]

/-- A text between quotation marks. -/
def quote (s : String) : String :=
  String.ofList ('"' :: s.toList.flatMap escape ++ ['"'])

end PetriAnalysis.Text
