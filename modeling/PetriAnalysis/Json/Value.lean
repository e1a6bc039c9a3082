import PetriAnalysis.Json.Token

/-!
# JSON values

A value is written as a list of tokens and read back from it. The reader keeps the arrays and
objects that it is inside of on a stack, so nesting of any depth is read.

## Main definitions

* `Value` — the values of JSON.
* `Value.tokens` — a value as tokens.
* `assemble` — reads tokens as a value.
* `Value.write`, `parse` — the same for texts.
-/

namespace PetriAnalysis.Json

/-- A value. A string literal without a text is kept as such, also as the key of a member. -/
inductive Value where
  | null
  | boolean (b : Bool)
  | natural (n : Nat)
  | decimal (literal : List Char)
  | string (text : Option (List Char))
  | array (items : List Value)
  | object (members : List (Option (List Char) × Value))

mutual

/-- The tokens of a value. -/
def Value.tokens : Value → List Token
  | .null => [.null]
  | .boolean b => [.boolean b]
  | .natural n => [.natural n]
  | .decimal literal => [.decimal literal]
  | .string text => [.string text]
  | .array [] => [.openBracket, .closeBracket]
  | .array (item :: items) => .openBracket :: item.tokens ++ itemTokens items
  | .object [] => [.openBrace, .closeBrace]
  | .object ((key, value) :: members) =>
    .openBrace :: .string key :: .colon :: value.tokens ++ memberTokens members

/-- The tokens of the items after the first one, up to the end of the array. -/
def itemTokens : List Value → List Token
  | [] => [.closeBracket]
  | item :: items => .comma :: item.tokens ++ itemTokens items

/-- The tokens of the members after the first one, up to the end of the object. -/
def memberTokens : List (Option (List Char) × Value) → List Token
  | [] => [.closeBrace]
  | (key, value) :: members =>
    .comma :: .string key :: .colon :: value.tokens ++ memberTokens members

end

/-- An array or object that is being read, with what it holds so far, the last item first. -/
inductive Frame where
  | array (items : List Value)
  | object (members : List (Option (List Char) × Value)) (key : Option (List Char))

/-- What the reader expects next. -/
inductive Expected where
  /-- A value. -/
  | value
  /-- A value or the end of the array. -/
  | firstItem
  /-- A key or the end of the object. -/
  | firstKey (members : List (Option (List Char) × Value))
  /-- A key. -/
  | key (members : List (Option (List Char) × Value))
  /-- A colon after the key of a member. -/
  | colon (members : List (Option (List Char) × Value)) (key : Option (List Char))
  /-- What follows a value that is complete. -/
  | afterValue (value : Value)

/-- The next expectation and stack when a value begins with the given token. -/
def beginValue (frames : List Frame) : Token → Option (Expected × List Frame)
  | .null => some (.afterValue .null, frames)
  | .boolean b => some (.afterValue (.boolean b), frames)
  | .natural n => some (.afterValue (.natural n), frames)
  | .decimal literal => some (.afterValue (.decimal literal), frames)
  | .string text => some (.afterValue (.string text), frames)
  | .openBracket => some (.firstItem, .array [] :: frames)
  | .openBrace => some (.firstKey [], frames)
  | _ => none

/-- The next expectation and stack after one token. -/
def advance (expected : Expected) (frames : List Frame) (t : Token) :
    Option (Expected × List Frame) :=
  match expected with
  | .value => beginValue frames t
  | .firstItem =>
    match t, frames with
    | .closeBracket, .array items :: frames => some (.afterValue (.array items.reverse), frames)
    | t, frames => beginValue frames t
  | .firstKey members =>
    match t with
    | .closeBrace => some (.afterValue (.object members.reverse), frames)
    | .string key => some (.colon members key, frames)
    | _ => none
  | .key members =>
    match t with
    | .string key => some (.colon members key, frames)
    | _ => none
  | .colon members key =>
    match t with
    | .colon => some (.value, .object members key :: frames)
    | _ => none
  | .afterValue value =>
    match t, frames with
    | .comma, .array items :: frames => some (.value, .array (value :: items) :: frames)
    | .closeBracket, .array items :: frames =>
      some (.afterValue (.array (value :: items).reverse), frames)
    | .comma, .object members key :: frames => some (.key ((key, value) :: members), frames)
    | .closeBrace, .object members key :: frames =>
      some (.afterValue (.object ((key, value) :: members).reverse), frames)
    | _, _ => none

/-- Reads tokens from a given expectation and stack. -/
def assembleFrom (expected : Expected) (frames : List Frame) : List Token → Option Value
  | [] =>
    match expected, frames with
    | .afterValue value, [] => some value
    | _, _ => none
  | t :: ts =>
    match advance expected frames t with
    | some (expected, frames) => assembleFrom expected frames ts
    | none => none

/-- Reads tokens as one value. -/
def assemble (ts : List Token) : Option Value := assembleFrom .value [] ts

/-- The written form of a value. -/
def Value.write (v : Value) : String := String.ofList (v.tokens.flatMap Token.write)

/-- Reads a text as one value. -/
def parse (s : String) : Option Value := (scan s.toList).bind assemble

end PetriAnalysis.Json
