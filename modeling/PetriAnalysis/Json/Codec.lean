import PetriAnalysis.Json.Value

/-!
# Values with a JSON form

A type with a `Codec` is written as a JSON value and read back from one. A structure is written
as an object with a member for each field. It is read from an object that has each field exactly
once, whatever else it has, or from an array of exactly the fields in their order.

## Main definitions

* `Codec α`, with instances for booleans, words, texts and lists.
* `record?` — the fields of a structure.
* `toText`, `ofText?` — the written form of a value of any such type.
-/

namespace PetriAnalysis.Json

/-- A type whose values have a JSON form. -/
class Codec (α : Type) where
  encode : α → Value
  decode? : Value → Option α

export Codec (encode decode?)

/-- The JSON text of a value. -/
def toText {α : Type} [Codec α] (a : α) : String := (encode a).write

/-- Reads a JSON text. -/
def ofText? {α : Type} [Codec α] (s : String) : Option α := (parse s).bind decode?

instance : Codec Bool where
  encode b := .boolean b
  decode?
    | .boolean b => some b
    | _ => none

instance : Codec String where
  encode s := .string (some s.toList)
  decode?
    | .string text => text.map String.ofList
    | _ => none

instance : Codec UInt32 where
  encode w := .natural w.toNat
  decode?
    | .natural n => if n < UInt32.size then some (UInt32.ofNat n) else none
    | _ => none

instance : Codec UInt64 where
  encode w := .natural w.toNat
  decode?
    | .natural n => if n < UInt64.size then some (UInt64.ofNat n) else none
    | _ => none

instance {α : Type} [Codec α] : Codec (List α) where
  encode as := .array (as.map encode)
  decode?
    | .array items => items.mapM decode?
    | _ => none

instance {α : Type} [Codec α] : Codec (Array α) where
  encode as := encode as.toList
  decode? v := ((decode? v : Option (List α))).map List.toArray

/-- The member of an object with the given key and value. -/
def member (key : String) (value : Value) : Option (List Char) × Value := (some key.toList, value)

/-- The value of a field that occurs exactly once. -/
def field? (members : List (List Char × Value)) (name : String) : Option Value :=
  match members.filter fun m => m.1 = name.toList with
  | [m] => some m.2
  | _ => none

/-- The values of the fields of a structure. Every key of an object has to have a text. -/
def record? (names : List String) : Value → Option (List Value)
  | .array items => if items.length = names.length then some items else none
  | .object members => do
    let members ← members.mapM fun m => m.1.map fun key => (key, m.2)
    names.mapM (field? members)
  | _ => none

end PetriAnalysis.Json
