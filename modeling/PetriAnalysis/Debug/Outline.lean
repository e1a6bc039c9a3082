import PetriAnalysis.Text.Quoted

/-!
# Outlines of values

An outline is the shape of a value that is shown to a developer: names, fields, items and
entries. It is laid out on one line, or with every part on a line of its own, indented by four
spaces for each level and followed by a comma.

## Main definitions

* `Outline` — shapes of values.
* `Layout`, `Outline.render` — the two ways to lay them out.
* `Outlined α` — types with an outline.
-/

namespace PetriAnalysis

/-- The shape of a value. -/
inductive Outline where
  /-- A text that is shown as it is. -/
  | atom (text : String)
  /-- A number with the name of its type, which is followed by a comma even on one line. -/
  | numbered (name : String) (number : Nat)
  /-- A name with unnamed parts. -/
  | tuple (name : String) (items : List Outline)
  /-- A name with fields. -/
  | record (name : String) (fields : List (String × Outline))
  /-- A sequence. -/
  | list (items : List Outline)
  /-- A sequence of keys with values. -/
  | map (entries : List (Outline × Outline))

/-- A way to lay out an outline. -/
inductive Layout where
  /-- Everything on one line. -/
  | compact
  /-- A line for each part, at the given level of indentation. -/
  | pretty (depth : Nat)

namespace Layout

/-- The layout of the parts of an outline. -/
def inner : Layout → Layout
  | .compact => .compact
  | .pretty depth => .pretty (depth + 1)

/-- The blanks in front of a line. -/
def indentation (depth : Nat) : String := String.ofList (List.replicate (4 * depth) ' ')

/-- Lays out parts between an opening and a closing text; `pad` stands beside the parts when they
are on one line. Without parts nothing is between the two texts. -/
def group (layout : Layout) (opening pad closing : String) (parts : List String) : String :=
  match layout, parts with
  | _, [] => opening ++ closing
  | .compact, parts => opening ++ pad ++ ", ".intercalate parts ++ pad ++ closing
  | .pretty depth, parts =>
    opening ++ "\n" ++
      String.join (parts.map fun part => indentation (depth + 1) ++ part ++ ",\n") ++
      indentation depth ++ closing

end Layout

mutual

/-- Lays out an outline. -/
def Outline.render (layout : Layout) : Outline → String
  | .atom text => text
  | .numbered name number =>
    match layout with
    | .compact => name ++ "(" ++ toString number ++ ",)"
    | .pretty _ => layout.group (name ++ "(") "" ")" [toString number]
  | .tuple name items => layout.group (name ++ "(") "" ")" (renderItems layout.inner items)
  | .record name fields =>
    layout.group (name ++ " \x7b") " " "\x7d" (renderFields layout.inner fields)
  | .list items => layout.group "[" "" "]" (renderItems layout.inner items)
  | .map entries => layout.group "\x7b" "" "\x7d" (renderEntries layout.inner entries)

/-- Lays out each item. -/
def renderItems (layout : Layout) : List Outline → List String
  | [] => []
  | item :: items => item.render layout :: renderItems layout items

/-- Lays out each field with its name. -/
def renderFields (layout : Layout) : List (String × Outline) → List String
  | [] => []
  | (name, value) :: fields => (name ++ ": " ++ value.render layout) :: renderFields layout fields

/-- Lays out each key with its value. -/
def renderEntries (layout : Layout) : List (Outline × Outline) → List String
  | [] => []
  | (key, value) :: entries =>
    (key.render layout ++ ": " ++ value.render layout) :: renderEntries layout entries

end

/-- A type whose values have an outline. -/
class Outlined (α : Type) where
  outline : α → Outline

export Outlined (outline)

/-- The text of a value for a developer, on one line or spread over lines. -/
def debugText {α : Type} [Outlined α] (pretty : Bool) (a : α) : String :=
  (outline a).render (if pretty then .pretty 0 else .compact)

instance : Outlined Bool where
  outline b := .atom (if b then "true" else "false")

instance : Outlined UInt64 where
  outline w := .atom (toString w.toNat)

instance : Outlined String where
  outline s := .atom (Text.quote s)

instance {α : Type} [Outlined α] : Outlined (Array α) where
  outline as := .list (as.toList.map outline)

end PetriAnalysis
