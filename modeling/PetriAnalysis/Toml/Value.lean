/-!
# Values of TOML

The members of a table come from assignments and headers all over a document. Where a table
comes from decides what may be added to it later, so a table remembers its origin.

## Main definitions

* `Origin`, `Value`, `Members`.
* `within` — changes a table at the end of a path.
* `assign` — gives a member a value.
* `openTable`, `openElement` — what the two kinds of header do.
-/

namespace PetriAnalysis.Toml

/-- How a table came to be. -/
inductive Origin where
  /-- It was written out in braces. -/
  | inline
  /-- It has a header of its own, or it is the whole document. -/
  | explicit
  /-- It is mentioned in the header of a table below it. -/
  | implied
  /-- It is mentioned in the path of an assignment. -/
  | dotted
  deriving DecidableEq

/-- A value. Of numbers that are not integers, dates and times only the spelling is kept. -/
inductive Value where
  | string (text : List Char)
  | integer (n : Int)
  | float (literal : List Char)
  | boolean (b : Bool)
  | dateTime (literal : List Char)
  | array (items : List Value)
  | table (origin : Origin) (members : List (List Char × Value))
  /-- An array whose elements are tables with headers of their own. -/
  | tables (elements : List (List (List Char × Value)))

/-- The members of a table, in the order in which they were mentioned. -/
abbrev Members := List (List Char × Value)

/-- Gives a member that exists another value. -/
def replaceMember (key : List Char) (value : Value) (members : Members) : Members :=
  members.map fun m => if m.1 = key then (key, value) else m

/-- Changes the table at the end of a path, which leads through tables of admitted origins and
through the last elements of arrays of tables. A table that is missing comes into being. -/
def within (admits : Origin → Bool) (fresh : Origin)
    (act : Origin → Members → Option (Origin × Members)) :
    List (List Char) → Origin → Members → Option (Origin × Members)
  | [], origin, members => act origin members
  | key :: path, origin, members =>
    match members.lookup key with
    | none => do
      let (o, ms) ← within admits fresh act path fresh []
      return (origin, members ++ [(key, .table o ms)])
    | some (.table o ms) =>
      if admits o then do
        let (o, ms) ← within admits fresh act path o ms
        return (origin, replaceMember key (.table o ms) members)
      else none
    | some (.tables elements) =>
      match elements.getLast? with
      | some last => do
        let (_, last) ← within admits fresh act path .explicit last
        return (origin, replaceMember key (.tables (elements.dropLast ++ [last])) members)
      | none => none
    | some _ => none

/-- Changes the table that a header names. -/
def withinHeader : (Origin → Members → Option (Origin × Members)) → List (List Char) → Origin →
    Members → Option (Origin × Members) :=
  within (· ≠ .inline) .implied

/-- Gives the member at the end of a path a value. It must be new, and the tables on the path
must not have headers of their own. -/
def assign (path : List (List Char)) (key : List Char) (value : Value) :
    Origin → Members → Option (Origin × Members) :=
  within (fun o => o = .implied || o = .dotted) .dotted
    (fun o members =>
      if (path ≠ [] ∧ o ≠ .dotted) ∨ (members.lookup key).isSome then none
      else some (o, members ++ [(key, value)])) path

/-- Begins the table at the end of a path. It must be new, or only be mentioned in headers. -/
def openTable (path : List (List Char)) (key : List Char) : Origin → Members →
    Option (Origin × Members) :=
  withinHeader (fun o members =>
    match members.lookup key with
    | none => some (o, members ++ [(key, .table .explicit [])])
    | some (.table .implied ms) => some (o, replaceMember key (.table .explicit ms) members)
    | some _ => none) path

/-- Begins another element of the array of tables at the end of a path. -/
def openElement (path : List (List Char)) (key : List Char) : Origin → Members →
    Option (Origin × Members) :=
  withinHeader (fun o members =>
    match members.lookup key with
    | none => some (o, members ++ [(key, .tables [[]])])
    | some (.tables elements) => some (o, replaceMember key (.tables (elements ++ [[]])) members)
    | some _ => none) path

end PetriAnalysis.Toml
