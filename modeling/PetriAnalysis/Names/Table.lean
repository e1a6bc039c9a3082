/-!
# Tables of names

A `NameTable β` maps names to values and remembers the order in which the names came in. A name
keeps its position when its value changes.

## Main definitions

* `NameTable β`, `NameTable.empty`.
* `NameTable.get?`, `NameTable.contains`, `NameTable.names` — readers.
* `NameTable.add?` — binds a name that is absent.
* `NameTable.alter` — binds or rebinds a name.
-/

namespace PetriAnalysis

/-- Values by name, in the order in which the names came in. -/
structure NameTable (β : Type) where
  entries : List (String × β)
  deriving DecidableEq

namespace NameTable

variable {β : Type}

/-- The table without names. -/
def empty : NameTable β := ⟨[]⟩

/-- The number of names. -/
def size (t : NameTable β) : Nat := t.entries.length

/-- Tells whether there is no name. -/
def isEmpty (t : NameTable β) : Bool := t.entries.isEmpty

/-- The names, in the order in which they came in. -/
def names (t : NameTable β) : List String := t.entries.map Prod.fst

/-- The value of a name. -/
def get? (t : NameTable β) (name : String) : Option β := t.entries.lookup name

/-- Tells whether a name is bound. -/
def contains (t : NameTable β) (name : String) : Bool := (t.get? name).isSome

/-- Binds a name that is absent; a name that is present is not bound again. -/
def add? (t : NameTable β) (name : String) (b : β) : Option (NameTable β) :=
  if t.contains name then none else some ⟨t.entries ++ [(name, b)]⟩

/-- Changes the value of a name. An absent name comes in with `b` as the value to change. -/
def alter (t : NameTable β) (name : String) (b : β) (change : β → β) : NameTable β :=
  if t.contains name then
    ⟨t.entries.map fun entry => if entry.1 = name then (name, change entry.2) else entry⟩
  else
    ⟨t.entries ++ [(name, change b)]⟩

/-- The table of a list of bindings, in which a later binding of a name replaces an earlier one
and leaves the name where it is. -/
def ofList (bindings : List (String × β)) : NameTable β :=
  bindings.foldl (fun t (name, b) => t.alter name b fun _ => b) empty

end NameTable

end PetriAnalysis
