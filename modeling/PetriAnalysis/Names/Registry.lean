import PetriAnalysis.Log
import PetriAnalysis.Names.Table
import PetriAnalysis.Text.Quoted
import PetriAnalysis.Walk

/-!
# Registries of names

A registry gives names an index of 32 bits. The index of a place or a transition is its position in
the net and is given from outside; other names take the number of names that are already there. The
largest number of 32 bits is not used as an index: a position that is so large faults, and so does
an operation on a registry of so many names that may bring in another one.

## Main definitions

* `NameRegistry` and its readers.
* `NameRegistry.assign`, `NameRegistry.register`, `NameRegistry.insertNew` — ways to bind a name.
* `NameRegistry.positional`, `NameRegistry.collect` — the registries of a list of names.
* `Positions` — what `positional` answers.
* `DuplicateName` — the warning about a name that a net uses twice.
-/

namespace PetriAnalysis

/-- A warning: the name at this position has occurred before. -/
structure DuplicateName where
  name : String
  position : Nat
  deriving DecidableEq

/-- The wording of the warning. -/
def DuplicateName.message (d : DuplicateName) : String :=
  "duplicate name " ++ Text.quote d.name ++ " at index " ++ toString d.position ++
    ", keeping the first one"

instance : Record DuplicateName where
  level _ := .warn
  message := DuplicateName.message

/-- Names with their indices. -/
structure NameRegistry where
  table : NameTable UInt32
  deriving DecidableEq

/-- The names of a sequence, numbered by position. -/
structure Positions where
  registry : NameRegistry
  /-- The number of positions. -/
  count : Nat
  /-- The warnings about names that occur again, in order. -/
  warnings : List DuplicateName
  deriving DecidableEq

namespace NameRegistry

/-- The registry without names. -/
def empty : NameRegistry := ⟨.empty⟩

/-- The index of a name. -/
def get? (r : NameRegistry) (name : String) : Option UInt32 := r.table.get? name

/-- Tells whether a name has an index. -/
def contains (r : NameRegistry) (name : String) : Bool := r.table.contains name

/-- The number of names. -/
def size (r : NameRegistry) : Nat := r.table.size

/-- Tells whether there is no name. -/
def isEmpty (r : NameRegistry) : Bool := r.table.isEmpty

/-- The names and their indices, in the order in which they came in. -/
def entries (r : NameRegistry) : List (String × UInt32) := r.table.entries

/-- Gives an absent name the given index, and tells whether it was absent. -/
def assign (name : String) (index : UInt32) : StateM NameRegistry Bool := fun r =>
  match r.table.add? name index with
  | some table => (true, ⟨table⟩)
  | none => (false, r)

/-- The index for the next name that comes in, which is the number of names. -/
def nextIndex (r : NameRegistry) : Except Fault UInt32 :=
  if r.size < UInt32.size - 1 then .ok (UInt32.ofNat r.size) else .error .registryFull

/-- The index of a name; an absent one is given the next index. There has to be a next index even if
the name is present. -/
def register (name : String) : Update NameRegistry UInt32 := fun r =>
  match r.nextIndex with
  | .error e => .error e r
  | .ok next =>
    match r.get? name with
    | some index => .ok index r
    | none => .ok next (assign name next r).2

/-- Gives an absent name the next index. A name that is present is left alone, and there is no
answer, but there has to be a next index. -/
def insertNew (name : String) : Update NameRegistry (Option UInt32) := fun r =>
  match r.nextIndex with
  | .error e => .error e r
  | .ok next =>
    match assign name next r with
    | (true, r') => .ok (some next) r'
    | (false, r') => .ok none r'

/-- One step of `positional`: the name at the next position. -/
def assignPosition (found : Positions) (name : String) : Except Fault Positions :=
  if found.count < UInt32.size - 1 then
    match assign name (UInt32.ofNat found.count) found.registry with
    | (true, registry) => .ok { found with registry, count := found.count + 1 }
    | (false, registry) => .ok ⟨registry, found.count + 1, found.warnings ++ [⟨name, found.count⟩]⟩
  else .error .positionOverflow

/-- The registry that gives each name its position in the sequence. A name that occurs again keeps
its first position, and there is a warning; later positions are not affected. -/
def positional (names : Walk String) : Except Fault Positions :=
  names.foldlM assignPosition ⟨empty, 0, []⟩

/-- The registry that gives each name the number of names before its first occurrence. -/
def collect (names : List String) : Except Fault NameRegistry :=
  names.foldlM (fun r name => (register name).left r) empty

end NameRegistry

end PetriAnalysis
