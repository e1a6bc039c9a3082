import PetriAnalysis.Names.Registry
import PetriAnalysis.Query.Error

/-!
# Names of traces

A query may declare a name for a trace and then use it as the beginning of a path. A declaration
needs a name that is new, and a use needs one that was declared. A call that fails leaves the
table as it was, so a rejected query leaves nothing to the next one. A declaration faults if the
table has no number left.

## Main definitions

* `TraceNames`, `TraceNames.resolve`.
-/

namespace PetriAnalysis

/-- The declared names of traces, numbered in the order of their declarations. -/
structure TraceNames where
  registry : NameRegistry
  deriving DecidableEq

namespace TraceNames

/-- No name is declared. -/
def empty : TraceNames := ⟨.empty⟩

/-- The number of a trace. -/
def get? (t : TraceNames) (name : String) : Option UInt32 := t.registry.get? name

/-- The number of declared names. -/
def size (t : TraceNames) : Nat := t.registry.size

/-- Tells whether no name is declared. -/
def isEmpty (t : TraceNames) : Bool := t.registry.isEmpty

/-- The declared names and their numbers, in the order of their declarations. -/
def entries (t : TraceNames) : List (String × UInt32) := t.registry.entries

/-- Declares a name (`create`) or uses a declared one, and answers its number. -/
def resolve (name : String) (create : Bool) :
    Update TraceNames (Except QueryError UInt32) := fun t =>
  if create then
    match NameRegistry.insertNew name t.registry with
    | .ok (some index) registry => .ok (.ok index) ⟨registry⟩
    | .ok none registry => .ok (.error (.duplicateTrace name)) ⟨registry⟩
    | .error e registry => .error e ⟨registry⟩
  else
    match t.get? name with
    | some index => .ok (.ok index) t
    | none => .ok (.error (.undeclaredTrace name)) t

end TraceNames

end PetriAnalysis
