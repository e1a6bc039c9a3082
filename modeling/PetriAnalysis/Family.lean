import PetriAnalysis.Id

/-!
# Families of values

A `Family kind α` has one value for each place, or for each transition, in the order of their
numbers. It can be read only with an identifier of its own kind.

## Main definitions

* `Family kind α` — the values, as an array.
* `Family.push` — appends a value and answers its identifier.
* `Family.get?`, `Family.get`, `Family.set` — access by identifier.
* `Family.indices`, `Family.entries` — walks through the identifiers.
* `Family.zip` — two families side by side.
-/

namespace PetriAnalysis

/-- One value for each element of a kind. -/
@[ext] structure Family (kind : Element) (α : Type) where
  /-- The values, in the order of the element numbers. -/
  data : Array α
  deriving DecidableEq

namespace Family

variable {kind : Element} {α β : Type}

/-- The family without elements. -/
def empty : Family kind α := ⟨#[]⟩

/-- The family with the values of a list. -/
def ofList (xs : List α) : Family kind α := ⟨xs.toArray⟩

/-- The values as a list. -/
def toList (v : Family kind α) : List α := v.data.toList

/-- The number of elements. -/
def size (v : Family kind α) : Nat := v.data.size

/-- Tells whether there is no element. -/
def isEmpty (v : Family kind α) : Bool := v.data.isEmpty

/-- Appends a value and answers its identifier. The value is there even if the identifiers of
this kind are used up. -/
def push (x : α) : Update (Family kind α) (Id kind) := fun v =>
  match Id.ofIndex v.size with
  | .ok i => .ok i ⟨v.data.push x⟩
  | .error e => .error e ⟨v.data.push x⟩

/-- The identifiers, in order. -/
def indices (v : Family kind α) : Walk (Id kind) :=
  (enumerate v.data).map Prod.fst

/-- The identifiers with their values, in order. -/
def entries (v : Family kind α) : Walk (Id kind × α) :=
  enumerate v.data

/-- The value of an element, if there is such an element. -/
def get? (v : Family kind α) (i : Id kind) : Option α := v.data[i.index]?

/-- The value of an element. -/
def get (v : Family kind α) (i : Id kind) : Except Fault α := fetch v.data i.index

/-- The family with another value for one element. -/
def set (v : Family kind α) (i : Id kind) (x : α) : Except Fault (Family kind α) :=
  (store v.data i.index x).map Family.mk

/-- The family with `f` applied to every value. -/
def map (f : α → β) (v : Family kind α) : Family kind β := ⟨v.data.map f⟩

/-- The pairs of values of the elements that both families have. -/
def zip (v : Family kind α) (w : Family kind β) : Family kind (α × β) := ⟨v.data.zip w.data⟩

@[simp] theorem size_map (f : α → β) (v : Family kind α) : (v.map f).size = v.size := by
  simp [map, size]

@[simp] theorem size_zip (v : Family kind α) (w : Family kind β) :
    (v.zip w).size = min v.size w.size := by
  simp [zip, size]

end Family

end PetriAnalysis
