import PetriAnalysis.Walk

/-!
# Identifiers of places and transitions

The places of a net are numbered from zero, and so are its transitions. An identifier carries
its kind in its type, so that a place is never looked up among the transitions.

## Main definitions

* `Element` — the two kinds of node.
* `Id kind`, `PlaceId`, `TransitionId` — 32-bit element numbers.
* `Id.ofIndex` — the identifier of a position, which faults beyond 32 bits.
* `enumerate` — elements paired with their identifiers.
-/

namespace PetriAnalysis

/-- The two kinds of node of a Petri net. -/
inductive Element where
  | place
  | transition
  deriving DecidableEq

namespace Element

/-- The word for the kind. -/
def word : Element → String
  | .place => "place"
  | .transition => "transition"

/-- The letter that stands before a number of this kind. -/
def letter : Element → String
  | .place => "p"
  | .transition => "t"

/-- The name of the identifier type of this kind. -/
def idName : Element → String
  | .place => "PlaceId"
  | .transition => "TransitionId"

end Element

/-- The number of an element of the given kind. -/
structure Id (kind : Element) where
  /-- The number itself. -/
  raw : UInt32
  deriving DecidableEq

/-- The number of a place. -/
abbrev PlaceId := Id .place

/-- The number of a transition. -/
abbrev TransitionId := Id .transition

namespace Id

variable {kind : Element}

/-- The position of the element in the sequences that belong to its kind. -/
def index (i : Id kind) : Nat := i.raw.toNat

/-- The row or column that stands for the element in a linear program. Number 0 is reserved, so
element `i` is at `i + 1`. -/
def lpIndex (i : Id kind) : Nat := i.index + 1

/-- The identifier of position `n`. -/
def ofIndex (n : Nat) : Except Fault (Id kind) :=
  if n < UInt32.size then .ok ⟨UInt32.ofNat n⟩ else .error .idOverflow

instance : LT (Id kind) where
  lt a b := a.raw < b.raw

instance (a b : Id kind) : Decidable (a < b) :=
  inferInstanceAs (Decidable (a.raw < b.raw))

/-- The short text of an identifier, such as `p3`. -/
protected def toString (i : Id kind) : String := kind.letter ++ toString i.index

/-- The text of an identifier within an error message, such as `PlaceId(3,)`. -/
def tagged (i : Id kind) : String := kind.idName ++ "(" ++ toString i.index ++ ",)"

theorem index_lt (i : Id kind) : i.index < UInt32.size := i.raw.toNat_lt

@[ext] theorem ext_index {i j : Id kind} (h : i.index = j.index) : i = j := by
  cases i; cases j
  simpa [index, UInt32.toNat_inj] using h

theorem ofIndex_index (i : Id kind) : ofIndex i.index = .ok i := by
  rw [ofIndex, if_pos i.index_lt]
  simp [index]

theorem index_of_ofIndex {n : Nat} {i : Id kind} (h : ofIndex n = .ok i) : i.index = n := by
  unfold ofIndex at h
  split at h
  · next hn =>
    cases h
    simpa [index] using Nat.mod_eq_of_lt hn
  · cases h

theorem lt_iff_index_lt {i j : Id kind} : i < j ↔ i.index < j.index :=
  UInt32.lt_iff_toNat_lt

end Id

/-- The elements of a list with their identifiers, counted from `n`. -/
def enumerateFrom {kind : Element} {α : Type} (n : Nat) : List α → Walk (Id kind × α)
  | [] => .done
  | a :: as =>
    match Id.ofIndex n with
    | .ok i => .next (i, a) (enumerateFrom (n + 1) as)
    | .error e => .fault e

/-- The elements of an array with their identifiers. -/
def enumerate {kind : Element} {α : Type} (xs : Array α) : Walk (Id kind × α) :=
  enumerateFrom 0 xs.toList

end PetriAnalysis
