/-!
# Results of resolving a name

A resolution tells whether the name of an element was found and its offset among the elements of
its kind. The offset is an integer, because a name that was not found has the offset `-1`.

## Main definitions

* `Resolution`, `Resolution.found`, `Resolution.notFound`, `Resolution.index?`.
-/

namespace PetriAnalysis

/-- The result of looking up the name of an element. -/
structure Resolution where
  success : Bool
  offset : Int
  deriving DecidableEq

namespace Resolution

/-- The name was not found. -/
def notFound : Resolution := ⟨false, -1⟩

/-- The name belongs to the element with this number. -/
def found (index : UInt32) : Resolution := ⟨true, index.toNat⟩

/-- The number of the element: the offset of a success, if it is a 32-bit number. -/
def index? (r : Resolution) : Option UInt32 :=
  if r.success ∧ 0 ≤ r.offset ∧ r.offset < UInt32.size then some (UInt32.ofNat r.offset.toNat)
  else none

@[simp] theorem index?_notFound : notFound.index? = none := rfl

@[simp] theorem index?_found (i : UInt32) : (found i).index? = some i := by
  have hi : (i.toNat : Int) < 4294967296 := Int.ofNat_lt.mpr i.toNat_lt
  simp only [index?, found, Int.toNat_natCast, UInt32.ofNat_toNat]
  exact if_pos ⟨trivial, Int.natCast_nonneg _, hi⟩

end Resolution

end PetriAnalysis
