import PetriAnalysis.Lp.Problem

/-!
# Backends that run out

A metered program accepts a limited number of changes of its entries and bounds, and refuses
all later ones with a fixed error. Together with a backend that allocates nothing it provides
the failures that a user of `LinearProgram` has to cope with.

## Main definitions

* `Metered L` — a program and the changes it still accepts.
* `Metered.backend` — the instance with a given allowance.
* `unavailable` — the backend that allocates nothing.
-/

namespace PetriAnalysis

/-- A linear program that accepts a limited number of changes; `none` is no limit. -/
structure Metered (L : Type) where
  inner : L
  remaining : Option Nat

namespace Metered

variable {L : Type}

/-- An operation of the inner program that is not counted. -/
def uncounted (act : Update L Nat) : Update (Metered L) Nat :=
  focus inner (fun m inner => { m with inner }) act

/-- A change that is counted. -/
def counted (refusal : LpError) (act : LpUpdate L Unit) : LpUpdate (Metered L) Unit := fun m =>
  if m.remaining = some 0 then .error refusal m
  else
    let remaining := m.remaining.map (· - 1)
    match act m.inner with
    | .ok () inner => .ok () ⟨inner, remaining⟩
    | .error e inner => .error e ⟨inner, remaining⟩

/-- The backend whose programs accept `allowance` changes and refuse later ones. -/
@[reducible] def backend [LinearProgram L] (allowance : Option Nat) (refusal : LpError) :
    LinearProgram (Metered L) where
  create n := (LinearProgram.create n : Option L).map fun inner => ⟨inner, allowance⟩
  copy m := { m with inner := LinearProgram.copy m.inner }
  numRows m := LinearProgram.numRows m.inner
  numCols m := LinearProgram.numCols m.inner
  addRows count := uncounted (LinearProgram.addRows count)
  addCols count := uncounted (LinearProgram.addCols count)
  setColumn col rows values := counted refusal (LinearProgram.setColumn col rows values)
  setRow row cols values := counted refusal (LinearProgram.setRow row cols values)
  setRowBound row b := counted refusal (LinearProgram.setRowBound row b)
  setColBound col b := counted refusal (LinearProgram.setColBound col b)

end Metered

/-- The given backend without its ability to allocate. -/
@[reducible] def unavailable {L : Type} (backend : LinearProgram L) : LinearProgram L :=
  { backend with create _ := none }

end PetriAnalysis
