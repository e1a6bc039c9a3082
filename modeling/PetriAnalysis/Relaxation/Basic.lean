import PetriAnalysis.Decimal.Fixed
import PetriAnalysis.Log
import PetriAnalysis.Relaxation.Build

/-!
# Analyses with a cached relaxation

A `Relaxation` holds a net, a marking, time budgets and a clock. It builds the base program when
it is first asked for and keeps it; later calls answer the kept one without looking at the clock.
A construction that fails keeps nothing, so the next call starts again. Every call that ends
writes exactly one log record.

## Main definitions

* `Relaxation N L C`.
* `Relaxation.baseProgram` — the base program, built or kept.
* `BaseRecord` — what a call reports.
* `Relaxation.elapsedSeconds`, `Relaxation.lpExpired`, `Relaxation.potencyExpired` — the clock.
-/

namespace PetriAnalysis

/-- What a request for the base program reports. -/
inductive BaseRecord where
  /-- The kept program was answered. -/
  | reused
  /-- A program was built. -/
  | built (rows cols : Nat) (seconds : Float)
  /-- No program was built. -/
  | failed (reason : Abort)

namespace BaseRecord

/-- Failures that are the caller's or the backend's are errors; those that may not happen next
time are warnings. -/
def level : BaseRecord → Level
  | .reused => .debug
  | .built .. => .info
  | .failed (.expired ..) => .warn
  | .failed .unallocated => .warn
  | .failed (.markingLength ..) => .error
  | .failed (.rejected _) => .error

/-- The wording of a record. -/
def message : BaseRecord → String
  | .reused => "lp: reusing cached base"
  | .built rows cols seconds =>
    "lp: base built with " ++ toString rows ++ " rows and " ++ toString cols ++ " columns in " ++
      Decimal.fixed 6 seconds ++ "s"
  | .failed (.expired stage done) =>
    "lp: construction timeout during " ++ stage.name ++ " after " ++ toString done ++ " steps"
  | .failed .unallocated => "lp: unable to allocate base problem"
  | .failed (.markingLength expected found) =>
    "lp: marking covers " ++ toString found ++ " places but the net has " ++ toString expected
  | .failed (.rejected error) => "lp: base construction rejected: " ++ error.message

instance : Record BaseRecord where
  level := level
  message := message

end BaseRecord

/-- A net and a marking under analysis. -/
structure Relaxation (N L C : Type) where
  net : N
  marking : List Weight
  /-- The seconds allowed for building (and solving) linear programs. -/
  lpBudget : UInt32
  /-- The seconds allowed for the heuristics that start from linear programs. -/
  potencyBudget : UInt32
  /-- The query under analysis is negated. -/
  negated : Bool
  clock : C
  /-- The base program, once it has been built. -/
  base : Option L
  /-- The number of programs that the backend has been asked for. -/
  allocations : Nat

namespace Relaxation

variable {N L C α : Type}

/-- An analysis that has not built anything yet. -/
def start (net : N) (marking : List Weight) (lpBudget potencyBudget : UInt32) (clock : C) :
    Relaxation N L C :=
  ⟨net, marking, lpBudget, potencyBudget, false, clock, none, 0⟩

/-- Notes whether the query is negated. -/
def setNegated (negated : Bool) : StateM (Relaxation N L C) Unit :=
  modify fun r => { r with negated }

/-- Tells whether the base program has been built. -/
def hasBase (r : Relaxation N L C) : Bool := r.base.isSome

section

variable [Clock C]

/-- The time that has passed. -/
def elapsed : StateM (Relaxation N L C) Duration := fun r =>
  let (d, clock) := (Clock.elapsed : StateM C Duration) r.clock
  (d, { r with clock })

/-- The seconds that have passed, to the microsecond. -/
def elapsedSeconds : StateM (Relaxation N L C) Float := do
  return (← elapsed).toFloat

/-- Tells whether the budget for linear programs has expired. -/
def lpExpired : StateM (Relaxation N L C) Bool := do
  let d ← elapsed
  return decide ((← get).lpBudget.toNat ≤ d.seconds)

/-- Tells whether the budget for the heuristics has expired. -/
def potencyExpired : StateM (Relaxation N L C) Bool := do
  let d ← elapsed
  return decide ((← get).potencyBudget.toNat ≤ d.seconds)

variable [PetriNet N] [LinearProgram L]

/-- Builds the base program, keeps it and answers a copy. -/
def buildBase : Update (Relaxation N L C) (Option L × BaseRecord) := fun r =>
  match (build r.net r.marking r.lpBudget (LinearProgram.create r.allocations) :
      Build C L) r.clock with
  | .ok lp clock =>
    let (seconds, r) := (elapsedSeconds : StateM (Relaxation N L C) Float) { r with clock }
    .ok (some (LinearProgram.copy lp),
        .built (LinearProgram.numRows lp) (LinearProgram.numCols lp) seconds)
      { r with base := some lp, allocations := r.allocations + 1 }
  | .error (.abort reason) clock =>
    .ok (none, .failed reason) { r with clock, allocations := r.allocations + reason.allocations }
  | .error (.fault e) clock => .error e { r with clock, allocations := r.allocations + 1 }

/-- A copy of the base program, if it can be had, and the record of the call. -/
def baseProgram : Update (Relaxation N L C) (Option L × BaseRecord) := fun r =>
  match r.base with
  | some lp => .ok (some (LinearProgram.copy lp), .reused) r
  | none => buildBase r

end

end Relaxation

end PetriAnalysis
