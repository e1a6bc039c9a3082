import PetriAnalysis.Clock
import PetriAnalysis.Lp.Problem
import PetriAnalysis.Relaxation.Effect

/-!
# Building the state-equation relaxation

A marking that is reached from `M` satisfies `M + C x ≥ 0`, where `x` counts the firings of each
transition and `C` holds the effects. The base program states this over non-negative doubles.
Its row and column 0 are reserved; with `P` places and `T` transitions it has

* a column `t + 1` for each transition `t`, with its effects in the rows `p + 1`;
* a row `p + 1` for each place `p`, bounded below by `-M[p]`;
* a row `P + 1 + p` for each place `p`, bounded below by zero, which holds the effects once more,
  computed from single arc weights.

The time budget is looked at before anything else and after every column and every row. The
budget has expired when as many whole seconds have passed as it allows.

## Main definitions

* `Stage`, `Abort`, `BuildError` — why there is no base program.
* `begun`, `fillColumn`, `boundStateRow`, `fillEffectRow` — the steps, which read no clock.
* `Build.pace` — steps with a look at the budget after each of them.
* `build` — the base program of a net and a marking.
-/

namespace PetriAnalysis

/-- The parts of the construction. -/
inductive Stage where
  | setup
  | columns
  | stateRows
  | effectRows
  deriving DecidableEq

/-- The name of a stage. -/
def Stage.name : Stage → String
  | .setup => "setup"
  | .columns => "columns"
  | .stateRows => "state equation rows"
  | .effectRows => "effect rows"

/-- The reasons for which a construction is given up. -/
inductive Abort where
  /-- The budget has expired after some steps of a stage. -/
  | expired (stage : Stage) (done : Nat)
  /-- The backend allocates no program. -/
  | unallocated
  /-- The marking does not cover the places of the net. -/
  | markingLength (expected found : Nat)
  /-- The backend refuses a change. -/
  | rejected (error : LpError)

/-- The number of programs that the backend has been asked for when a construction is given up. The
budget is looked at before that, and so is the length of the marking. -/
def Abort.allocations : Abort → Nat
  | .expired .setup _ => 0
  | .markingLength .. => 0
  | .expired .. | .unallocated | .rejected _ => 1

/-- How a construction ends without a program. -/
inductive BuildError where
  | fault (e : Fault)
  | abort (reason : Abort)

/-- A construction that reads a clock. -/
abbrev Build (C α : Type) := EStateM BuildError C α

namespace Build

variable {C L α : Type}

/-- Passes an outcome on. -/
def ofExcept (r : Except BuildError α) : Build C α :=
  match r with
  | .ok a => pure a
  | .error e => throw e

/-- The time that has passed. -/
def elapsed [Clock C] : Build C Duration := fun c =>
  let (d, c') := (Clock.elapsed : StateM C Duration) c
  .ok d c'

/-- Gives up if the budget has expired. -/
def checkpoint [Clock C] (budget : UInt32) (stage : Stage) (done : Nat) : Build C Unit := do
  let d ← elapsed
  if budget.toNat ≤ d.seconds then throw (.abort (.expired stage done))

/-- Takes a step for each element of a list, and looks at the budget after each of them; `done`
steps of the stage have been taken before. -/
def pace [Clock C] (budget : UInt32) (stage : Stage) (step : L → α → Except BuildError L) :
    Nat → L → List α → Build C L
  | _, lp, [] => pure lp
  | done, lp, a :: as => do
    let lp ← ofExcept (step lp a)
    checkpoint budget stage (done + 1)
    pace budget stage step (done + 1) lp as

end Build

section

variable {L α : Type}

/-- Passes a fault on. -/
def observed (r : Except Fault α) : Except BuildError α := r.mapError .fault

theorem observed_eq_ok_iff {x : Except Fault α} {a : α} : observed x = .ok a ↔ x = .ok a := by
  cases x with
  | ok b => exact ⟨fun h => congrArg Except.ok (Except.ok.inj h),
      fun h => congrArg Except.ok (Except.ok.inj h)⟩
  | error e => exact ⟨nofun, nofun⟩

theorem observed_ne_abort {x : Except Fault α} {reason : Abort} :
    observed x ≠ .error (.abort reason) := by
  cases x with
  | ok a => exact nofun
  | error e => exact fun h => nomatch Except.error.inj h

/-- Changes a program, which the backend may refuse. -/
def changed (lp : L) (act : LpUpdate L Unit) : Except BuildError L :=
  match act lp with
  | .ok () lp' => .ok lp'
  | .error e _ => .error (.abort (.rejected e))

theorem changed_eq_ok_iff {lp lp' : L} {act : LpUpdate L Unit} :
    changed lp act = .ok lp' ↔ act lp = .ok () lp' := by
  rw [changed]
  split <;> simp_all

/-- Appends to a program, and passes a fault on. The answer is the number of the first row or column
that is new. -/
def appended (lp : L) (act : Update L Nat) : Except BuildError (Nat × L) :=
  match act lp with
  | .ok first lp' => .ok (first, lp')
  | .error e _ => .error (.fault e)

theorem appended_eq_ok_iff {lp lp' : L} {act : Update L Nat} {first : Nat} :
    appended lp act = .ok (first, lp') ↔ act lp = .ok first lp' := by
  rw [appended]
  split <;> simp_all

theorem appended_ne_abort {lp : L} {act : Update L Nat} {reason : Abort} :
    appended lp act ≠ .error (.abort reason) := by
  rw [appended]
  split <;> simp

end

section

variable {N L C : Type} [PetriNet N] [LinearProgram L] [Clock C]

/-- A program with the columns and rows that the first two stages fill. -/
def blank (places transitions : Nat) (lp : L) : Except BuildError L := do
  let cols ← observed (sizeSum transitions 1)
  let (_, lp) ← appended lp (LinearProgram.addCols cols)
  let rows ← observed (sizeSum places 1)
  let (_, lp) ← appended lp (LinearProgram.addRows rows)
  return lp

/-- The program that the stages start from, if the marking covers the places and a program is
allocated. -/
def begun (net : N) (marking : List Weight) (allocated : Option L) : Except BuildError L :=
  let places := PetriNet.numPlaces net
  if marking.length = places then
    match allocated with
    | none => .error (.abort .unallocated)
    | some lp => blank places (PetriNet.numTransitions net) lp
  else
    .error (.abort (.markingLength places marking.length))

/-- Fills the column of a transition. -/
def fillColumn (net : N) (lp : L) (t : Nat) : Except BuildError L := do
  let transition ← observed (Id.ofIndex t)
  let effects ← observed (effectColumn net transition).toExcept
  changed lp (LinearProgram.setColumn transition.lpIndex
    (effects.map fun e => e.1.lpIndex) (effects.map Prod.snd))

/-- Bounds the row of a place that has `tokens` tokens. -/
def boundStateRow (lp : L) : Weight × Nat → Except BuildError L
  | (tokens, p) => do
    let place : PlaceId ← observed (Id.ofIndex p)
    changed lp (LinearProgram.setRowBound place.lpIndex (.lower (0 - tokens.toFloat)))

/-- The entry of a transition in the second row of a place. It is left out when the transition
gives to the place what it takes from it. -/
def netEffect? (net : N) (p : PlaceId) (t : Nat) : Except Fault (Option (Nat × Float)) := do
  let transition ← Id.ofIndex t
  let out ← PetriNet.outWeight net transition p
  let into ← PetriNet.inWeight net p transition
  return if out = into then none else some (transition.lpIndex, out.toFloat - into.toFloat)

/-- Fills and bounds the second row of a place; the rows of this kind begin at `first`. -/
def fillEffectRow (net : N) (first : Nat) (lp : L) (p : Nat) : Except BuildError L := do
  let place ← observed (Id.ofIndex p)
  let entries ← observed
    ((List.range (PetriNet.numTransitions net)).mapM (netEffect? net place))
  let entries := entries.filterMap id
  let row ← observed (sizeSum first p)
  let lp ← changed lp (LinearProgram.setRow row (entries.map Prod.fst) (entries.map Prod.snd))
  changed lp (LinearProgram.setRowBound row (.lower 0))

/-- Builds the base program; `allocated` is what the backend answers when it is asked for a program
to build on. -/
def build (net : N) (marking : List Weight) (budget : UInt32) (allocated : Option L) :
    Build C L := do
  Build.checkpoint budget .setup 0
  let lp ← Build.ofExcept (begun net marking allocated)
  let lp ← Build.pace budget .columns (fillColumn net) 0 lp
    (List.range (PetriNet.numTransitions net))
  let lp ← Build.pace budget .stateRows boundStateRow 0 lp marking.zipIdx
  let (first, lp) ← Build.ofExcept
    (appended lp (LinearProgram.addRows (PetriNet.numPlaces net)))
  Build.pace budget .effectRows (fillEffectRow net first) 0 lp
    (List.range (PetriNet.numPlaces net))

end

end PetriAnalysis
