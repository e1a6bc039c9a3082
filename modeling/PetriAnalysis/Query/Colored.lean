import PetriAnalysis.Query.Context

/-!
# Contexts of coloured nets

Unfolding a coloured net turns each coloured place and each coloured transition into a number of
ordinary ones, its instances. A `ColoredContext` keeps the names of the instances beside an
ordinary context. A coloured name without instances is known all the same, which is different
from a name that does not exist.

## Main definitions

* `ColoredContext`, `ColoredContext.uncolored`, `ColoredContext.colored`.
* `ColoredContext.addPlace`, `ColoredContext.declarePlace` and their counterparts for transitions.
* `ColoredContext.resolvePlace`, `ColoredContext.resolveTransition` — visits to the instances.
-/

namespace PetriAnalysis

/-- An instance of a coloured place. -/
structure PlaceInstance where
  /-- The number of the colour that the place is bound to. -/
  binding : UInt32
  /-- The name of the ordinary place. -/
  concrete : String
  deriving DecidableEq

/-- A context in which names may stand for several elements. -/
structure ColoredContext where
  base : AnalysisContext
  places : NameTable (List PlaceInstance)
  transitions : NameTable (List String)
  isColored : Bool
  deriving DecidableEq

namespace ColoredContext

/-- The context of a net that was not unfolded. -/
def uncolored (base : AnalysisContext) : ColoredContext := ⟨base, .empty, .empty, false⟩

/-- The context of an unfolded net with the given instances. -/
def colored (base : AnalysisContext) (places : NameTable (List PlaceInstance))
    (transitions : NameTable (List String)) : ColoredContext :=
  ⟨base, places, transitions, true⟩

/-- Adds an instance of a coloured place. -/
def addPlace (symbolic : String) (binding : UInt32) (concrete : String) :
    StateM ColoredContext Unit :=
  modify fun c => { c with
    isColored := true
    places := c.places.alter symbolic [] (· ++ [⟨binding, concrete⟩]) }

/-- Adds an instance of a coloured transition. -/
def addTransition (symbolic concrete : String) : StateM ColoredContext Unit :=
  modify fun c => { c with
    isColored := true
    transitions := c.transitions.alter symbolic [] (· ++ [concrete]) }

/-- Makes a coloured place known, without adding an instance. -/
def declarePlace (symbolic : String) : StateM ColoredContext Unit :=
  modify fun c => { c with isColored := true, places := c.places.alter symbolic [] id }

/-- Makes a coloured transition known, without adding an instance. -/
def declareTransition (symbolic : String) : StateM ColoredContext Unit :=
  modify fun c => { c with isColored := true, transitions := c.transitions.alter symbolic [] id }

/-- The instances of a coloured place. -/
def placeInstances (c : ColoredContext) (name : String) : Option (List PlaceInstance) :=
  c.places.get? name

variable {m : Type → Type} [Monad m]

/-- Visits the concrete names of a coloured place in order, and tells whether it is known. -/
def resolvePlace (c : ColoredContext) (name : String) (visit : String → m Unit) : m Bool :=
  match c.places.get? name with
  | some instances => do
    instances.forM fun i => visit i.concrete
    return true
  | none => return false

/-- Visits the concrete names of a coloured transition in order, and tells whether it is known. -/
def resolveTransition (c : ColoredContext) (name : String) (visit : String → m Unit) : m Bool :=
  match c.transitions.get? name with
  | some concretes => do
    concretes.forM visit
    return true
  | none => return false

/-- Replaces the ordinary context. -/
def withBase (c : ColoredContext) (base : AnalysisContext) : ColoredContext := { c with base }

instance : NameResolver ColoredContext where
  resolve c := c.base.resolve
  resolveTrace name create := focus base withBase (AnalysisContext.resolveTrace name create)
  report error := fun c =>
    let (record, base) := AnalysisContext.report error c.base
    (record, c.withBase base)
  errors c := c.base.errors
  isColored := isColored

end ColoredContext

end PetriAnalysis
