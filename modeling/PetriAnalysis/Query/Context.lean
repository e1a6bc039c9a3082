import PetriAnalysis.Names.Trace
import PetriAnalysis.Net.Observed
import PetriAnalysis.Query.Resolution

/-!
# Contexts in which queries are analysed

An `AnalysisContext` resolves the names of the places and of the transitions of a net, which are
two separate spaces of names, and the names of traces. It also collects the errors of queries.

## Main definitions

* `AnalysisContext`, `AnalysisContext.ofNames`, `AnalysisContext.ofNet`.
* `NameResolver R` — what the analysis of a query needs.
-/

namespace PetriAnalysis

/-- The names of a net and of traces, and the errors so far. -/
structure AnalysisContext where
  placeNames : NameRegistry
  transitionNames : NameRegistry
  /-- The number of places, counting those whose name is taken. -/
  placeCount : Nat
  /-- The number of transitions, counting those whose name is taken. -/
  transitionCount : Nat
  traces : TraceNames
  errors : List QueryError
  deriving DecidableEq

namespace AnalysisContext

/-- The context of a net without places and transitions. -/
def empty : AnalysisContext := ⟨.empty, .empty, 0, 0, .empty, []⟩

/-- The context of the given names, and the warnings about names that occur twice. The name at
position `i` of a sequence resolves to `i`. -/
def ofNames (places transitions : Walk String) :
    Except Fault (AnalysisContext × List DuplicateName) := do
  let placePositions ← NameRegistry.positional places
  let transitionPositions ← NameRegistry.positional transitions
  return (⟨placePositions.registry, transitionPositions.registry, placePositions.count,
    transitionPositions.count, .empty, []⟩, placePositions.warnings ++ transitionPositions.warnings)

/-- The context of a net, and the warnings about names that occur twice. A name is read from the net
when its position is reached. -/
def ofNet {N : Type} [PetriNet N] (net : N) : Except Fault (AnalysisContext × List DuplicateName) :=
  ofNames
    ((Walk.ofList (List.range (PetriNet.numPlaces net))).traverse fun i => do
      PetriNet.placeName net (← Id.ofIndex i))
    ((Walk.ofList (List.range (PetriNet.numTransitions net))).traverse fun i => do
      PetriNet.transitionName net (← Id.ofIndex i))

/-- The names of a kind of element. -/
def namesOf (c : AnalysisContext) : Element → NameRegistry
  | .place => c.placeNames
  | .transition => c.transitionNames

/-- Looks up the name of an element. -/
def resolve (c : AnalysisContext) (name : String) (kind : Element) : Resolution :=
  match (c.namesOf kind).get? name with
  | some index => .found index
  | none => .notFound

/-- The number of the element with this name. -/
def require (c : AnalysisContext) (name : String) (kind : Element) :
    Except QueryError UInt32 :=
  match (c.resolve name kind).index? with
  | some index => .ok index
  | none => .error (.unresolved name kind)

/-- Declares or uses the name of a trace. -/
def resolveTrace (name : String) (create : Bool) :
    Update AnalysisContext (Except QueryError UInt32) :=
  focus traces (fun c traces => { c with traces }) (TraceNames.resolve name create)

/-- Notes an error. -/
def report (error : QueryError) : StateM AnalysisContext ReportedError := fun c =>
  (⟨error⟩, { c with errors := c.errors ++ [error] })

end AnalysisContext

/-- What the analysis of a query needs: names of elements, names of traces and errors. -/
class NameResolver (R : Type) where
  /-- Looks up the name of an element. -/
  resolve : R → String → Element → Resolution
  /-- Declares or uses the name of a trace. -/
  resolveTrace : String → Bool → Update R (Except QueryError UInt32)
  /-- Notes an error. -/
  report : QueryError → StateM R ReportedError
  /-- The errors that were noted, in order. -/
  errors : R → List QueryError
  /-- Tells whether names may stand for several elements. -/
  isColored : R → Bool

instance : NameResolver AnalysisContext where
  resolve := AnalysisContext.resolve
  resolveTrace := AnalysisContext.resolveTrace
  report := AnalysisContext.report
  errors := AnalysisContext.errors
  isColored _ := false

end PetriAnalysis
