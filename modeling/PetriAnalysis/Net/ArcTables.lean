import PetriAnalysis.Net.Observed

/-!
# Nets given by tables of arcs

The arcs of each transition are written out as lists, and so are the weights of single arcs.
Nothing relates the two, nor are the lists sorted; an analysis that depends on the promises of
`PetriNet` can be tried against tables that break them.

## Main definitions

* `ArcTables` and its instance of `PetriNet`.
-/

namespace PetriAnalysis

/-- A weight for one pair of a place and a transition. -/
structure ArcWeight where
  place : PlaceId
  transition : TransitionId
  weight : Weight

/-- A net without names whose observations are written out. -/
structure ArcTables where
  /-- The number of places. -/
  places : Nat
  /-- The arcs into each transition. -/
  pre : Array (List ArcEntry)
  /-- The arcs out of each transition. -/
  post : Array (List ArcEntry)
  /-- The weights of arcs out of transitions. -/
  outWeights : List ArcWeight
  /-- The weights of arcs into transitions. -/
  inWeights : List ArcWeight

namespace ArcTables

/-- The first weight given for a pair, or zero. -/
def lookup (table : List ArcWeight) (p : PlaceId) (t : TransitionId) : Weight :=
  match table.find? fun entry => entry.place = p ∧ entry.transition = t with
  | some entry => entry.weight
  | none => 0

/-- The list at position `t`, as a walk. -/
def arcsOf (table : Array (List ArcEntry)) (t : TransitionId) : Walk ArcEntry :=
  match fetch table t.index with
  | .ok arcs => .ofList arcs
  | .error e => .fault e

instance : PetriNet ArcTables where
  numPlaces := ArcTables.places
  numTransitions n := n.pre.size
  preset n := arcsOf n.pre
  postset n := arcsOf n.post
  outWeight n t p := .ok (lookup n.outWeights p t)
  inWeight n p t := .ok (lookup n.inWeights p t)
  placeName _ p := .ok p.toString
  transitionName _ t := .ok t.toString

end ArcTables

end PetriAnalysis
