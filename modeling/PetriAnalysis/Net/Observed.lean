import PetriAnalysis.Net.Basic

/-!
# What an analysis sees of a net

An analysis needs the numbers of places and transitions, the arcs of a transition, single arc
weights and names. A representation that provides them is a `PetriNet`. The arcs of a transition
are expected in ascending order of places, each place once; no analysis relies on it silently.

## Main definitions

* `PetriNet N` — the observations.
* the instance for `Net`, which reads them off the matrices.
-/

namespace PetriAnalysis

/-- A representation of a Petri net. -/
class PetriNet (N : Type) where
  /-- The number of places. -/
  numPlaces : N → Nat
  /-- The number of transitions. -/
  numTransitions : N → Nat
  /-- The arcs into a transition, inhibitor arcs included, in ascending order of places. -/
  preset : N → TransitionId → Walk ArcEntry
  /-- The arcs out of a transition, in ascending order of places. -/
  postset : N → TransitionId → Walk ArcEntry
  /-- What a transition gives to a place. -/
  outWeight : N → TransitionId → PlaceId → Except Fault Weight
  /-- What a transition takes from a place. An inhibitor arc takes nothing. -/
  inWeight : N → PlaceId → TransitionId → Except Fault Weight
  /-- The name of a place. -/
  placeName : N → PlaceId → Except Fault String
  /-- The name of a transition. -/
  transitionName : N → TransitionId → Except Fault String

namespace Net

/-- The arcs into a transition: the positive entries of its column of `pre`. -/
def preset (n : Net) (t : TransitionId) : Walk ArcEntry :=
  ((n.pre.columns n.inhibitor t).filter fun (_, weight, _) => 0 < weight).map
    fun (place, weight, inhibitor) => ⟨place, weight, inhibitor⟩

/-- The arcs out of a transition: the positive entries of its column of `post`. -/
def postset (n : Net) (t : TransitionId) : Walk ArcEntry :=
  ((n.post.column t).filter fun cell => 0 < cell.2).map fun cell => .ordinary cell.1 cell.2

/-- What `t` gives to `p`. -/
def outWeight (n : Net) (t : TransitionId) (p : PlaceId) : Except Fault Weight :=
  n.post.get p t

/-- What `t` takes from `p`. -/
def inWeight (n : Net) (p : PlaceId) (t : TransitionId) : Except Fault Weight := do
  if ← n.isInhibitor p t then return 0 else n.pre.get p t

/-- The name of a place. -/
def placeName (n : Net) (p : PlaceId) : Except Fault String :=
  (n.places.get p).map Place.name

/-- The name of a transition. -/
def transitionName (n : Net) (t : TransitionId) : Except Fault String :=
  (n.transitions.get t).map Transition.name

instance : PetriNet Net where
  numPlaces := Net.numPlaces
  numTransitions := Net.numTransitions
  preset := Net.preset
  postset := Net.postset
  outWeight := Net.outWeight
  inWeight := Net.inWeight
  placeName := Net.placeName
  transitionName := Net.transitionName

end Net

end PetriAnalysis
