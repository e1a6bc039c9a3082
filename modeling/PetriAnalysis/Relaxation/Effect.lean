import PetriAnalysis.Net.Observed

/-!
# The effect of a transition

Firing a transition changes the tokens of a place by what it gives minus what it takes. The
effects of a transition on all places come from one pass over its two lists of arcs, which are
in ascending order of places. The pass looks at the heads of both lists, takes the one with the
smaller place, and takes both when they have the same place. It never sorts; unsorted lists give
a column that mentions a place twice.

## Main definitions

* `ArcEntry.consumed` — what an arc takes, as a double.
* `effects` — the merged list of effects.
-/

namespace PetriAnalysis

/-- What an input arc takes from its place. An inhibitor arc takes nothing. -/
def ArcEntry.consumed (arc : ArcEntry) : Float :=
  if arc.inhibitor then 0 else arc.tokens.toFloat

/-- What an output arc gives to its place. -/
def ArcEntry.produced (arc : ArcEntry) : Float := arc.tokens.toFloat

/-- The effects of a transition with the given input and output arcs. In every step the next
input arc is looked at before the next output arc. -/
def effects : Walk ArcEntry → Walk ArcEntry → Walk (PlaceId × Float)
  | .fault e, _ => .fault e
  | .done, .fault e => .fault e
  | .next _ _, .fault e => .fault e
  | .done, .done => .done
  | .next i pre, .done => .next (i.place, 0 - i.consumed) (effects pre .done)
  | .done, .next o post => .next (o.place, o.produced) (effects .done post)
  | .next i pre, .next o post =>
    if i.place < o.place then .next (i.place, 0 - i.consumed) (effects pre (.next o post))
    else if o.place < i.place then .next (o.place, o.produced) (effects (.next i pre) post)
    else .next (i.place, o.produced - i.consumed) (effects pre post)

/-- The effects of a transition of a net. -/
def effectColumn {N : Type} [PetriNet N] (net : N) (t : TransitionId) : Walk (PlaceId × Float) :=
  effects (PetriNet.preset net t) (PetriNet.postset net t)

end PetriAnalysis
