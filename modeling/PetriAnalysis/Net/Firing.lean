import PetriAnalysis.Net.Observed

/-!
# Firing

A transition is enabled when each of its input places holds the tokens that the arc takes, and
each of its inhibitor places holds fewer tokens than the threshold. Firing it takes the tokens
of the ordinary arcs and then gives those of the output arcs.

## Main definitions

* `FireError`, `FireError.message` — why a transition does not fire.
* `Net.isEnabled`, `Net.enabledTransitions`.
* `Net.fire` — the marking after a firing.
-/

namespace PetriAnalysis

/-- The reasons for which a transition does not fire. -/
inductive FireError where
  /-- The net has no such transition. -/
  | outOfRange (transition : TransitionId)
  /-- Tokens are missing, or an inhibitor place has too many. -/
  | notEnabled (transition : TransitionId)
  /-- The place would hold more tokens than the largest weight. -/
  | overflow (transition : TransitionId) (place : PlaceId)
  deriving DecidableEq

/-- The wording of a refusal to fire. -/
def FireError.message : FireError → String
  | .outOfRange t => "transition " ++ t.tagged ++ " is out of bounds"
  | .notEnabled t => "transition " ++ t.tagged ++ " is not enabled under the supplied marking"
  | .overflow t p =>
    "token count overflow at place " ++ p.tagged ++ " while firing " ++ t.tagged

namespace ArcEntry

/-- Tells whether an arc lets its transition fire. -/
def admits (arc : ArcEntry) (tokens : Weight) : Bool :=
  if arc.inhibitor then tokens < arc.tokens else arc.tokens ≤ tokens

end ArcEntry

namespace Net

/-- Tells whether a transition is enabled. The arcs are tested in order of places, and the first
one that does not admit the transition settles the answer. -/
def isEnabled (n : Net) (m : Marking) (t : TransitionId) : Except Fault Bool :=
  if t.index < n.numTransitions then
    (n.preset t).allM fun arc => do return arc.admits (← m.tokens arc.place)
  else
    .ok false

/-- The enabled transitions, in ascending order. -/
def enabledTransitions (n : Net) (m : Marking) : Except Fault (List TransitionId) := do
  let tested ← (n.transitions.indices.traverse fun t => do
    return (t, ← n.isEnabled m t)).toExcept
  return (tested.filter Prod.snd).map Prod.fst

/-- A firing: it faults, is refused, or answers. -/
abbrev Firing := ExceptT FireError (Except Fault)

/-- Takes the tokens of an input arc. -/
def takeAlong (t : TransitionId) (m : Marking) (arc : ArcEntry) : Firing Marking := do
  match ← m.take arc.place arc.tokens with
  | some m' => return m'
  | none => throw (.notEnabled t)

/-- Gives the tokens of an output arc. -/
def giveAlong (t : TransitionId) (m : Marking) (arc : ArcEntry) : Firing Marking := do
  match ← m.give arc.place arc.tokens with
  | some m' => return m'
  | none => throw (.overflow t arc.place)

/-- The marking after firing `t`. -/
def fire (n : Net) (m : Marking) (t : TransitionId) : Firing Marking := do
  unless t.index < n.numTransitions do throw (.outOfRange t)
  unless ← n.isEnabled m t do throw (.notEnabled t)
  let taken ← ((n.preset t).filter fun arc => !arc.inhibitor).foldlM (takeAlong t) m
  (n.postset t).foldlM (giveAlong t) taken

end Net

end PetriAnalysis
