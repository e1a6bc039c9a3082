import PetriAnalysis.Incidence
import PetriAnalysis.Marking

/-!
# Place/transition nets with inhibitor arcs

A `Net` has named places with initial tokens, named transitions, and three incidence matrices:
what a transition takes from a place (`pre`), what it gives to it (`post`), and whether the
entry of `pre` is an inhibitor threshold instead of a number of tokens taken. An inhibitor arc
forbids its transition while the place holds at least the threshold, and moves no tokens.

A cell of `pre` is shared by the ordinary and the inhibitor arc: an inhibitor arc replaces an
ordinary one, and an ordinary arc put over an inhibitor arc counts from zero and not from the
threshold.

## Main definitions

* `Place`, `Transition`, `ArcEntry`, `Net`.
* `Net.addPlace`, `Net.addTransition` — new elements.
* `Net.addInputArc`, `Net.addOutputArc`, `Net.addInhibitorArc` — arcs that accumulate.
* `Net.setInputWeight`, `Net.setOutputWeight` — arcs that replace.
-/

namespace PetriAnalysis

/-- A place and the tokens it starts with. -/
structure Place where
  name : String
  tokens : Weight
  deriving DecidableEq

/-- A transition. -/
structure Transition where
  name : String
  deriving DecidableEq

/-- An arc between a transition and a place. The tokens of an inhibitor arc are its threshold. -/
structure ArcEntry where
  place : PlaceId
  tokens : Weight
  inhibitor : Bool
  deriving DecidableEq

namespace ArcEntry

/-- The arc that moves `tokens` tokens. -/
def ordinary (place : PlaceId) (tokens : Weight) : ArcEntry := ⟨place, tokens, false⟩

/-- The inhibitor arc with the given threshold. -/
def inhibiting (place : PlaceId) (threshold : Weight) : ArcEntry := ⟨place, threshold, true⟩

end ArcEntry

/-- A net given by its incidence matrices. -/
@[ext] structure Net where
  places : Family .place Place
  transitions : Family .transition Transition
  /-- The weights of the arcs into each transition, or the thresholds of its inhibitor arcs. -/
  pre : Incidence Weight
  /-- The weights of the arcs out of each transition. -/
  post : Incidence Weight
  /-- Tells where `pre` holds a threshold. -/
  inhibitor : Incidence Bool
  deriving DecidableEq

namespace Net

/-- The net without places and transitions. -/
def empty : Net where
  places := .empty
  transitions := .empty
  pre := .filled 0 0 0
  post := .filled 0 0 0
  inhibitor := .filled 0 0 false

variable {α : Type}

/-- An update of the places. -/
def onPlaces : Update (Family .place Place) α → Update Net α :=
  focus Net.places fun n places => { n with places }

/-- An update of the transitions. -/
def onTransitions : Update (Family .transition Transition) α → Update Net α :=
  focus Net.transitions fun n transitions => { n with transitions }

/-- An update of the input weights. -/
def onPre : Update (Incidence Weight) α → Update Net α :=
  focus Net.pre fun n pre => { n with pre }

/-- An update of the output weights. -/
def onPost : Update (Incidence Weight) α → Update Net α :=
  focus Net.post fun n post => { n with post }

/-- An update of the inhibitor flags. -/
def onInhibitor : Update (Incidence Bool) α → Update Net α :=
  focus Net.inhibitor fun n inhibitor => { n with inhibitor }

/-- Adds a place without arcs. -/
def addPlace (place : Place) : Update Net PlaceId := do
  let p ← onPlaces (Family.push place)
  let _ ← onPre (Incidence.pushPlace 0)
  let _ ← onPost (Incidence.pushPlace 0)
  let _ ← onInhibitor (Incidence.pushPlace false)
  return p

/-- Adds a transition without arcs. -/
def addTransition (transition : Transition) : Update Net TransitionId := do
  let t ← onTransitions (Family.push transition)
  let _ ← onPre (Incidence.pushTransition 0)
  let _ ← onPost (Incidence.pushTransition 0)
  let _ ← onInhibitor (Incidence.pushTransition false)
  return t

/-- Writes the cell of `pre`. -/
def writePre (p : PlaceId) (t : TransitionId) (w : Weight) : Update Net Unit :=
  onPre (Update.whole fun m => m.set p t w)

/-- Writes the cell of `post`. -/
def writePost (p : PlaceId) (t : TransitionId) (w : Weight) : Update Net Unit :=
  onPost (Update.whole fun m => m.set p t w)

/-- Writes the inhibitor flag. -/
def writeInhibitor (p : PlaceId) (t : TransitionId) (flag : Bool) : Update Net Unit :=
  onInhibitor (Update.whole fun m => m.set p t flag)

/-- Tells whether the arc from `p` to `t` is an inhibitor arc. -/
def isInhibitor (n : Net) (p : PlaceId) (t : TransitionId) : Except Fault Bool :=
  n.inhibitor.get p t

/-- Makes the arc from `p` to `t` an ordinary one of weight `w`. -/
def setInputWeight (p : PlaceId) (t : TransitionId) (w : Weight) : Update Net Unit := do
  writePre p t w
  writeInhibitor p t false

/-- Gives the arc from `t` to `p` the weight `w`. -/
def setOutputWeight (p : PlaceId) (t : TransitionId) (w : Weight) : Update Net Unit :=
  writePost p t w

/-- Adds `w` to a sum of weights. -/
def increase (w : Weight) (before : Weight) : Except Fault Weight :=
  match Weight.add? before w with
  | some sum => .ok sum
  | none => .error .sumOverflow

/-- Adds `w` to the ordinary arc from `p` to `t`. An inhibitor arc there becomes an ordinary one,
whose weight counts from zero. A weight of zero changes nothing. -/
def addInputArc (p : PlaceId) (t : TransitionId) (w : Weight) : Update Net Unit := do
  unless w = 0 do
    let replaces ← Update.inspect (isInhibitor · p t)
    writeInhibitor p t false
    let before ← Update.inspect fun n => n.pre.get p t
    let sum ← Update.lift (increase w (if replaces then 0 else before))
    writePre p t sum

/-- Adds `w` to the arc from `t` to `p`. A weight of zero changes nothing. -/
def addOutputArc (p : PlaceId) (t : TransitionId) (w : Weight) : Update Net Unit := do
  unless w = 0 do
    let before ← Update.inspect fun n => n.post.get p t
    let sum ← Update.lift (increase w before)
    writePost p t sum

/-- Forbids `t` while `p` holds at least `threshold` tokens, in place of the arc from `p` to `t`
if there is one. A threshold of zero changes nothing. -/
def addInhibitorArc (p : PlaceId) (t : TransitionId) (threshold : Weight) : Update Net Unit := do
  unless threshold = 0 do
    writePre p t threshold
    writeInhibitor p t true

/-- The number of places. -/
def numPlaces (n : Net) : Nat := n.places.size

/-- The number of transitions. -/
def numTransitions (n : Net) : Nat := n.transitions.size

/-- The tokens that the places start with. -/
def initialMarking (n : Net) : Marking := ⟨n.places.map Place.tokens⟩

end Net

end PetriAnalysis
