import PetriAnalysis.Debug.Outline
import PetriAnalysis.Net.Basic

/-!
# Outlines of nets

The outline of a net leaves out the inhibitor flags, and that of an arc mentions its inhibitor
flag only when it is set. A marking is shown as a map from places to tokens.
-/

namespace PetriAnalysis

instance {kind : Element} : Outlined (Id kind) where
  outline i := .numbered kind.idName i.index

instance {kind : Element} {α : Type} [Outlined α] : Outlined (Family kind α) where
  outline v := outline v.data

instance : Outlined Marking where
  outline m := .map (m.toList.zipIdx.map fun (tokens, p) =>
    (.numbered Element.place.idName p, outline tokens))

instance : Outlined Place where
  outline p := .record "Place" [("name", outline p.name), ("tokens", outline p.tokens)]

instance : Outlined Transition where
  outline t := .tuple "Transition" [outline t.name]

instance : Outlined ArcEntry where
  outline a := .record "ArcEntry" ([("place", outline a.place), ("tokens", outline a.tokens)] ++
    if a.inhibitor then [("inhibitor", outline true)] else [])

instance {α : Type} [Outlined α] : Outlined (Incidence α) where
  outline m := .record "Incidence" [("rows", outline m.rows), ("cols", outline m.width)]

instance : Outlined Net where
  outline n := .record "Net" [("places", outline n.places),
    ("transitions", outline n.transitions), ("pre", outline n.pre), ("post", outline n.post)]

end PetriAnalysis
