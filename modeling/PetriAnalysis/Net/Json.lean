import PetriAnalysis.Json.Codec
import PetriAnalysis.Net.Basic

/-!
# JSON forms of nets

Identifiers are written as numbers, families and markings as arrays, and all else as objects
with the names of the fields. Reading a net does not look at its shape: the matrices may be of
any size.
-/

namespace PetriAnalysis

open Json

instance {kind : Element} : Codec (Id kind) where
  encode i := encode i.raw
  decode? v := (decode? v).map Id.mk

instance {kind : Element} {α : Type} [Codec α] : Codec (Family kind α) where
  encode v := encode v.data
  decode? v := (decode? v).map Family.mk

instance : Codec Marking where
  encode m := encode m.counts
  decode? v := (decode? v).map Marking.mk

instance : Codec Place where
  encode p := .object [member "name" (encode p.name), member "tokens" (encode p.tokens)]
  decode? v := do
    match ← record? ["name", "tokens"] v with
    | [name, tokens] => return ⟨← decode? name, ← decode? tokens⟩
    | _ => none

instance : Codec Transition where
  encode t := .object [member "name" (encode t.name)]
  decode? v := do
    match ← record? ["name"] v with
    | [name] => return ⟨← decode? name⟩
    | _ => none

instance : Codec ArcEntry where
  encode a := .object [member "place" (encode a.place), member "tokens" (encode a.tokens),
    member "inhibitor" (encode a.inhibitor)]
  decode? v := do
    match ← record? ["place", "tokens", "inhibitor"] v with
    | [place, tokens, inhibitor] => return ⟨← decode? place, ← decode? tokens, ← decode? inhibitor⟩
    | _ => none

instance {α : Type} [Codec α] : Codec (Incidence α) where
  encode m := .object [member "rows" (encode m.rows), member "cols" (encode m.width)]
  decode? v := do
    match ← record? ["rows", "cols"] v with
    | [rows, cols] => return ⟨← decode? rows, ← decode? cols⟩
    | _ => none

instance : Codec Net where
  encode n := .object [member "places" (encode n.places),
    member "transitions" (encode n.transitions), member "pre" (encode n.pre),
    member "post" (encode n.post), member "inhibitor" (encode n.inhibitor)]
  decode? v := do
    match ← record? ["places", "transitions", "pre", "post", "inhibitor"] v with
    | [places, transitions, pre, post, inhibitor] =>
      return ⟨← decode? places, ← decode? transitions, ← decode? pre, ← decode? post,
        ← decode? inhibitor⟩
    | _ => none

end PetriAnalysis
