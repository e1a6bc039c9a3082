import PetriAnalysis.Net.Json
import PetriAnalysis.Proofs.Json.Codec

/-!
# Nets are read back

All types that make up a net have lawful codecs. Identifiers, families and markings are written as
what they hold, and the others as objects with their fields. So a net is read back from its text,
whatever its names, weights and sizes are. Nothing here asks for a net that is well-formed, since
the reader does not look at the shape of a net either.
-/

namespace PetriAnalysis

open Json

instance {kind : Element} : LawfulCodec (Id kind) where
  plain_encode i := plain_encode i.raw
  decode?_encode i := congrArg (Option.map Id.mk) (decode?_encode i.raw)

instance {kind : Element} {α : Type} [Codec α] [LawfulCodec α] : LawfulCodec (Family kind α) where
  plain_encode v := plain_encode v.data
  decode?_encode v := congrArg (Option.map Family.mk) (decode?_encode v.data)

instance : LawfulCodec Marking where
  plain_encode m := plain_encode m.counts
  decode?_encode m := congrArg (Option.map Marking.mk) (decode?_encode m.counts)

instance : LawfulCodec Place :=
  lawfulCodec_of_fields (fun p => [("name", encode p.name), ("tokens", encode p.tokens)])
    (fun _ => rfl) (fun _ => rfl) (fun _ => rfl) (by simp) (by simp [plain_encode]) (by simp)

instance : LawfulCodec Transition :=
  lawfulCodec_of_fields (fun t => [("name", encode t.name)])
    (fun _ => rfl) (fun _ => rfl) (fun _ => rfl) (by simp) (by simp [plain_encode]) (by simp)

instance : LawfulCodec ArcEntry :=
  lawfulCodec_of_fields
    (fun a => [("place", encode a.place), ("tokens", encode a.tokens),
      ("inhibitor", encode a.inhibitor)])
    (fun _ => rfl) (fun _ => rfl) (fun _ => rfl) (by simp) (by simp [plain_encode]) (by simp)

instance {α : Type} [Codec α] [LawfulCodec α] : LawfulCodec (Incidence α) :=
  lawfulCodec_of_fields (fun m => [("rows", encode m.rows), ("cols", encode m.width)])
    (fun _ => rfl) (fun _ => rfl) (fun _ => rfl) (by simp) (by simp [plain_encode]) (by simp)

instance : LawfulCodec Net :=
  lawfulCodec_of_fields
    (fun n => [("places", encode n.places), ("transitions", encode n.transitions),
      ("pre", encode n.pre), ("post", encode n.post), ("inhibitor", encode n.inhibitor)])
    (fun _ => rfl) (fun _ => rfl) (fun _ => rfl) (by simp) (by simp [plain_encode]) (by simp)

/-- Nets, matrices, markings, families, arcs and identifiers are read back from their texts. The
cells of a matrix and the values of a family may be of any type with a lawful codec. -/
theorem nets_read_back (α : Type) [Codec α] [LawfulCodec α] (kind : Element) :
    ReadsBack Net ∧ ReadsBack (Incidence α) ∧ ReadsBack Marking ∧ ReadsBack (Family kind α) ∧
      ReadsBack ArcEntry ∧ ReadsBack (Id kind) :=
  ⟨readsBack Net, readsBack (Incidence α), readsBack Marking, readsBack (Family kind α),
    readsBack ArcEntry, readsBack (Id kind)⟩

/-- A net with a place whose name needs every kind of escape, with the largest weights, and with
matrices that fit neither the net nor one another. -/
def ragged : Net where
  places := ⟨#[⟨"say \"hi\" \\ \n\x01 é 😀", 0xFFFFFFFFFFFFFFFF⟩]⟩
  transitions := ⟨#[]⟩
  pre := ⟨⟨#[#[0xFFFFFFFFFFFFFFFF], #[]]⟩, 0xFFFFFFFFFFFFFFFF⟩
  post := ⟨⟨#[]⟩, 0⟩
  inhibitor := ⟨⟨#[#[true, false]]⟩, 7⟩

theorem nets_read_back_ragged :
    ofText? (toText ragged) = some ragged ∧ ofText? (toText ragged.pre) = some ragged.pre ∧
      ofText? (toText ragged.places) = some ragged.places ∧
      (ofText? "[3, 5, true]" : Option ArcEntry) = some (ArcEntry.inhibiting ⟨3⟩ 5) ∧
      ((ofText? "[3, 5, true]" : Option ArcEntry).bind fun a => ofText? (toText a)) =
        some (ArcEntry.inhibiting ⟨3⟩ 5) := by
  have hweights := nets_read_back Weight .place
  have hplaces := nets_read_back Place .place
  have hread : (ofText? "[3, 5, true]" : Option ArcEntry) = some (ArcEntry.inhibiting ⟨3⟩ 5) := by
    decide +kernel
  exact ⟨hweights.1.read_written ragged, hweights.2.1.read_written ragged.pre,
    hplaces.2.2.2.1.read_written ragged.places, hread,
    (hweights.2.2.2.2.1.reread "[3, 5, true]").trans hread⟩

end PetriAnalysis
