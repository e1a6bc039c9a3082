import Mathlib.Data.List.Basic
import PetriAnalysis.Json.Codec
import PetriAnalysis.Proofs.Json.Value

/-!
# Values with a JSON form are read back

A codec is lawful if it writes only natural numbers and decodes what it has encoded. The codecs of
lists and arrays are lawful if the codec of their items is. The fields of a structure are found
again in its object, since no two fields have one name.

## Main definitions

* `LawfulCodec α` — what is encoded is decoded again.
* `ReadsBack α` — what is written is read again, and so is what has been read.
* `members fields` — the members of the object of a structure.
-/

namespace PetriAnalysis.Json

/-- A codec that writes no number but natural ones, and decodes what it has encoded. -/
class LawfulCodec (α : Type) [Codec α] : Prop where
  plain_encode : ∀ a : α, (encode a).Plain
  decode?_encode : ∀ a : α, decode? (encode a) = some a

export LawfulCodec (plain_encode decode?_encode)

attribute [simp] LawfulCodec.decode?_encode

/-- A written value is read back. A text that is read as a value is read as the same value once it
has been written anew, and a text that is not read gives nothing to write. -/
structure ReadsBack (α : Type) [Codec α] : Prop where
  read_written : ∀ a : α, ofText? (toText a) = some a
  reread : ∀ s, ((ofText? s : Option α).bind fun a => ofText? (toText a)) = (ofText? s : Option α)

/-- A walk succeeds if each of its steps does. -/
theorem mapM_eq_some_map {α β : Type} {f : α → Option β} {g : α → β} {as : List α}
    (h : ∀ a ∈ as, f a = some (g a)) : as.mapM f = some (as.map g) := by
  induction as with
  | nil => rfl
  | cons a as ih =>
    obtain ⟨ha, has⟩ := List.forall_mem_cons.mp h
    rw [List.mapM_cons, ha, ih has]
    rfl

/-! ## Words, texts and lists -/

instance : LawfulCodec Bool where
  plain_encode := .boolean
  decode?_encode _ := rfl

instance : LawfulCodec String where
  plain_encode s := .string (some s.toList)
  decode?_encode s := by simp [encode, decode?]

instance : LawfulCodec UInt32 where
  plain_encode w := .natural w.toNat
  decode?_encode w := by simp [encode, decode?, w.toNat_lt]

instance : LawfulCodec UInt64 where
  plain_encode w := .natural w.toNat
  decode?_encode w := by simp [encode, decode?, w.toNat_lt]

section

variable {α : Type} [Codec α] [LawfulCodec α]

instance : LawfulCodec (List α) where
  plain_encode as := .array (List.forall_mem_map.mpr fun a _ => plain_encode a)
  decode?_encode as := by
    show (as.map encode).mapM decode? = some as
    rw [List.mapM_map]
    exact (mapM_eq_some_map fun a _ => decode?_encode a).trans (congrArg some (List.map_id as))

instance : LawfulCodec (Array α) where
  plain_encode as := plain_encode as.toList
  decode?_encode as := congrArg (Option.map List.toArray) (decode?_encode as.toList)

/-- A lawful codec reads back what it has written. -/
theorem ofText?_toText (a : α) : ofText? (toText a) = some a := by
  rw [ofText?, toText, parse_write (plain_encode a)]
  exact decode?_encode a

theorem readsBack (α : Type) [Codec α] [LawfulCodec α] : ReadsBack α where
  read_written := ofText?_toText
  reread s := by simp [ofText?_toText]

end

/-! ## Structures -/

/-- The fields of a structure, as members of its object. -/
def members (fields : List (String × Value)) : List (Option (List Char) × Value) :=
  fields.map fun field => member field.1 field.2

variable {fields : List (String × Value)} {name : String} {value : Value}

/-- No other field has the name of a field. -/
theorem filter_fst_eq (h : (fields.map Prod.fst).Nodup) (hfield : (name, value) ∈ fields) :
    fields.filter (fun field => field.1 = name) = [(name, value)] := by
  induction fields with
  | nil => exact nomatch hfield
  | cons field fields ih =>
    obtain ⟨hnew, hnodup⟩ := List.nodup_cons.mp h
    rcases List.mem_cons.mp hfield with rfl | hlater
    · have hnone : fields.filter (fun field => field.1 = name) = [] := by
        refine List.filter_eq_nil_iff.mpr fun field hmem hname => hnew ?_
        exact List.mem_map.mpr ⟨field, hmem, of_decide_eq_true hname⟩
      rw [List.filter_cons_of_pos (by simp), hnone]
    · have hname : field.1 ≠ name := by
        rintro rfl
        exact hnew (List.mem_map.mpr ⟨_, hlater, rfl⟩)
      rw [List.filter_cons_of_neg (by simpa using hname), ih hnodup hlater]

/-- A field is found if no other field has its name. -/
theorem field?_of_mem (h : (fields.map Prod.fst).Nodup) (hfield : (name, value) ∈ fields) :
    field? (fields.map fun field => (field.1.toList, field.2)) name = some value := by
  have hfilter : (fields.map fun field => (field.1.toList, field.2)).filter
      (fun m => m.1 = name.toList) = [(name.toList, value)] := by
    simp only [List.filter_map, Function.comp_def, String.toList_inj, filter_fst_eq h hfield,
      List.map_cons, List.map_nil]
  rw [field?, hfilter]

/-- The fields of a structure are found in their order. -/
theorem record?_object (fields : List (String × Value)) (h : (fields.map Prod.fst).Nodup) :
    record? (fields.map Prod.fst) (.object (members fields)) = some (fields.map Prod.snd) := by
  have hkeys : ((members fields).mapM fun m => m.1.map fun key => (key, m.2)) =
      some (fields.map fun field => (field.1.toList, field.2)) := by
    rw [members, List.mapM_map]
    exact mapM_eq_some_map fun _ _ => rfl
  have hfields : (fields.map Prod.fst).mapM
      (field? (fields.map fun field => (field.1.toList, field.2))) =
        some (fields.map Prod.snd) := by
    rw [List.mapM_map]
    exact mapM_eq_some_map fun _ hfield => field?_of_mem h hfield
  rw [record?, hkeys]
  exact hfields

/-- A codec of a structure is lawful if the codecs of its fields are. -/
theorem lawfulCodec_of_fields {α : Type} [Codec α] {names : List String}
    {read : List Value → Option α} (fields : α → List (String × Value))
    (hencode : ∀ a, encode a = .object (members (fields a)))
    (hdecode : ∀ v, decode? v = record? names v >>= read)
    (hnames : ∀ a, (fields a).map Prod.fst = names) (hnodup : names.Nodup)
    (hplain : ∀ a, ∀ field ∈ fields a, field.2.Plain)
    (hread : ∀ a, read ((fields a).map Prod.snd) = some a) : LawfulCodec α where
  plain_encode a := by
    rw [hencode]
    exact .object (List.forall_mem_map.mpr (hplain a))
  decode?_encode a := by
    have hfields := record?_object (fields a) (hnames a ▸ hnodup)
    rw [hnames] at hfields
    calc decode? (encode a) = record? names (.object (members (fields a))) >>= read := by
          rw [hdecode, hencode]
      _ = read ((fields a).map Prod.snd) := by rw [hfields]; rfl
      _ = some a := hread a

end PetriAnalysis.Json
