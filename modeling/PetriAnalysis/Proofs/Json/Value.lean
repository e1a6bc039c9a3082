import PetriAnalysis.Json.Value
import PetriAnalysis.Proofs.Json.Token

/-!
# Values are read back

The tokens of a value are assembled to the value again, whatever is on the stack and whatever tokens
follow. A number within an array or object is followed by a comma or a closing token, so the tokens
can be told apart when they are written. Together this gives back each value that does not hold a
number as it was spelt.

## Main definitions

* `Value.Plain` — values in which all numbers are natural.
* `Assembles v` — the tokens of a value are assembled to it.
* `Separates v` — the tokens of a value can be told apart.
-/

namespace PetriAnalysis.Json

/-- A value in which no number is kept as it was spelt. -/
inductive Value.Plain : Value → Prop
  | null : Plain .null
  | boolean (b : Bool) : Plain (.boolean b)
  | natural (n : ℕ) : Plain (.natural n)
  | string (text : Option (List Char)) : Plain (.string text)
  | array {items : List Value} : (∀ item ∈ items, Plain item) → Plain (.array items)
  | object {members : List (Option (List Char) × Value)} :
    (∀ m ∈ members, Plain m.2) → Plain (.object members)

/-- The tokens of the value are assembled to it, whatever stands around them. -/
def Assembles (v : Value) : Prop :=
  ∀ frames rest,
    assembleFrom .value frames (v.tokens ++ rest) = assembleFrom (.afterValue v) frames rest

/-- The tokens of the value can be told apart, also from tokens that follow them. -/
def Separates (v : Value) : Prop :=
  ∀ rest, (∀ t ∈ rest.head?, ¬ t.IsNumber) → Separable rest → Separable (v.tokens ++ rest)

/-- Induction over a value, its items and the values of its members. -/
@[elab_as_elim] theorem Value.induction {P : Value → Prop} (null : P .null)
    (boolean : ∀ b, P (.boolean b)) (natural : ∀ n, P (.natural n))
    (decimal : ∀ literal, P (.decimal literal)) (string : ∀ text, P (.string text))
    (array : ∀ items, (∀ item ∈ items, P item) → P (.array items))
    (object : ∀ members, (∀ m ∈ members, P m.2) → P (.object members)) (v : Value) : P v :=
  @Value.rec P (fun items => ∀ item ∈ items, P item) (fun members => ∀ m ∈ members, P m.2)
    (fun m => P m.2) null boolean natural decimal string array object
    (fun _ h => nomatch h) (fun _ _ hitem hitems => List.forall_mem_cons.mpr ⟨hitem, hitems⟩)
    (fun _ h => nomatch h) (fun _ _ hm hmembers => List.forall_mem_cons.mpr ⟨hm, hmembers⟩)
    (fun _ _ h => h) v

variable {v item : Value} {items : List Value} {m : Option (List Char) × Value}
  {members : List (Option (List Char) × Value)} {rest : List Token} {t : Token}

theorem itemTokens_cons_append :
    itemTokens (item :: items) ++ rest = .comma :: (item.tokens ++ (itemTokens items ++ rest)) := by
  rw [itemTokens, List.cons_append, List.cons_append, List.append_assoc]

theorem memberTokens_cons_append :
    memberTokens (m :: members) ++ rest =
      .comma :: .string m.1 :: .colon :: (m.2.tokens ++ (memberTokens members ++ rest)) := by
  simp [memberTokens]

theorem tokens_array_cons_append :
    (Value.array (item :: items)).tokens ++ rest =
      .openBracket :: (item.tokens ++ (itemTokens items ++ rest)) := by
  simp [Value.tokens]

theorem tokens_object_cons_append :
    (Value.object (m :: members)).tokens ++ rest =
      .openBrace :: .string m.1 :: .colon :: (m.2.tokens ++ (memberTokens members ++ rest)) := by
  simp [Value.tokens]

/-! ## Tokens -/

/-- The first item of an array is read like any other value. -/
theorem assembleFrom_firstItem (v : Value) (frames : List Frame) (rest : List Token) :
    assembleFrom .firstItem frames (v.tokens ++ rest) =
      assembleFrom .value frames (v.tokens ++ rest) := by
  cases v with
  | array items => cases items <;> rfl
  | object members => cases members <;> rfl
  | _ => rfl

/-- The items after the first one are assembled up to the end of the array. -/
theorem assembleFrom_itemTokens (h : ∀ item ∈ items, Assembles item) (item : Value)
    (done : List Value) (frames : List Frame) (rest : List Token) :
    assembleFrom (.afterValue item) (.array done :: frames) (itemTokens items ++ rest) =
      assembleFrom (.afterValue (.array (done.reverse ++ item :: items))) frames rest := by
  induction items generalizing item done with
  | nil => simp [itemTokens, assembleFrom, advance]
  | cons next items ih =>
    obtain ⟨hnext, hitems⟩ := List.forall_mem_cons.mp h
    calc assembleFrom (.afterValue item) (.array done :: frames)
          (itemTokens (next :: items) ++ rest)
        = assembleFrom .value (.array (item :: done) :: frames)
            (next.tokens ++ (itemTokens items ++ rest)) := by
          rw [itemTokens_cons_append]
          rfl
      _ = assembleFrom (.afterValue next) (.array (item :: done) :: frames)
            (itemTokens items ++ rest) := hnext _ _
      _ = assembleFrom (.afterValue (.array (done.reverse ++ item :: next :: items))) frames
            rest := by
          rw [ih hitems]
          simp

/-- The members after the first one are assembled up to the end of the object. -/
theorem assembleFrom_memberTokens (h : ∀ m ∈ members, Assembles m.2)
    (before : List (Option (List Char) × Value)) (key : Option (List Char)) (value : Value)
    (frames : List Frame) (rest : List Token) :
    assembleFrom (.afterValue value) (.object before key :: frames) (memberTokens members ++ rest) =
      assembleFrom (.afterValue (.object (before.reverse ++ (key, value) :: members))) frames
        rest := by
  induction members generalizing before key value with
  | nil => simp [memberTokens, assembleFrom, advance]
  | cons m members ih =>
    obtain ⟨hm, hmembers⟩ := List.forall_mem_cons.mp h
    calc assembleFrom (.afterValue value) (.object before key :: frames)
          (memberTokens (m :: members) ++ rest)
        = assembleFrom .value (.object ((key, value) :: before) m.1 :: frames)
            (m.2.tokens ++ (memberTokens members ++ rest)) := by
          rw [memberTokens_cons_append]
          rfl
      _ = assembleFrom (.afterValue m.2) (.object ((key, value) :: before) m.1 :: frames)
            (memberTokens members ++ rest) := hm _ _
      _ = assembleFrom (.afterValue (.object (before.reverse ++ (key, value) :: m :: members)))
            frames rest := by
          rw [ih hmembers]
          simp

theorem assembles (v : Value) : Assembles v := by
  induction v using Value.induction with
  | array items ih =>
    intro frames rest
    cases items with
    | nil => rfl
    | cons item items =>
      obtain ⟨hitem, hitems⟩ := List.forall_mem_cons.mp ih
      calc assembleFrom .value frames ((Value.array (item :: items)).tokens ++ rest)
          = assembleFrom .firstItem (.array [] :: frames)
              (item.tokens ++ (itemTokens items ++ rest)) := by
            rw [tokens_array_cons_append]
            rfl
        _ = assembleFrom (.afterValue item) (.array [] :: frames) (itemTokens items ++ rest) := by
            rw [assembleFrom_firstItem, hitem]
        _ = assembleFrom (.afterValue (.array (item :: items))) frames rest :=
            assembleFrom_itemTokens hitems item [] frames rest
  | object members ih =>
    intro frames rest
    cases members with
    | nil => rfl
    | cons m members =>
      obtain ⟨hm, hmembers⟩ := List.forall_mem_cons.mp ih
      calc assembleFrom .value frames ((Value.object (m :: members)).tokens ++ rest)
          = assembleFrom .value (.object [] m.1 :: frames)
              (m.2.tokens ++ (memberTokens members ++ rest)) := by
            rw [tokens_object_cons_append]
            rfl
        _ = assembleFrom (.afterValue m.2) (.object [] m.1 :: frames)
              (memberTokens members ++ rest) := hm _ _
        _ = assembleFrom (.afterValue (.object (m :: members))) frames rest :=
            assembleFrom_memberTokens hmembers [] m.1 m.2 frames rest
  | _ => exact fun _ _ => rfl

theorem assemble_tokens (v : Value) : assemble v.tokens = some v := by
  have h := assembles v [] []
  rwa [List.append_nil] at h

/-! ## Texts -/

theorem not_isNumber_head?_itemTokens (h : t ∈ (itemTokens items ++ rest).head?) :
    ¬ t.IsNumber := by
  cases items <;> cases h <;> exact id

theorem not_isNumber_head?_memberTokens (h : t ∈ (memberTokens members ++ rest).head?) :
    ¬ t.IsNumber := by
  cases members <;> cases h <;> exact id

theorem separable_itemTokens (h : ∀ item ∈ items, Separates item) (hrest : Separable rest) :
    Separable (itemTokens items ++ rest) := by
  induction items with
  | nil => exact .other id hrest
  | cons item items ih =>
    obtain ⟨hitem, hitems⟩ := List.forall_mem_cons.mp h
    rw [itemTokens_cons_append]
    exact .other id (hitem _ (fun _ => not_isNumber_head?_itemTokens) (ih hitems))

theorem separable_memberTokens (h : ∀ m ∈ members, Separates m.2) (hrest : Separable rest) :
    Separable (memberTokens members ++ rest) := by
  induction members with
  | nil => exact .other id hrest
  | cons m members ih =>
    obtain ⟨hm, hmembers⟩ := List.forall_mem_cons.mp h
    rw [memberTokens_cons_append]
    have hvalue := hm _ (fun _ => not_isNumber_head?_memberTokens) (ih hmembers)
    exact .other id (.other id (.other id hvalue))

theorem Value.Plain.separates (h : v.Plain) : Separates v := by
  intro rest hnext hrest
  induction h generalizing rest with
  | natural n => exact .natural hnext hrest
  | @array items _ ih =>
    -- An item is followed by a comma or by the end of the array, and neither is a number.
    cases items with
    | nil => exact .other id (.other id hrest)
    | cons item items =>
      obtain ⟨hitem, hitems⟩ := List.forall_mem_cons.mp ih
      rw [tokens_array_cons_append]
      exact .other id
        (hitem _ (fun _ => not_isNumber_head?_itemTokens) (separable_itemTokens hitems hrest))
  | @object members _ ih =>
    cases members with
    | nil => exact .other id (.other id hrest)
    | cons m members =>
      obtain ⟨hm, hmembers⟩ := List.forall_mem_cons.mp ih
      rw [tokens_object_cons_append]
      have hvalue := hm _ (fun _ => not_isNumber_head?_memberTokens)
        (separable_memberTokens hmembers hrest)
      exact .other id (.other id (.other id hvalue))
  | _ => exact .other id hrest

/-- A written value is read back. -/
theorem parse_write (h : v.Plain) : parse v.write = some v := by
  have htokens := h.separates [] (fun _ h => nomatch h) .nil
  rw [List.append_nil] at htokens
  rw [parse, Value.write, String.toList_ofList, scan_write htokens]
  exact assemble_tokens v

end PetriAnalysis.Json
