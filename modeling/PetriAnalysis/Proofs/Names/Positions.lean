import Mathlib.Data.List.Induction
import PetriAnalysis.Names.Registry
import PetriAnalysis.Proofs.Fold
import PetriAnalysis.Proofs.Names.Table

/-!
# Registries of positions

The registry of a list of names is made by going through the list with the position in hand. A name
is bound where it occurs first, whatever is repeated before or after it, and each repetition leads
to one warning. A list that is too long for 32 bits faults.

## Main definitions

* `NameRegistry.numbers`, `NameRegistry.number?` — indices read as natural numbers.
* `firstOccurrences names` — the names with the positions where they occur first.
* `repetitions names` — the warnings that a list of names calls for.
* `Positions.Of names found` — the positions of the names of a list.
-/

namespace PetriAnalysis

/-- The names with the positions where they occur first, in order. -/
def firstOccurrences (names : List String) : List (String × ℕ) :=
  names.zipIdx.filter fun named => named.1 ∉ names.take named.2

/-- The positions of names that have occurred before, in order. -/
def repetitions (names : List String) : List DuplicateName :=
  (names.zipIdx.filter fun named => named.1 ∈ names.take named.2).map
    fun named => ⟨named.1, named.2⟩

theorem idxOf?_concat (names : List String) (last name : String) :
    (names ++ [last]).idxOf? name =
      (names.idxOf? name).or (if name = last then some names.length else none) := by
  change (names ++ [last]).findIdx? (· == name) = (names.findIdx? (· == name)).or _
  rw [List.findIdx?_append]
  by_cases h : name = last
  · simp [h]
  · simp [h, Ne.symm h]

/-- What is selected by looking at a name and at the names before it stays selected when the list
grows. -/
theorem filter_zipIdx_concat (select : List String → String → Bool) (names : List String)
    (last : String) :
    ((names ++ [last]).zipIdx.filter fun named =>
        select ((names ++ [last]).take named.2) named.1) =
      (names.zipIdx.filter fun named => select (names.take named.2) named.1) ++
        if select names last then [(last, names.length)] else [] := by
  -- Up to a position within `names`, the longer list has the same elements.
  have htake : names.zipIdx.filter (fun named =>
        select ((names ++ [last]).take named.2) named.1) =
      names.zipIdx.filter fun named => select (names.take named.2) named.1 := by
    refine List.filter_congr ?_
    intro named hnamed
    have hlt := (List.getElem?_eq_some_iff.mp (List.mem_zipIdx_iff_getElem?.mp hnamed)).1
    rw [List.take_append_of_le_length (Nat.le_of_lt hlt)]
  rw [List.zipIdx_append, List.filter_append, htake]
  by_cases h : select names last = true <;> simp [h]

theorem repetitions_concat (names : List String) (last : String) :
    repetitions (names ++ [last]) =
      repetitions names ++ if last ∈ names then [⟨last, names.length⟩] else [] := by
  have h := filter_zipIdx_concat (fun before name => name ∈ before) names last
  rw [repetitions, h, List.map_append, repetitions]
  by_cases hlast : last ∈ names <;> simp [hlast]

theorem firstOccurrences_concat (names : List String) (last : String) :
    firstOccurrences (names ++ [last]) =
      firstOccurrences names ++ if last ∈ names then [] else [(last, names.length)] := by
  have h := filter_zipIdx_concat (fun before name => name ∉ before) names last
  rw [firstOccurrences, h, firstOccurrences]
  by_cases hlast : last ∈ names <;> simp [hlast]

theorem lookup_firstOccurrences (names : List String) (name : String) :
    (firstOccurrences names).lookup name = names.idxOf? name := by
  induction names using List.reverseRecOn with
  | nil => rfl
  | append_singleton names last ih =>
    rw [firstOccurrences_concat, List.lookup_append, ih, idxOf?_concat]
    by_cases hlast : last ∈ names
    · by_cases hname : name = last
      · obtain ⟨i, hi⟩ := Option.ne_none_iff_exists'.mp
          (mt List.idxOf?_eq_none_iff.mp (not_not.mpr hlast))
        simp [hname, hi]
      · simp [hlast, hname]
    · rw [if_neg hlast, NameTable.lookup_cons_ite, List.lookup_nil]

namespace NameRegistry

variable {r : NameRegistry} {name : String} {index : UInt32}

/-- The names with their indices as natural numbers. -/
def numbers (r : NameRegistry) : List (String × ℕ) := r.entries.map fun e => (e.1, e.2.toNat)

/-- The index of a name as a natural number. -/
def number? (r : NameRegistry) (name : String) : Option ℕ := (r.get? name).map UInt32.toNat

theorem number?_eq_lookup (r : NameRegistry) (name : String) :
    r.number? name = r.numbers.lookup name :=
  (lookup_map_value UInt32.toNat r.entries name).symm

@[simp] theorem number?_eq_none_iff : r.number? name = none ↔ r.get? name = none :=
  Option.map_eq_none_iff

theorem number?_eq_some_iff :
    r.number? name = some index.toNat ↔ r.get? name = some index :=
  Option.map_eq_some_iff.trans
    ⟨fun ⟨_, hget, hindex⟩ => UInt32.toNat_inj.mp hindex ▸ hget, fun h => ⟨index, h, rfl⟩⟩

theorem number?_inj {r' : NameRegistry} {name' : String} :
    r.number? name = r'.number? name' ↔ r.get? name = r'.get? name' :=
  Option.map_inj_right fun _ _ => UInt32.toNat_inj.mp

theorem assign_of_none (h : r.get? name = none) (index : UInt32) :
    assign name index r = (true, ⟨⟨r.table.entries ++ [(name, index)]⟩⟩) := by
  have hcontains : r.table.contains name = false := by
    rw [NameTable.contains]
    exact congrArg Option.isSome h
  simp [assign, NameTable.add?, hcontains]

theorem assign_of_ne_none (h : r.get? name ≠ none) (index : UInt32) :
    assign name index r = (false, r) := by
  have hcontains : r.table.contains name = true := Option.isSome_iff_ne_none.mpr h
  simp [assign, NameTable.add?, hcontains]

theorem entries_assign (r : NameRegistry) (name : String) (index : UInt32) :
    (assign name index r).2.entries =
      r.entries ++ if r.get? name = none then [(name, index)] else [] := by
  by_cases h : r.get? name = none
  · rw [assign_of_none h, if_pos h]
    rfl
  · rw [assign_of_ne_none h, if_neg h, List.append_nil]

theorem numbers_assign (r : NameRegistry) (name : String) (index : UInt32) :
    (assign name index r).2.numbers =
      r.numbers ++ if r.get? name = none then [(name, index.toNat)] else [] := by
  rw [numbers, entries_assign, List.map_append, numbers]
  split_ifs <;> rfl

/-- A name takes an index that is assigned to it if it has none. -/
theorem get?_assign (r : NameRegistry) (name : String) (index : UInt32) (other : String) :
    (assign name index r).2.get? other =
      (r.get? other).or (if other = name then some index else none) := by
  by_cases h : r.get? name = none
  · rw [assign_of_none h]
    exact NameTable.get?_append r.table name index other
  · rw [assign_of_ne_none h]
    by_cases hother : other = name
    · obtain ⟨i, hi⟩ := Option.ne_none_iff_exists'.mp h
      simp [hother, hi]
    · simp [hother]

theorem nextIndex_of_lt (h : r.size < UInt32.size - 1) :
    r.nextIndex = .ok (UInt32.ofNat r.size) :=
  if_pos h

theorem nextIndex_of_le (h : UInt32.size - 1 ≤ r.size) : r.nextIndex = .error .registryFull :=
  if_neg (Nat.not_lt.mpr h)

theorem toNat_ofNat_size (h : r.size < UInt32.size - 1) :
    (UInt32.ofNat r.size).toNat = r.size :=
  UInt32.toNat_ofNat_of_lt' (Nat.lt_of_lt_of_le h (Nat.sub_le ..))

/-- While there is a next index, registering a name assigns it. -/
theorem register_of_lt (name : String) (h : r.size < UInt32.size - 1) :
    register name r = .ok ((r.get? name).getD (UInt32.ofNat r.size))
      (assign name (UInt32.ofNat r.size) r).2 := by
  simp only [register, nextIndex_of_lt h]
  cases hname : r.get? name with
  | none => rfl
  | some index =>
    rw [assign_of_ne_none (hname ▸ Option.some_ne_none index)]
    rfl

theorem register_of_le (name : String) (h : UInt32.size - 1 ≤ r.size) :
    register name r = .error .registryFull r := by
  simp only [register, nextIndex_of_le h]

/-- While there is a next index, inserting a name assigns it. -/
theorem insertNew_of_lt (name : String) (h : r.size < UInt32.size - 1) :
    insertNew name r = .ok (if r.get? name = none then some (UInt32.ofNat r.size) else none)
      (assign name (UInt32.ofNat r.size) r).2 := by
  simp only [insertNew, nextIndex_of_lt h]
  by_cases hname : r.get? name = none
  · rw [assign_of_none hname, if_pos hname]
  · rw [assign_of_ne_none hname, if_neg hname]

theorem insertNew_of_le (name : String) (h : UInt32.size - 1 ≤ r.size) :
    insertNew name r = .error .registryFull r := by
  simp only [insertNew, nextIndex_of_le h]

end NameRegistry

/-- What is found in a list of names: each name at the position where it occurs first, and a warning
wherever a name has occurred before. -/
structure Positions.Of (names : List String) (found : Positions) : Prop where
  numbers_eq : found.registry.numbers = firstOccurrences names
  count_eq : found.count = names.length
  warnings_eq : found.warnings = repetitions names

theorem Positions.Of.number?_eq {names : List String} {found : Positions} (h : found.Of names)
    (name : String) : found.registry.number? name = names.idxOf? name := by
  rw [NameRegistry.number?_eq_lookup, h.numbers_eq, lookup_firstOccurrences]

theorem Positions.Of.get?_eq_none_iff {names : List String} {found : Positions}
    (h : found.Of names) {name : String} : found.registry.get? name = none ↔ name ∉ names := by
  rw [← NameRegistry.number?_eq_none_iff, h.number?_eq, List.idxOf?_eq_none_iff]

namespace NameRegistry

variable {names : List String} {found : Positions}

theorem positional_concat (names : List String) (last : String) :
    positional (.ofList (names ++ [last])) =
      positional (.ofList names) >>= fun found => assignPosition found last := by
  simp only [positional, Walk.foldlM_ofList, List.foldlM_append, List.foldlM_cons, List.foldlM_nil]
  simp

/-- The next position of a list is one more that is found, if it is an index. -/
theorem exists_assignPosition (h : found.Of names) (hlt : names.length < UInt32.size - 1)
    (last : String) : ∃ found', assignPosition found last = .ok found' ∧
      found'.Of (names ++ [last]) := by
  have hindex : (UInt32.ofNat names.length).toNat = names.length :=
    UInt32.toNat_ofNat_of_lt' (by omega)
  have hnumbers := numbers_assign found.registry last (UInt32.ofNat names.length)
  rw [hindex, h.numbers_eq] at hnumbers
  rw [assignPosition, h.count_eq, if_pos hlt]
  by_cases hlast : last ∈ names
  · have hbound : found.registry.get? last ≠ none := by rwa [ne_eq, h.get?_eq_none_iff, not_not]
    rw [if_neg hbound, assign_of_ne_none hbound] at hnumbers
    rw [assign_of_ne_none hbound]
    refine ⟨_, rfl, ?_, by simp, ?_⟩
    · rw [hnumbers, firstOccurrences_concat, if_pos hlast]
    · rw [h.warnings_eq, repetitions_concat, if_pos hlast]
  · have hfree : found.registry.get? last = none := h.get?_eq_none_iff.mpr hlast
    rw [if_pos hfree, assign_of_none hfree] at hnumbers
    rw [assign_of_none hfree]
    refine ⟨_, rfl, ?_, by simp, ?_⟩
    · rw [hnumbers, firstOccurrences_concat, if_neg hlast]
    · rw [repetitions_concat, if_neg hlast, List.append_nil]
      exact h.warnings_eq

/-- The positions of a list are found as long as they are indices. -/
theorem exists_positional (hlength : names.length < UInt32.size) :
    ∃ found, positional (.ofList names) = .ok found ∧ found.Of names := by
  induction names using List.reverseRecOn with
  | nil => exact ⟨_, rfl, rfl, rfl, rfl⟩
  | append_singleton names last ih =>
    rw [List.length_append, List.length_singleton] at hlength
    obtain ⟨found, hfound, hof⟩ := ih (Nat.lt_of_succ_lt hlength)
    obtain ⟨found', hfound', hof'⟩ :=
      exists_assignPosition hof (Nat.lt_pred_of_succ_lt hlength) last
    exact ⟨found', by rw [positional_concat, hfound, ok_bind, hfound'], hof'⟩

/-- A list with a position that is no index faults. -/
theorem positional_eq_error (hlength : UInt32.size ≤ names.length) :
    positional (.ofList names) = .error .positionOverflow := by
  induction names using List.reverseRecOn with
  | nil => exact absurd hlength (by decide)
  | append_singleton names last ih =>
    rw [List.length_append, List.length_singleton] at hlength
    rw [positional_concat]
    by_cases hle : UInt32.size ≤ names.length
    · rw [ih hle]
      rfl
    · obtain ⟨found, hfound, hof⟩ := exists_positional (Nat.lt_of_not_le hle)
      have hlast : ¬ found.count < UInt32.size - 1 := by
        rw [hof.count_eq]
        omega
      rw [hfound, ok_bind, assignPosition, if_neg hlast]

theorem positional_eq_ok (h : positional (.ofList names) = .ok found) :
    names.length < UInt32.size ∧ found.Of names := by
  by_cases hlength : names.length < UInt32.size
  · obtain ⟨found', hfound', hof⟩ := exists_positional hlength
    obtain rfl : found' = found := Except.ok.inj (hfound'.symm.trans h)
    exact ⟨hlength, hof⟩
  · rw [positional_eq_error (Nat.le_of_not_lt hlength)] at h
    cases h

end NameRegistry

end PetriAnalysis
