import PetriAnalysis.Names.Table
import PetriAnalysis.Proofs.Lookup

/-!
# Names in a table

A table is changed by names that come in and by values that change. Each of these is said by what
every name is bound to afterwards.
-/

namespace PetriAnalysis

namespace NameTable

variable {β : Type}

theorem get?_eq_none_iff {t : NameTable β} {name : String} :
    t.get? name = none ↔ name ∉ t.names :=
  lookup_eq_none_iff_notMem

theorem lookup_cons_ite (name : String) (b : β) (l : List (String × β)) (other : String) :
    ((name, b) :: l).lookup other = if other = name then some b else l.lookup other := by
  rw [List.lookup_cons]
  by_cases h : other = name
  · simp [h]
  · simp [h, beq_false_of_ne h]

/-- A binding at the end counts for a name that has none before. -/
theorem get?_append (t : NameTable β) (name : String) (b : β) (other : String) :
    (⟨t.entries ++ [(name, b)]⟩ : NameTable β).get? other =
      (t.get? other).or (if other = name then some b else none) := by
  simp only [get?, List.lookup_append, lookup_cons_ite, List.lookup_nil]

theorem lookup_map_change (l : List (String × β)) (name : String) (change : β → β)
    (other : String) :
    (l.map fun entry => if entry.1 = name then (name, change entry.2) else entry).lookup other =
      if other = name then (l.lookup name).map change else l.lookup other := by
  induction l with
  | nil => simp
  | cons entry l ih =>
    obtain ⟨key, b⟩ := entry
    rw [List.map_cons]
    by_cases hkey : key = name
    · rw [if_pos hkey, lookup_cons_ite, lookup_cons_ite, lookup_cons_ite, ih, hkey]
      by_cases h : other = name <;> simp [h]
    · rw [if_neg hkey, lookup_cons_ite, lookup_cons_ite, lookup_cons_ite, ih]
      by_cases h : other = key
      · simp [h, hkey]
      · simp [h, Ne.symm hkey]

/-- A change concerns one name, which is bound to the changed value from then on. -/
theorem get?_alter (t : NameTable β) (name : String) (b : β) (change : β → β) (other : String) :
    (t.alter name b change).get? other =
      if other = name then some (change ((t.get? name).getD b)) else t.get? other := by
  rw [alter]
  by_cases hname : t.contains name
  · obtain ⟨value, hvalue⟩ := Option.isSome_iff_exists.mp hname
    have hlookup : t.entries.lookup name = some value := hvalue
    rw [if_pos hname, hvalue, get?, lookup_map_change, hlookup]
    rfl
  · have hnone : t.get? name = none := Option.not_isSome_iff_eq_none.mp hname
    rw [if_neg hname, get?_append, hnone]
    by_cases h : other = name
    · simp [h, hnone]
    · simp [h]

end NameTable

end PetriAnalysis
