import Mathlib.Data.List.Nodup

/-!
# Looking up keys in lists of pairs

A list of pairs with distinct keys is a finite map: a key has the value that it is paired with.
-/

namespace PetriAnalysis

variable {κ ι α β : Type} [BEq κ] [LawfulBEq κ] [BEq ι] [LawfulBEq ι]

/-- A key is found exactly if it occurs. -/
theorem lookup_isSome_iff_mem {l : List (κ × α)} {k : κ} :
    (l.lookup k).isSome ↔ k ∈ l.map Prod.fst := by
  rw [List.lookup_isSome_iff, List.mem_map]
  simp only [beq_iff_eq]
  exact exists_congr fun _ => and_congr_right fun _ => eq_comm

theorem lookup_eq_none_iff_notMem {l : List (κ × α)} {k : κ} :
    l.lookup k = none ↔ k ∉ l.map Prod.fst := by
  rw [← lookup_isSome_iff_mem, Option.not_isSome_iff_eq_none]

/-- Distinct keys are found with the values that they are paired with. -/
theorem lookup_eq_some_iff_mem {l : List (κ × α)} (hnodup : (l.map Prod.fst).Nodup) {k : κ}
    {v : α} : l.lookup k = some v ↔ (k, v) ∈ l := by
  induction l with
  | nil => simp
  | cons entry l ih =>
    obtain ⟨k', v'⟩ := entry
    obtain ⟨hnew, hrest⟩ := List.nodup_cons.mp hnodup
    rw [List.lookup_cons, List.mem_cons]
    by_cases hk : k = k'
    · subst hk
      have hold : (k, v) ∉ l := fun h => by
        have hkey : k ∈ l.map Prod.fst := List.mem_map_of_mem (f := Prod.fst) h
        exact hnew hkey
      simp [hold, eq_comm]
    · rw [beq_false_of_ne hk]
      simp [hk, ih hrest]

theorem lookup_map_key {f : κ → ι} (hf : Function.Injective f) (l : List (κ × α)) (k : κ) :
    (l.map fun e => (f e.1, e.2)).lookup (f k) = l.lookup k := by
  induction l with
  | nil => rfl
  | cons entry l ih =>
    rw [List.map_cons, List.lookup_cons, List.lookup_cons, ih]
    by_cases hk : k = entry.1
    · rw [hk, beq_self_eq_true, beq_self_eq_true]
    · rw [beq_false_of_ne hk, beq_false_of_ne (hf.ne hk)]

omit [LawfulBEq κ] in
theorem lookup_map_value (f : α → β) (l : List (κ × α)) (k : κ) :
    (l.map fun e => (e.1, f e.2)).lookup k = (l.lookup k).map f := by
  induction l with
  | nil => rfl
  | cons entry l ih =>
    rw [List.map_cons, List.lookup_cons, List.lookup_cons, ih]
    cases k == entry.1 <;> rfl

end PetriAnalysis
