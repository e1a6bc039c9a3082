import PetriAnalysis.Fault
import PetriAnalysis.Proofs.Fold
import PetriAnalysis.Proofs.Lookup

/-!
# Accesses to arrays by index

An access by index succeeds exactly if the index is in range. Values are scattered over an array by
fetching, for one value after the other, the element that it belongs to and storing what becomes of
that element. The array keeps its size, and values that belong to different elements do not meet.

## Main definitions

* `scatter f pairs xs` — values scattered over an array.
* `strictScatter f pairs xs` — the same, where an index out of range is a fault.
-/

namespace PetriAnalysis

variable {α β : Type} {xs ys : Array α} {i : ℕ}

theorem fetch_eq_ok_iff {x : α} : fetch xs i = .ok x ↔ xs[i]? = some x := by
  rw [fetch]
  cases xs[i]? <;> simp

theorem store_eq_ok_iff {x : α} :
    store xs i x = .ok ys ↔ i < xs.size ∧ xs.setIfInBounds i x = ys := by
  rw [store]
  split_ifs with hi <;> simp [hi]

theorem setIfInBounds_eq_modify {x : α} (hx : xs[i]? = some x) (f : α → α) :
    xs.setIfInBounds i (f x) = xs.modify i f := by
  obtain ⟨hi, rfl⟩ := Array.getElem?_eq_some_iff.mp hx
  refine Array.ext_getElem? ?_
  intro j
  rw [Array.getElem?_modify]
  by_cases hij : i = j
  · subst hij
    rw [if_pos rfl, Array.getElem?_setIfInBounds_self_of_lt hi, hx, Option.map_some]
  · rw [if_neg hij, Array.getElem?_setIfInBounds_ne hij]

/-- An element is changed by fetching it and storing what becomes of it. -/
theorem amend_eq_ok_iff {f : α → α} : (do store xs i (f (← fetch xs i))) = .ok ys ↔
    i < xs.size ∧ xs.modify i f = ys := by
  rw [bind_eq_ok_iff]
  simp only [fetch_eq_ok_iff, store_eq_ok_iff]
  constructor
  · rintro ⟨x, hx, hi, rfl⟩
    exact ⟨hi, (setIfInBounds_eq_modify hx f).symm⟩
  · rintro ⟨hi, rfl⟩
    have hx := Array.getElem?_eq_getElem hi
    exact ⟨xs[i], hx, hi, setIfInBounds_eq_modify hx f⟩

/-! ## Scattered values -/

/-- Changes the elements that the values belong to. -/
def scatter (f : β → α → α) (pairs : List (ℕ × β)) (xs : Array α) : Array α :=
  pairs.foldl (fun xs entry => xs.modify entry.1 (f entry.2)) xs

/-- Changes the elements that the values belong to, all of which must exist. -/
def strictScatter (f : β → α → α) (pairs : List (ℕ × β)) (xs : Array α) :
    Except Fault (Array α) :=
  pairs.foldlM (fun xs entry => do store xs entry.1 (f entry.2 (← fetch xs entry.1))) xs

section

variable {f : β → α → α} {pairs : List (ℕ × β)}

@[simp] theorem size_scatter (f : β → α → α) (pairs : List (ℕ × β)) (xs : Array α) :
    (scatter f pairs xs).size = xs.size := by
  induction pairs generalizing xs with
  | nil => rfl
  | cons entry pairs ih => exact (ih _).trans Array.size_modify

/-- Values for distinct elements do not meet. -/
theorem getElem?_scatter (hnodup : (pairs.map Prod.fst).Nodup) (i : ℕ) :
    (scatter f pairs xs)[i]? = xs[i]?.map fun x =>
      match pairs.lookup i with
      | some value => f value x
      | none => x := by
  induction pairs generalizing xs with
  | nil => simp [scatter]
  | cons entry pairs ih =>
    obtain ⟨hnew, hnodup⟩ := List.nodup_cons.mp hnodup
    have hrest : (scatter f pairs (xs.modify entry.1 (f entry.2)))[i]? = _ := ih hnodup
    rw [Array.getElem?_modify] at hrest
    rw [List.lookup_cons]
    refine hrest.trans ?_
    by_cases hi : entry.1 = i
    · subst hi
      rw [lookup_eq_none_iff_notMem.mpr hnew, beq_self_eq_true, if_pos rfl, Option.map_map]
      rfl
    · rw [if_neg hi, beq_false_of_ne (Ne.symm hi)]

/-- Values are scattered without a fault exactly if all elements that they belong to exist. -/
theorem strictScatter_eq_ok_iff : strictScatter f pairs xs = .ok ys ↔
    (∀ i ∈ pairs.map Prod.fst, i < xs.size) ∧ scatter f pairs xs = ys := by
  induction pairs generalizing xs with
  | nil => simp [strictScatter, scatter, pure, Except.pure]
  | cons entry pairs ih =>
    rw [List.map_cons, List.forall_mem_cons, and_assoc]
    refine foldlM_cons_eq_ok_iff.trans ?_
    constructor
    · rintro ⟨_, hfirst, hrest⟩
      obtain ⟨hi, rfl⟩ := amend_eq_ok_iff.mp hfirst
      have hrest := ih.mp hrest
      rw [Array.size_modify] at hrest
      exact ⟨hi, hrest⟩
    · rintro ⟨hi, hrest⟩
      refine ⟨_, amend_eq_ok_iff.mpr ⟨hi, rfl⟩, ih.mpr ?_⟩
      rwa [Array.size_modify]

end

end PetriAnalysis
