import Mathlib.Data.Fintype.EquivFin
import PetriAnalysis.Proofs.Names.Numbering
import PetriAnalysis.Proofs.Transcript

/-!
# Indices of names that come in later

A name that comes in takes the number of names as its index. That number is free as long as the
names are numbered without gaps. In a registry of positions every repetition leaves a gap, and the
names behind it have larger indices than there are names. So a new index is shared if some name of
the list occurs first at the position with this number. Names can be added to a registry of
positions without any index being given twice only if all repetitions come after the last name that
is new.

## Main definitions

* `NamingCall`, `NamingCall.perform` — the calls that bring in a name.
* `NameRegistry.Holds r i` — some name has the index `i`.
* `NameRegistry.Distinguishes r` — different names have different indices.
-/

namespace PetriAnalysis

/-- A call that brings in a name, unless it is there. -/
inductive NamingCall where
  | register (name : String)
  | insertNew (name : String)

namespace NamingCall

/-- The name that is to come in. -/
def name : NamingCall → String
  | register name => name
  | insertNew name => name

/-- Makes a call. The answer is an index, if there is an answer. -/
def perform (call : NamingCall) (r : NameRegistry) : Except Fault (Option UInt32) × NameRegistry :=
  match call with
  | register name => (answered (NameRegistry.register name r)).map (Except.map some) id
  | insertNew name => answered (NameRegistry.insertNew name r)

end NamingCall

namespace NameRegistry

/-- Some name has this index. -/
def Holds (r : NameRegistry) (i : ℕ) : Prop := ∃ name, r.number? name = some i

/-- No two names have the same index. -/
def Distinguishes (r : NameRegistry) : Prop :=
  ∀ name name' i, r.get? name = some i → r.get? name' = some i → name = name'

variable {r : NameRegistry} {names : List String} {found : Positions} {i : ℕ}

theorem distinguishes_iff : r.Distinguishes ↔
    ∀ name name' i, r.number? name = some i → r.number? name' = some i → name = name' := by
  constructor
  · intro h name name' i hname hname'
    obtain ⟨index, hget, rfl⟩ := Option.map_eq_some_iff.mp hname
    exact h name name' index hget (number?_eq_some_iff.mp hname')
  · intro h name name' index hname hname'
    exact h name name' _ (number?_eq_some_iff.mpr hname) (number?_eq_some_iff.mpr hname')

/-! ## One call -/

/-- While there is a next index, both calls assign it. -/
theorem perform_state (call : NamingCall) (h : r.size < UInt32.size - 1) :
    (call.perform r).2 = (assign call.name (UInt32.ofNat r.size) r).2 := by
  cases call with
  | register name =>
    rw [NamingCall.perform, register_of_lt name h]
    rfl
  | insertNew name =>
    rw [NamingCall.perform, insertNew_of_lt name h]
    rfl

/-- Without a next index both calls fault. -/
theorem perform_full (call : NamingCall) (h : UInt32.size - 1 ≤ r.size) :
    call.perform r = (.error .registryFull, r) := by
  cases call with
  | register name =>
    rw [NamingCall.perform, register_of_le name h]
    rfl
  | insertNew name =>
    rw [NamingCall.perform, insertNew_of_le name h]
    rfl

/-- A name that comes in is answered with its index. -/
theorem perform_answer_of_none (call : NamingCall) (hroom : r.size < UInt32.size - 1)
    (h : r.get? call.name = none) : (call.perform r).1 = .ok (some (UInt32.ofNat r.size)) := by
  cases call with
  | register name =>
    have hname : r.get? name = none := h
    rw [NamingCall.perform, register_of_lt name hroom, hname]
    rfl
  | insertNew name =>
    have hname : r.get? name = none := h
    rw [NamingCall.perform, insertNew_of_lt name hroom, if_pos hname]
    rfl

theorem size_perform (call : NamingCall) (r : NameRegistry) :
    (call.perform r).2.size =
      r.size + if r.get? call.name = none ∧ r.size < UInt32.size - 1 then 1 else 0 := by
  by_cases hroom : r.size < UInt32.size - 1
  · have hsize : (call.perform r).2.size = (call.perform r).2.entries.length := rfl
    rw [hsize, perform_state call hroom, entries_assign, List.length_append]
    by_cases h : r.get? call.name = none
    · rw [if_pos h, if_pos ⟨h, hroom⟩]
      rfl
    · rw [if_neg h, if_neg fun hnew => h hnew.1]
      rfl
  · rw [perform_full call (Nat.le_of_not_lt hroom), if_neg fun h => hroom h.2, Nat.add_zero]

theorem number?_perform (call : NamingCall) (hroom : r.size < UInt32.size - 1) (other : String) :
    (call.perform r).2.number? other =
      (r.number? other).or (if other = call.name then some r.size else none) := by
  rw [perform_state call hroom, number?, get?_assign, Option.map_or, number?]
  split_ifs
  · rw [Option.map_some, toNat_ofNat_size hroom]
  · rfl

theorem holds_perform (call : NamingCall) (r : NameRegistry) (i : ℕ) :
    (call.perform r).2.Holds i ↔
      r.Holds i ∨ ((r.get? call.name = none ∧ r.size < UInt32.size - 1) ∧ i = r.size) := by
  by_cases hroom : r.size < UInt32.size - 1
  · simp only [Holds, number?_perform call hroom, Option.or_eq_some_iff, number?_eq_none_iff]
    constructor
    · rintro ⟨other, h | ⟨habsent, h⟩⟩
      · exact Or.inl ⟨other, h⟩
      · obtain ⟨rfl, hi⟩ := Option.ite_none_right_eq_some.mp h
        exact Or.inr ⟨⟨habsent, hroom⟩, (Option.some_inj.mp hi).symm⟩
    · rintro (⟨other, h⟩ | ⟨⟨habsent, -⟩, rfl⟩)
      · exact ⟨other, Or.inl h⟩
      · exact ⟨call.name, Or.inr ⟨habsent, if_pos rfl⟩⟩
  · rw [perform_full call (Nat.le_of_not_lt hroom)]
    exact ⟨Or.inl, Or.rec id fun hnew => absurd hnew.1.2 hroom⟩

theorem number?_perform_self (call : NamingCall) (hroom : r.size < UInt32.size - 1)
    (h : r.get? call.name = none) : (call.perform r).2.number? call.name = some r.size := by
  rw [number?_perform call hroom, number?_eq_none_iff.mpr h, Option.none_or, if_pos rfl]

/-- A new index is shared if it was taken before. -/
theorem shared_iff_holds (call : NamingCall) (hroom : r.size < UInt32.size - 1)
    (h : r.get? call.name = none) :
    (∃ other, other ≠ call.name ∧ (call.perform r).2.number? other = some r.size) ↔
      r.Holds r.size := by
  constructor
  · rintro ⟨other, hne, hother⟩
    rw [number?_perform call hroom, if_neg hne, Option.or_none] at hother
    exact ⟨other, hother⟩
  · rintro ⟨other, hother⟩
    refine ⟨other, ?_, by rw [number?_perform call hroom, hother, Option.some_or]⟩
    rintro rfl
    exact absurd ((number?_eq_none_iff.mpr h).symm.trans hother) (Option.some_ne_none _).symm

/-! ## Many calls -/

theorem size_le_stateAfter (calls : List NamingCall) (r : NameRegistry) :
    r.size ≤ (stateAfter NamingCall.perform calls r).size := by
  induction calls using List.reverseRecOn with
  | nil => exact le_rfl
  | append_singleton calls call ih =>
    rw [stateAfter_concat, size_perform]
    omega

/-- The indices given along a session are the numbers of names in between. -/
theorem holds_stateAfter (calls : List NamingCall) (r : NameRegistry) (i : ℕ) :
    (stateAfter NamingCall.perform calls r).Holds i ↔
      r.Holds i ∨ (r.size ≤ i ∧ i < (stateAfter NamingCall.perform calls r).size) := by
  induction calls using List.reverseRecOn with
  | nil => simp
  | append_singleton calls call ih =>
    have hle := size_le_stateAfter calls r
    rw [stateAfter_concat, holds_perform, ih, size_perform, or_assoc]
    refine or_congr_right ?_
    split_ifs with hnew
    · simp only [hnew, true_and, and_self]
      omega
    · rw [Nat.add_zero, or_iff_left fun hlast => hnew hlast.1]

theorem exists_absent (r : NameRegistry) : ∃ name, r.get? name = none := by
  obtain ⟨name, hname⟩ := Infinite.exists_notMem_finset (r.entries.map Prod.fst).toFinset
  rw [List.mem_toFinset] at hname
  exact ⟨name, lookup_eq_none_iff_notMem.mpr hname⟩

/-- A registry can be given as many more names as there are indices. -/
theorem exists_calls (r : NameRegistry) {k : ℕ} (hroom : r.size + k < UInt32.size) :
    ∃ calls, (stateAfter NamingCall.perform calls r).size = r.size + k := by
  induction k with
  | zero => exact ⟨[], rfl⟩
  | succ k ih =>
    obtain ⟨calls, hcalls⟩ := ih (Nat.lt_of_succ_lt hroom)
    obtain ⟨name, hname⟩ := exists_absent (stateAfter NamingCall.perform calls r)
    refine ⟨calls ++ [.register name], ?_⟩
    rw [stateAfter_concat, size_perform, hcalls, NamingCall.name,
      if_pos ⟨hname, Nat.lt_pred_of_succ_lt hroom⟩]
    rfl

/-- Nothing is shared while all indices are below the number of names. -/
theorem Distinguishes.perform (h : r.Distinguishes) (hlt : ∀ i, r.Holds i → i < r.size)
    (call : NamingCall) : (call.perform r).2.Distinguishes := by
  by_cases hroom : r.size < UInt32.size - 1
  · have hfresh (name : String) : r.number? name ≠ some r.size :=
      fun hname => Nat.lt_irrefl _ (hlt _ ⟨name, hname⟩)
    rw [distinguishes_iff] at h ⊢
    intro name name' i hname hname'
    rw [number?_perform call hroom, Option.or_eq_some_iff] at hname hname'
    rcases hname with hname | ⟨-, hname⟩ <;> rcases hname' with hname' | ⟨-, hname'⟩
    · exact h name name' i hname hname'
    · obtain ⟨-, hi⟩ := Option.ite_none_right_eq_some.mp hname'
      exact absurd (hname.trans hi.symm) (hfresh name)
    · obtain ⟨-, hi⟩ := Option.ite_none_right_eq_some.mp hname
      exact absurd (hname'.trans hi.symm) (hfresh name')
    · obtain ⟨rfl, -⟩ := Option.ite_none_right_eq_some.mp hname
      obtain ⟨rfl, -⟩ := Option.ite_none_right_eq_some.mp hname'
      rfl
  · rwa [perform_full call (Nat.le_of_not_lt hroom)]

theorem Distinguishes.stateAfter (h : r.Distinguishes) (hlt : ∀ i, r.Holds i → i < r.size)
    (calls : List NamingCall) : (stateAfter NamingCall.perform calls r).Distinguishes := by
  induction calls using List.reverseRecOn with
  | nil => exact h
  | append_singleton calls call ih =>
    rw [stateAfter_concat]
    refine ih.perform ?_ call
    intro i hi
    rcases (holds_stateAfter calls r i).mp hi with hi | ⟨-, hi⟩
    · exact (hlt i hi).trans_le (size_le_stateAfter calls r)
    · exact hi

/-! ## Registries of positions -/

theorem holds_positions (hof : found.Of names) : found.registry.Holds i ↔ NewAt names i :=
  exists_congr fun name => by rw [hof.number?_eq]

theorem distinguishes_positions (hof : found.Of names) : found.registry.Distinguishes := by
  rw [distinguishes_iff]
  intro name name' i hname hname'
  rw [hof.number?_eq, List.idxOf?_eq_some_iff] at hname hname'
  obtain ⟨-, rfl, -⟩ := hname
  obtain ⟨-, rfl, -⟩ := hname'
  rfl

/-- Nothing is shared, whatever comes in, if the positions of new names are below their number. -/
theorem distinguishes_iff_repetitionsLast (hlength : names.length < UInt32.size)
    (hof : found.Of names) :
    (∀ calls, (stateAfter NamingCall.perform calls found.registry).Distinguishes) ↔
      RepetitionsLast names := by
  rw [repetitionsLast_iff_lt, ← hof.numberedBy.size_eq]
  constructor
  · -- Otherwise names come in until their number is a position that is taken.
    intro h j hj
    by_contra hle
    have hroom : j + 1 < UInt32.size := (Nat.succ_le_of_lt hj.lt_length).trans_lt hlength
    obtain ⟨k, rfl⟩ := Nat.exists_eq_add_of_le (Nat.le_of_not_lt hle)
    obtain ⟨calls, hsize⟩ := exists_calls found.registry (Nat.lt_of_succ_lt hroom)
    generalize hr : stateAfter NamingCall.perform calls found.registry = r at hsize
    rw [← hsize] at hj hroom
    obtain ⟨name, habsent⟩ := exists_absent r
    have htaken : r.Holds r.size := by
      rw [← hr, holds_stateAfter, hr]
      exact Or.inl ((holds_positions hof).mpr hj)
    have hroom' : r.size < UInt32.size - 1 := Nat.lt_pred_of_succ_lt hroom
    obtain ⟨other, hne, hother⟩ :=
      (shared_iff_holds (.register name) hroom' habsent).mpr htaken
    have hnew := h (calls ++ [.register name])
    rw [stateAfter_concat, hr] at hnew
    exact hne (distinguishes_iff.mp hnew _ _ _ hother
      (number?_perform_self (.register name) hroom' habsent))
  · intro h calls
    refine (distinguishes_positions hof).stateAfter ?_ calls
    exact fun i hi => h i ((holds_positions hof).mp hi)

/-- A name that comes in after a registry of positions takes the number of names as its index, and
shares it with another name if a name of the list occurs first at this position. No index is ever
shared if all repetitions in the list come after the last name that is new, and only then. When
there are so many names that no index is left, a call faults and the registry stays as it is. -/
theorem fresh_index_shared_iff {names : List String} {found : Positions}
    (hfound : positional (.ofList names) = .ok found) :
    (∀ (calls : List NamingCall) (call : NamingCall),
      let r := stateAfter NamingCall.perform calls found.registry
      (UInt32.size - 1 ≤ r.size → call.perform r = (.error .registryFull, r)) ∧
      (r.size < UInt32.size - 1 → r.get? call.name = none →
        ∃ index, (call.perform r).1 = .ok (some index) ∧ index.toNat = r.size ∧
          ((∃ other, other ≠ call.name ∧ (call.perform r).2.get? other = some index) ↔
            NewAt names r.size))) ∧
    ((∀ calls, (stateAfter NamingCall.perform calls found.registry).Distinguishes) ↔
      RepetitionsLast names) := by
  obtain ⟨hlength, hof⟩ := positional_eq_ok hfound
  refine ⟨?_, distinguishes_iff_repetitionsLast hlength hof⟩
  intro calls call r
  refine ⟨perform_full call, ?_⟩
  intro hroom habsent
  refine ⟨_, perform_answer_of_none call hroom habsent, toNat_ofNat_size hroom, ?_⟩
  simp only [← number?_eq_some_iff, toNat_ofNat_size hroom]
  rw [shared_iff_holds call hroom habsent, holds_stateAfter, holds_positions hof]
  simp [r]

/-- The third name is a repetition, so a fourth name has index 3, and so has the next name that
comes in. -/
theorem fresh_index_shared_iff_revisit :
    ∃ found, positional (.ofList ["a", "b", "a", "c"]) = .ok found ∧
      found.registry.get? "d" = none ∧
      ∃ index, (NamingCall.perform (.register "d") found.registry).1 = .ok (some index) ∧
        index.toNat = 3 ∧ ∃ other, other ≠ "d" ∧
          (NamingCall.perform (.register "d") found.registry).2.get? other = some index := by
  obtain ⟨found, hfound⟩ : ∃ found, positional (.ofList ["a", "b", "a", "c"]) = .ok found :=
    ⟨_, rfl⟩
  have hregistry : found.registry = ⟨⟨[("a", 0), ("b", 1), ("c", 3)]⟩⟩ := by
    cases hfound
    decide
  have habsent : found.registry.get? "d" = none := by
    rw [hregistry]
    decide
  have hroom : found.registry.size < UInt32.size - 1 := by
    rw [hregistry]
    decide
  obtain ⟨index, hanswer, hindex, hshared⟩ :=
    ((fresh_index_shared_iff hfound).1 [] (.register "d")).2 hroom habsent
  have hsize : found.registry.size = 3 := by
    rw [hregistry]
    rfl
  refine ⟨found, hfound, habsent, index, hanswer, hindex.trans hsize, hshared.mpr ?_⟩
  exact ⟨"c", by rw [stateAfter_nil, hsize]; decide⟩

/-- One index is given to two names. -/
theorem index_given_twice :
    ¬ ∀ names found calls, positional (.ofList names) = .ok found →
      (stateAfter NamingCall.perform calls found.registry).Distinguishes := by
  intro h
  have hcd := h ["a", "b", "a", "c"] _ [.register "d"] rfl "c" "d" 3 (by decide) (by decide)
  exact absurd hcd (by decide)

end NameRegistry

end PetriAnalysis
