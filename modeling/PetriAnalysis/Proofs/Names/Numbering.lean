import Mathlib.Data.Finset.Card
import PetriAnalysis.Proofs.Names.Positions

/-!
# Two numberings of a list of names

A list of names can be registered by position, or by collecting its names. Both registries hold the
names in the order of their first occurrences. By position a name is numbered with the position of
its first occurrence, and by collecting with the number of different names before it. A repetition
takes up a position but adds no name, so the two numberings agree on the names that no repetition
comes before, and on no other name of the list.

Indices have 32 bits, and the largest of them is not given. Positions run out when the list is too
long for that; collecting runs out of indices only when there are too many different names.

## Main definitions

* `distinctBefore names i` — the number of different names before a position.
* `NewAt names i`, `RepeatedAt names i` — the two kinds of positions.
* `RepetitionsLast names` — all repetitions come after the last name that is new.
* `NumberedBy names number r` — a registry that numbers names by their first positions.
-/

namespace PetriAnalysis

/-- The number of different names before a position. -/
def distinctBefore (names : List String) (i : ℕ) : ℕ := (names.take i).toFinset.card

/-- Some name occurs first at this position. -/
def NewAt (names : List String) (i : ℕ) : Prop := ∃ name, names.idxOf? name = some i

/-- The name at this position has occurred before. -/
def RepeatedAt (names : List String) (i : ℕ) : Prop :=
  ∃ name, names[i]? = some name ∧ name ∈ names.take i

/-- All repetitions come after the first occurrence of the last name that is new. -/
def RepetitionsLast (names : List String) : Prop :=
  ∀ i j, RepeatedAt names i → NewAt names j → j < i

/-- The registry holds the names in the order of their first occurrences. The index of a name is
computed from the position of its first occurrence, and indices ascend. -/
structure NumberedBy (names : List String) (number : ℕ → ℕ) (r : NameRegistry) : Prop where
  names_eq : r.entries.map Prod.fst = names.eraseDups
  size_eq : r.size = names.toFinset.card
  number?_eq : ∀ name, r.number? name = (names.idxOf? name).map number
  ascending : (r.entries.map Prod.snd).Pairwise (· < ·)

variable {names : List String} {name : String} {i j : ℕ}

/-! ## First occurrences and repetitions -/

theorem map_fst_firstOccurrences (names : List String) :
    (firstOccurrences names).map Prod.fst = names.eraseDups := by
  induction names using List.reverseRecOn with
  | nil => rfl
  | append_singleton names last ih =>
    rw [firstOccurrences_concat, List.map_append, ih, List.eraseDups_append]
    by_cases hlast : last ∈ names <;> simp [hlast, List.removeAll, List.eraseDups_cons]

theorem length_firstOccurrences (names : List String) :
    (firstOccurrences names).length = names.toFinset.card := by
  induction names using List.reverseRecOn with
  | nil => rfl
  | append_singleton names last ih =>
    rw [firstOccurrences_concat, List.length_append, ih, List.toFinset_append]
    by_cases hlast : last ∈ names <;> simp [hlast]

theorem pairwise_firstOccurrences (names : List String) :
    (firstOccurrences names).Pairwise fun e e' => e.2 < e'.2 := by
  have hpositions : (names.zipIdx.map Prod.snd).Pairwise (· < ·) := by
    rw [List.zipIdx_map_snd]
    exact List.pairwise_lt_range'
  exact (List.pairwise_map.mp hpositions).filter _

theorem newAt_iff : NewAt names i ↔ ∃ name, names[i]? = some name ∧ name ∉ names.take i := by
  refine exists_congr fun name => ?_
  rw [List.idxOf?_eq_some_iff, List.mem_take_iff_getElem]
  constructor
  · rintro ⟨hi, hname, hfirst⟩
    refine ⟨List.getElem?_eq_some_iff.mpr ⟨hi, hname⟩, ?_⟩
    rintro ⟨j, hj, hname⟩
    exact hfirst j (by omega) hname
  · rintro ⟨hname, hfirst⟩
    obtain ⟨hi, hname⟩ := List.getElem?_eq_some_iff.mp hname
    exact ⟨hi, hname, fun j hj hname => hfirst ⟨j, by omega, hname⟩⟩

theorem NewAt.lt_length (h : NewAt names i) : i < names.length := by
  obtain ⟨name, hname, -⟩ := newAt_iff.mp h
  exact (List.getElem?_eq_some_iff.mp hname).1

/-- A position of a list is new, or it is repeated. -/
theorem newAt_iff_not_repeatedAt (hi : i < names.length) :
    NewAt names i ↔ ¬ RepeatedAt names i := by
  have hname : names[i]? = some names[i] := List.getElem?_eq_getElem hi
  rw [newAt_iff, RepeatedAt, hname]
  simp

theorem mem_firstOccurrences (h : (name, i) ∈ firstOccurrences names) : NewAt names i := by
  obtain ⟨hposition, hfirst⟩ := List.mem_filter.mp h
  exact newAt_iff.mpr ⟨name, List.mem_zipIdx_iff_getElem?.mp hposition, by simpa using hfirst⟩

/-! ## Counting different names -/

theorem distinctBefore_le (names : List String) (i : ℕ) : distinctBefore names i ≤ i :=
  (List.toFinset_card_le _).trans (List.length_take_le i names)

theorem distinctBefore_mono (h : i ≤ j) : distinctBefore names i ≤ distinctBefore names j := by
  refine Finset.card_le_card ?_
  intro name hname
  rw [List.mem_toFinset] at hname ⊢
  exact List.take_subset_take_left names h hname

theorem distinctBefore_succ (hi : i < names.length) :
    distinctBefore names (i + 1) =
      distinctBefore names i + if names[i] ∈ names.take i then 0 else 1 := by
  rw [distinctBefore, List.take_add_one, List.getElem?_eq_getElem hi, List.toFinset_append]
  by_cases h : names[i] ∈ names.take i <;> simp [h, distinctBefore]

theorem distinctBefore_succ_of_newAt (h : NewAt names i) :
    distinctBefore names (i + 1) = distinctBefore names i + 1 := by
  obtain ⟨name, hname, hfirst⟩ := newAt_iff.mp h
  obtain ⟨hi, rfl⟩ := List.getElem?_eq_some_iff.mp hname
  rw [distinctBefore_succ hi, if_neg hfirst]

theorem distinctBefore_succ_of_repeatedAt (h : RepeatedAt names i) :
    distinctBefore names (i + 1) = distinctBefore names i := by
  obtain ⟨name, hname, hbefore⟩ := h
  obtain ⟨hi, rfl⟩ := List.getElem?_eq_some_iff.mp hname
  rw [distinctBefore_succ hi, if_pos hbefore, Nat.add_zero]

/-- A name that occurs first at a position is one more name afterwards. -/
theorem distinctBefore_lt (h : NewAt names i) (hij : i < j) :
    distinctBefore names i < distinctBefore names j := by
  calc distinctBefore names i < distinctBefore names i + 1 := Nat.lt_succ_self _
    _ = distinctBefore names (i + 1) := (distinctBefore_succ_of_newAt h).symm
    _ ≤ distinctBefore names j := distinctBefore_mono hij

/-- As many different names as positions come before a position that no repetition comes before. -/
theorem distinctBefore_eq_iff (hi : i ≤ names.length) :
    distinctBefore names i = i ↔ ∀ j < i, ¬ RepeatedAt names j := by
  induction i with
  | zero => simp [distinctBefore]
  | succ i ih =>
    have hle := distinctBefore_le names i
    rw [Nat.forall_lt_succ_right, ← ih (Nat.le_of_succ_le hi), ← newAt_iff_not_repeatedAt hi]
    by_cases hnew : NewAt names i
    · rw [distinctBefore_succ_of_newAt hnew]
      simp [hnew]
    · have hrepeated := not_not.mp (mt (newAt_iff_not_repeatedAt hi).mpr hnew)
      rw [distinctBefore_succ_of_repeatedAt hrepeated]
      simp only [hnew, and_false, iff_false]
      omega

theorem repetitionsLast_iff :
    RepetitionsLast names ↔ ∀ j, NewAt names j → distinctBefore names j = j := by
  constructor
  · intro h j hj
    refine (distinctBefore_eq_iff hj.lt_length.le).mpr ?_
    intro i hij hi
    exact Nat.lt_asymm hij (h i j hi hj)
  · intro h i j hi hj
    have hbefore := (distinctBefore_eq_iff hj.lt_length.le).mp (h j hj)
    refine Nat.lt_of_not_le fun hij => ?_
    rcases hij.lt_or_eq with hlt | rfl
    · exact hbefore i hlt hi
    · exact (newAt_iff_not_repeatedAt hj.lt_length).mp hj hi

theorem distinctBefore_length (names : List String) :
    distinctBefore names names.length = names.toFinset.card := by
  rw [distinctBefore, List.take_length]

/-- All repetitions come last if the positions of new names are below the number of names. -/
theorem repetitionsLast_iff_lt :
    RepetitionsLast names ↔ ∀ j, NewAt names j → j < names.toFinset.card := by
  rw [repetitionsLast_iff, ← distinctBefore_length]
  constructor
  · intro h j hj
    calc j = distinctBefore names j := (h j hj).symm
      _ < distinctBefore names names.length := distinctBefore_lt hj hj.lt_length
  · intro h
    have hle := distinctBefore_le names names.length
    -- From the last new name on, the number of different names does not change.
    have hconst : ∀ k ≥ distinctBefore names names.length, k ≤ names.length →
        distinctBefore names k =
          distinctBefore names (distinctBefore names names.length) := by
      intro k hk
      induction k, hk using Nat.le_induction with
      | base => exact fun _ => rfl
      | succ k hk ih =>
        intro hlt
        have hrepeated : RepeatedAt names k := by
          by_contra hrepeated
          exact (h k ((newAt_iff_not_repeatedAt hlt).mpr hrepeated)).not_ge hk
        rw [distinctBefore_succ_of_repeatedAt hrepeated, ih (Nat.le_of_succ_le hlt)]
    have hfull := (distinctBefore_eq_iff hle).mp (hconst names.length hle le_rfl).symm
    intro j hj
    refine (distinctBefore_eq_iff hj.lt_length.le).mpr ?_
    intro i hij
    exact hfull i (hij.trans (h j hj))

/-! ## The two registries -/

/-- A registry that numbers first positions in ascending order is numbered by them. -/
theorem numberedBy_of_numbers {number : ℕ → ℕ} {r : NameRegistry}
    (hnumbers : r.numbers = (firstOccurrences names).map fun e => (e.1, number e.2))
    (hmono : ∀ i j, NewAt names i → i < j → number i < number j) : NumberedBy names number r where
  names_eq := by
    have hnames : r.numbers.map Prod.fst = r.entries.map Prod.fst := List.map_map
    rw [← hnames, hnumbers, List.map_map, ← map_fst_firstOccurrences]
    rfl
  size_eq := by
    have hsize : r.size = r.numbers.length := List.length_map _ |>.symm
    rw [hsize, hnumbers, List.length_map, length_firstOccurrences]
  number?_eq name := by
    rw [NameRegistry.number?_eq_lookup, hnumbers, lookup_map_value, lookup_firstOccurrences]
  ascending := by
    have hascending : (r.numbers.map Prod.snd).Pairwise (· < ·) := by
      rw [hnumbers, List.map_map, List.pairwise_map]
      refine (pairwise_firstOccurrences names).imp_of_mem ?_
      intro e e' he _ hlt
      exact hmono _ _ (mem_firstOccurrences he) hlt
    rw [NameRegistry.numbers, List.map_map, List.pairwise_map] at hascending
    rw [List.pairwise_map]
    exact hascending.imp UInt32.lt_iff_toNat_lt.mpr

theorem Positions.Of.numberedBy {found : Positions} (h : found.Of names) :
    NumberedBy names id found.registry :=
  numberedBy_of_numbers (h.numbers_eq.trans (List.map_id _).symm) fun _ _ _ hij => hij

namespace NameRegistry

variable {r r' counts : NameRegistry} {found : Positions}

theorem ext_numbers (h : r.numbers = r'.numbers) : r = r' := by
  have hinjective : Function.Injective fun e : String × UInt32 => (e.1, e.2.toNat) := by
    intro e e' h
    obtain ⟨hname, hnumber⟩ := Prod.mk.inj h
    exact Prod.ext hname (UInt32.toNat_inj.mp hnumber)
  have hentries : r.entries = r'.entries := List.map_injective_iff.mpr hinjective h
  exact congrArg (fun entries => (⟨⟨entries⟩⟩ : NameRegistry)) hentries

theorem collect_concat (names : List String) (last : String) :
    collect (names ++ [last]) = collect names >>= fun r => (register last).left r := by
  simp only [collect, List.foldlM_append, List.foldlM_cons, List.foldlM_nil]
  simp

theorem distinctBefore_pred_concat (names : List String) (last : String) :
    distinctBefore (names ++ [last]) ((names ++ [last]).length - 1) = names.toFinset.card := by
  rw [List.length_append, List.length_singleton, Nat.add_sub_cancel, distinctBefore, List.take_left]

/-- Names are collected as long as there is a next index for the last one. -/
theorem exists_collect (h : distinctBefore names (names.length - 1) < UInt32.size - 1) :
    ∃ counts, collect names = .ok counts ∧
      counts.numbers = (firstOccurrences names).map fun e => (e.1, distinctBefore names e.2) := by
  induction names using List.reverseRecOn with
  | nil => exact ⟨_, rfl, rfl⟩
  | append_singleton names last ih =>
    rw [distinctBefore_pred_concat] at h
    have hbefore : distinctBefore names (names.length - 1) ≤ names.toFinset.card :=
      (distinctBefore_mono (Nat.sub_le ..)).trans_eq (distinctBefore_length names)
    obtain ⟨counts, hcounts, hnumbers⟩ := ih (hbefore.trans_lt h)
    have hnumbered := numberedBy_of_numbers hnumbers fun _ _ => distinctBefore_lt
    rw [← hnumbered.size_eq] at h
    refine ⟨(assign last (UInt32.ofNat counts.size) counts).2, ?_, ?_⟩
    · rw [collect_concat, hcounts, ok_bind, Update.left, register_of_lt last h]
    have hkept : ((firstOccurrences names).map fun e => (e.1, distinctBefore names e.2)) =
        (firstOccurrences names).map fun e => (e.1, distinctBefore (names ++ [last]) e.2) := by
      refine List.map_congr_left ?_
      intro e he
      have hlt := (mem_firstOccurrences he).lt_length
      rw [distinctBefore, distinctBefore, List.take_append_of_le_length hlt.le]
    have hnext : (UInt32.ofNat counts.size).toNat =
        distinctBefore (names ++ [last]) names.length := by
      rw [toNat_ofNat_size h, hnumbered.size_eq, distinctBefore, List.take_left]
    have hfree : counts.get? last = none ↔ last ∉ names := by
      rw [← number?_eq_none_iff, hnumbered.number?_eq, Option.map_eq_none_iff,
        List.idxOf?_eq_none_iff]
    rw [numbers_assign, hnumbers, hkept, hnext, firstOccurrences_concat, List.map_append]
    by_cases hlast : last ∈ names <;> simp [hlast, hfree]

/-- Collecting faults if there is no next index for the last name. -/
theorem collect_eq_error (h : UInt32.size - 1 ≤ distinctBefore names (names.length - 1)) :
    collect names = .error .registryFull := by
  induction names using List.reverseRecOn with
  | nil => exact absurd h (by decide)
  | append_singleton names last ih =>
    rw [distinctBefore_pred_concat] at h
    rw [collect_concat]
    by_cases hle : UInt32.size - 1 ≤ distinctBefore names (names.length - 1)
    · rw [ih hle]
      rfl
    · obtain ⟨counts, hcounts, hnumbers⟩ := exists_collect (Nat.lt_of_not_le hle)
      rw [← (numberedBy_of_numbers hnumbers fun _ _ => distinctBefore_lt).size_eq] at h
      rw [hcounts, ok_bind, Update.left, register_of_le last h]

/-- The two registries are equal if no new name stands behind a repetition. -/
theorem positional_eq_collect_iff (hfound : found.Of names)
    (hcounts : counts.numbers =
      (firstOccurrences names).map fun e => (e.1, distinctBefore names e.2)) :
    found.registry = counts ↔ RepetitionsLast names := by
  have hnumbered := numberedBy_of_numbers hcounts fun _ _ => distinctBefore_lt
  rw [repetitionsLast_iff]
  constructor
  · intro h j hj
    obtain ⟨name, hname⟩ := hj
    have hnumber := hfound.number?_eq name
    rw [h, hnumbered.number?_eq, hname] at hnumber
    exact Option.some_inj.mp hnumber
  · intro h
    refine ext_numbers ?_
    rw [hfound.numbers_eq, hcounts]
    refine ((List.map_id _).symm.trans (List.map_congr_left ?_))
    intro e he
    exact Prod.ext rfl (h e.2 (mem_firstOccurrences he)).symm

/-- Both registries hold the names in the order in which they occur first. A name is numbered by
position with the position of its first occurrence, and by collecting with the number of different
names before that. The two numbers are the same if no repetition stands before the name, and so the
two registries are the same if all repetitions come after the last name that is new. Both are there
for every list whose positions are indices. A longer list is numbered by collecting alone, as long
as an index is left for the last name. -/
theorem numberings_correspond (names : List String) :
    (names.length < UInt32.size → ∃ found counts,
      positional (.ofList names) = .ok found ∧ collect names = .ok counts ∧
      NumberedBy names id found.registry ∧ NumberedBy names (distinctBefore names) counts ∧
      found.count = names.length ∧
      (∀ name i, names.idxOf? name = some i →
        (found.registry.get? name = counts.get? name ↔ ∀ j < i, ¬ RepeatedAt names j)) ∧
      (found.registry = counts ↔ RepetitionsLast names)) ∧
    (UInt32.size ≤ names.length → positional (.ofList names) = .error .positionOverflow) ∧
    (distinctBefore names (names.length - 1) < UInt32.size - 1 →
      ∃ counts, collect names = .ok counts ∧ NumberedBy names (distinctBefore names) counts) ∧
    (UInt32.size - 1 ≤ distinctBefore names (names.length - 1) →
      collect names = .error .registryFull) := by
  refine ⟨?_, positional_eq_error, ?_, collect_eq_error⟩
  · intro hlength
    have hbefore : distinctBefore names (names.length - 1) < UInt32.size - 1 := by
      have hle := distinctBefore_le names (names.length - 1)
      have hsize : 1 < UInt32.size := by decide
      omega
    obtain ⟨found, hfound, hof⟩ := exists_positional hlength
    obtain ⟨counts, hcounts, hnumbers⟩ := exists_collect hbefore
    have hnumbered := numberedBy_of_numbers hnumbers fun _ _ => distinctBefore_lt
    refine ⟨found, counts, hfound, hcounts, hof.numberedBy, hnumbered, hof.count_eq, ?_,
      positional_eq_collect_iff hof hnumbers⟩
    intro name i hi
    rw [← number?_inj, hof.number?_eq, hnumbered.number?_eq, hi, Option.map_some, Option.some_inj,
      eq_comm]
    exact distinctBefore_eq_iff (NewAt.lt_length ⟨name, hi⟩).le
  · intro hbefore
    obtain ⟨counts, hcounts, hnumbers⟩ := exists_collect hbefore
    exact ⟨counts, hcounts, numberedBy_of_numbers hnumbers fun _ _ => distinctBefore_lt⟩

/-- After a repetition the two numbers of a name differ. -/
theorem numberings_correspond_revisit :
    ["a", "b", "a", "c"].idxOf? "b" = some 1 ∧ ["a", "b", "a", "c"].idxOf? "c" = some 3 ∧
      ∃ found counts, positional (.ofList ["a", "b", "a", "c"]) = .ok found ∧
        collect ["a", "b", "a", "c"] = .ok counts ∧
        found.registry.get? "b" = counts.get? "b" ∧ found.registry.get? "c" ≠ counts.get? "c" ∧
        found.registry ≠ counts := by
  have hb : ["a", "b", "a", "c"].idxOf? "b" = some 1 := by decide
  have hc : ["a", "b", "a", "c"].idxOf? "c" = some 3 := by decide
  have hrepeated : RepeatedAt ["a", "b", "a", "c"] 2 := ⟨"a", rfl, by decide⟩
  obtain ⟨found, counts, hfound, hcounts, -, -, -, hindex, hsame⟩ :=
    (numberings_correspond ["a", "b", "a", "c"]).1 (by decide)
  refine ⟨hb, hc, found, counts, hfound, hcounts, (hindex "b" 1 hb).mpr ?_, ?_, ?_⟩
  · rintro j hj ⟨name, hname, hbefore⟩
    obtain rfl : j = 0 := by omega
    exact List.not_mem_nil hbefore
  · intro h
    exact (hindex "c" 3 hc).mp h 2 (by decide) hrepeated
  · intro h
    exact absurd (hsame.mp h 2 3 hrepeated ⟨"c", hc⟩) (by decide)

end NameRegistry

end PetriAnalysis
