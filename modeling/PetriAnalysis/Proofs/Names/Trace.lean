import Mathlib.Data.List.Induction
import PetriAnalysis.Names.Trace
import PetriAnalysis.Proofs.Names.Positions
import PetriAnalysis.Proofs.Transcript

/-!
# Names of traces along a session

What a table of trace names answers is told by the creations before: a declaration succeeds if its
name has not been created, and then takes the number of creations as its number, as long as that is
one of 32 bits; a use answers what the creation of its name answered. The table lists the creations
in order. Calls that fail and calls that use a name leave the table as it is.

## Main definitions

* `TraceCall`, `TraceCall.perform` — declarations and uses.
* `created log` — the creations in a transcript.
* `creates entry` — tells the creations from the other calls.
* `TraceLaw log t` — a transcript against the creations in it, and the table in the end.
-/

namespace PetriAnalysis

/-- A call on a table of trace names. -/
structure TraceCall where
  name : String
  /-- Tells a declaration from a use. -/
  create : Bool

/-- What a call is answered, unless it faults: a number, or an error. -/
abbrev TraceAnswer := Except Fault (Except QueryError UInt32)

/-- Makes a call. -/
def TraceCall.perform (call : TraceCall) (t : TraceNames) : TraceAnswer × TraceNames :=
  answered (TraceNames.resolve call.name call.create t)

/-- The name and the number of a creation. -/
def creation? : TraceCall × TraceAnswer → Option (String × UInt32)
  | (⟨name, true⟩, .ok (.ok k)) => some (name, k)
  | _ => none

/-- The creations in a transcript, in order. -/
def created (log : List (TraceCall × TraceAnswer)) : List (String × UInt32) :=
  log.filterMap creation?

/-- Tells whether a call in a transcript has created a name. -/
def creates (entry : TraceCall × TraceAnswer) : Bool := (creation? entry).isSome

/-- The answers in the transcript are those that the creations before them call for, and the table
lists all creations. A declaration faults if there are so many creations that no number is left. -/
structure TraceLaw (log : List (TraceCall × TraceAnswer)) (t : TraceNames) : Prop where
  declared : ∀ i name answer, log[i]? = some (⟨name, true⟩, answer) →
    answer = if UInt32.size - 1 ≤ (created (log.take i)).length then .error .registryFull
      else if name ∈ (created (log.take i)).map Prod.fst then .ok (.error (.duplicateTrace name))
      else .ok (.ok (UInt32.ofNat (created (log.take i)).length))
  used : ∀ i name answer, log[i]? = some (⟨name, false⟩, answer) →
    answer = match (created (log.take i)).lookup name with
      | some k => .ok (.ok k)
      | none => .ok (.error (.undeclaredTrace name))
  entries_eq : t.entries = created log
  /-- The creations are numbered from zero, without a gap. -/
  numbers_eq : (created log).map (fun e => e.2.toNat) = List.range (created log).length
  distinct : ((created log).map Prod.fst).Nodup

theorem created_concat (log : List (TraceCall × TraceAnswer)) (entry : TraceCall × TraceAnswer) :
    created (log ++ [entry]) = created log ++ (creation? entry).toList := by
  rw [created, List.filterMap_append]
  cases h : creation? entry <;> simp [h, created]

namespace TraceNames

variable {t : TraceNames} {name : String}

theorem get?_eq_none_iff : t.get? name = none ↔ name ∉ t.entries.map Prod.fst :=
  NameTable.get?_eq_none_iff

/-- A declaration faults if no number is left. -/
theorem declare_of_le (h : UInt32.size - 1 ≤ t.size) :
    TraceCall.perform ⟨name, true⟩ t = (.error .registryFull, t) := by
  simp only [TraceCall.perform, resolve, NameRegistry.insertNew_of_le (r := t.registry) name h]
  rfl

/-- A new name is declared under the number of names. -/
theorem declare_of_none (hroom : t.size < UInt32.size - 1) (h : t.get? name = none) :
    TraceCall.perform ⟨name, true⟩ t =
      (.ok (.ok (UInt32.ofNat t.size)), ⟨⟨⟨t.entries ++ [(name, UInt32.ofNat t.size)]⟩⟩⟩) := by
  have hname : t.registry.get? name = none := h
  simp only [TraceCall.perform, resolve,
    NameRegistry.insertNew_of_lt (r := t.registry) name hroom, if_pos hname,
    NameRegistry.assign_of_none hname]
  rfl

theorem declare_of_ne_none (hroom : t.size < UInt32.size - 1) (h : t.get? name ≠ none) :
    TraceCall.perform ⟨name, true⟩ t = (.ok (.error (.duplicateTrace name)), t) := by
  have hname : t.registry.get? name ≠ none := h
  simp only [TraceCall.perform, resolve,
    NameRegistry.insertNew_of_lt (r := t.registry) name hroom, if_neg hname,
    NameRegistry.assign_of_ne_none hname]
  rfl

theorem use_eq (t : TraceNames) (name : String) :
    TraceCall.perform ⟨name, false⟩ t = (match t.get? name with
      | some k => .ok (.ok k)
      | none => .ok (.error (.undeclaredTrace name)), t) := by
  simp only [TraceCall.perform, resolve]
  cases t.get? name <;> rfl

/-- What a declaration can do: it faults, adds the name, or finds that it is there. -/
theorem declare_cases (t : TraceNames) (name : String) :
    (UInt32.size - 1 ≤ t.size ∧ TraceCall.perform ⟨name, true⟩ t = (.error .registryFull, t)) ∨
    (t.size < UInt32.size - 1 ∧ name ∉ t.entries.map Prod.fst ∧
      TraceCall.perform ⟨name, true⟩ t =
        (.ok (.ok (UInt32.ofNat t.size)), ⟨⟨⟨t.entries ++ [(name, UInt32.ofNat t.size)]⟩⟩⟩)) ∨
    (t.size < UInt32.size - 1 ∧ name ∈ t.entries.map Prod.fst ∧
      TraceCall.perform ⟨name, true⟩ t = (.ok (.error (.duplicateTrace name)), t)) := by
  by_cases hroom : t.size < UInt32.size - 1
  · by_cases h : t.get? name = none
    · exact .inr (.inl ⟨hroom, get?_eq_none_iff.mp h, declare_of_none hroom h⟩)
    · refine .inr (.inr ⟨hroom, ?_, declare_of_ne_none hroom h⟩)
      rwa [get?_eq_none_iff, not_not] at h
  · exact .inl ⟨Nat.le_of_not_lt hroom, declare_of_le (Nat.le_of_not_lt hroom)⟩

theorem declare_answer (t : TraceNames) (name : String) :
    (TraceCall.perform ⟨name, true⟩ t).1 =
      if UInt32.size - 1 ≤ t.entries.length then .error .registryFull
      else if name ∈ t.entries.map Prod.fst then .ok (.error (.duplicateTrace name))
      else .ok (.ok (UInt32.ofNat t.entries.length)) := by
  have hsize : t.size = t.entries.length := rfl
  rw [← hsize]
  obtain ⟨hfull, h⟩ | ⟨hroom, hname, h⟩ | ⟨hroom, hname, h⟩ := declare_cases t name
  · rw [h, if_pos hfull]
  · rw [h, if_neg (Nat.not_le.mpr hroom), if_neg hname]
  · rw [h, if_neg (Nat.not_le.mpr hroom), if_pos hname]

/-- A call appends its creation, if it is one. -/
theorem entries_perform (call : TraceCall) (t : TraceNames) :
    (call.perform t).2.entries =
      t.entries ++ (creation? (call, (call.perform t).1)).toList := by
  obtain ⟨name, create⟩ := call
  cases create with
  | false =>
    rw [use_eq]
    cases t.get? name <;> simp [creation?]
  | true =>
    obtain ⟨-, h⟩ | ⟨-, -, h⟩ | ⟨-, -, h⟩ := declare_cases t name
    · simp [h, creation?]
    · rw [h]
      rfl
    · simp [h, creation?]

/-- A call that creates no name leaves the table as it is. -/
theorem perform_idle (call : TraceCall) (t : TraceNames)
    (h : creates (call, (call.perform t).1) = false) : (call.perform t).2 = t := by
  have hnone : creation? (call, (call.perform t).1) = none := Option.not_isSome_iff_eq_none.mp (by
    simpa [creates] using h)
  have hentries : (call.perform t).2.entries = t.entries := by
    rw [entries_perform, hnone, Option.toList_none, List.append_nil]
  exact congrArg (fun entries => (⟨⟨⟨entries⟩⟩⟩ : TraceNames)) hentries

/-- The names are distinct and are numbered from zero, without a gap. -/
structure Dense (t : TraceNames) : Prop where
  numbers_eq : t.entries.map (fun e => e.2.toNat) = List.range t.entries.length
  distinct : (t.entries.map Prod.fst).Nodup

theorem dense_empty : Dense .empty := ⟨rfl, List.nodup_nil⟩

theorem Dense.perform (h : Dense t) (call : TraceCall) : Dense (call.perform t).2 := by
  obtain ⟨name, create⟩ := call
  cases create with
  | false => rwa [use_eq]
  | true =>
    obtain ⟨-, hperform⟩ | ⟨hroom, hname, hperform⟩ | ⟨-, -, hperform⟩ := declare_cases t name
    · rwa [hperform]
    · have hnumber : (UInt32.ofNat t.size).toNat = t.entries.length :=
        NameRegistry.toNat_ofNat_size (r := t.registry) hroom
      rw [hperform]
      constructor
      · change (t.entries ++ [(name, UInt32.ofNat t.size)]).map (fun e => e.2.toNat) =
          List.range (t.entries ++ [(name, UInt32.ofNat t.size)]).length
        rw [List.map_append, h.numbers_eq, List.map_singleton, hnumber, List.length_append,
          List.length_singleton, List.range_succ]
      · change ((t.entries ++ [(name, UInt32.ofNat t.size)]).map Prod.fst).Nodup
        simpa using h.distinct.concat hname
    · rwa [hperform]

end TraceNames

/-! ## Sessions -/

theorem dense_stateAfter (calls : List TraceCall) :
    TraceNames.Dense (stateAfter TraceCall.perform calls .empty) := by
  induction calls using List.reverseRecOn with
  | nil => exact TraceNames.dense_empty
  | append_singleton calls call ih =>
    rw [stateAfter_concat]
    exact ih.perform call

/-- A session fills the table with its creations. -/
theorem entries_stateAfter (calls : List TraceCall) :
    (stateAfter TraceCall.perform calls .empty).entries =
      created (transcript TraceCall.perform calls .empty) := by
  induction calls using List.reverseRecOn with
  | nil => rfl
  | append_singleton calls call ih =>
    rw [stateAfter_concat, transcript_concat, TraceNames.entries_perform, ih, created_concat]

/-- A call is answered by a table that lists the creations before it. -/
theorem answer_from_entries {calls : List TraceCall} {i : ℕ} {call : TraceCall}
    {answer : TraceAnswer}
    (h : (transcript TraceCall.perform calls .empty)[i]? = some (call, answer)) :
    ∃ t : TraceNames, answer = (call.perform t).1 ∧
      t.entries = created ((transcript TraceCall.perform calls .empty).take i) := by
  refine ⟨stateAfter TraceCall.perform (calls.take i) .empty, answer_of_getElem? h, ?_⟩
  rw [take_transcript, entries_stateAfter]

/-- Every session that begins without names follows the law. -/
theorem traceLaw (calls : List TraceCall) :
    TraceLaw (transcript TraceCall.perform calls .empty)
      (stateAfter TraceCall.perform calls .empty) := by
  have hentries := entries_stateAfter calls
  have hdense := dense_stateAfter calls
  constructor
  case declared =>
    intro i name answer h
    obtain ⟨t, hanswer, ht⟩ := answer_from_entries h
    rw [hanswer, TraceNames.declare_answer, ht]
  case used =>
    intro i name answer h
    obtain ⟨t, hanswer, ht⟩ := answer_from_entries h
    rw [hanswer, TraceNames.use_eq, ← ht]
    rfl
  case entries_eq => exact hentries
  case numbers_eq => exact hentries ▸ hdense.numbers_eq
  case distinct => exact hentries ▸ hdense.distinct

end PetriAnalysis
