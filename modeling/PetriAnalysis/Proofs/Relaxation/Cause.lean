import PetriAnalysis.Proofs.Relaxation.Pacing

/-!
# Why constructions fail

A construction that gives up reports a reason. Behind each reason there is a fact about this
construction: the look at the budget that finds it expired first, a marking of another length, a
request for a program that is answered by none, or a step that the backend refuses. Whatever the
reason, the looks at the budget before it have left time, and the clock has been read at these
looks only.

## Main definitions

* `Cause net marking budget c allocated reason looks` — the fact behind a reason, and the number
  of looks at the budget before it is reported.
-/

namespace PetriAnalysis

variable {N L C : Type}

/-- A step that gives up has not done so in looking at the net. -/
theorem exists_of_observed_bind {α β : Type} {x : Except Fault α} {f : α → Except BuildError β}
    {reason : Abort} (h : (observed x >>= f) = .error (.abort reason)) :
    ∃ a, x = .ok a ∧ f a = .error (.abort reason) := by
  rcases bind_eq_error_iff.mp h with h | ⟨a, ha, h⟩
  · exact absurd h observed_ne_abort
  · exact ⟨a, observed_eq_ok_iff.mp ha, h⟩

/-- Neither has it done so in appending rows or columns. -/
theorem exists_of_appended_bind {β : Type} {lp : L} {act : Update L ℕ}
    {f : ℕ × L → Except BuildError β} {reason : Abort}
    (h : (appended lp act >>= f) = .error (.abort reason)) :
    ∃ first lp', act lp = .ok first lp' ∧ f (first, lp') = .error (.abort reason) := by
  rcases bind_eq_error_iff.mp h with h | ⟨⟨first, lp'⟩, hact, h⟩
  · exact absurd h appended_ne_abort
  · exact ⟨first, lp', appended_eq_ok_iff.mp hact, h⟩

theorem rejected_of_changed {lp : L} {act : LpUpdate L Unit} {reason : Abort}
    (h : changed lp act = .error (.abort reason)) : ∃ e, reason = .rejected e := by
  rw [changed] at h
  split at h
  · cases h
  · next e lp' _ =>
    cases h
    exact ⟨e, rfl⟩

variable [PetriNet N] [LinearProgram L]

/-- The fact behind each reason to give up a construction, for which `allocated` is what the backend
answers when it is asked for a program, and the number of looks at the budget until then. -/
inductive Cause [Clock C] (net : N) (marking : List Weight) (budget : UInt32) (c : C)
    (allocated : Option L) : Abort → ℕ → Prop where
  /-- The first look that finds the budget expired follows so many steps of the stage. -/
  | expired (k : ℕ) (poll : Poll) (hpoll : (polls net marking allocated)[k]? = some poll)
      (h : FirstExpired budget c k) :
    Cause net marking budget c allocated (.expired poll.1 poll.2) (k + 1)
  | markingLength (htime : ¬ Expired budget (Clock.reading c 0))
      (h : marking.length ≠ PetriNet.numPlaces net) :
    Cause net marking budget c allocated
      (.markingLength (PetriNet.numPlaces net) marking.length) 1
  | unallocated (htime : ¬ Expired budget (Clock.reading c 0))
      (hlength : marking.length = PetriNet.numPlaces net) (h : allocated = none) :
    Cause net marking budget c allocated .unallocated 1
  /-- The backend refuses a change that a step makes. -/
  | rejected (e : LpError)
      (htime : ∀ k < (polls net marking allocated).length, ¬ Expired budget (Clock.reading c k))
      (h : untimed net marking allocated = .error (.abort (.rejected e))) :
    Cause net marking budget c allocated (.rejected e) (polls net marking allocated).length

section

variable {net : N} {marking : List Weight} {allocated : Option L} {lp : L} {reason : Abort}

/-! ## Steps that give up -/

theorem rejected_of_fillColumn {t : ℕ} (h : fillColumn net lp t = .error (.abort reason)) :
    ∃ e, reason = .rejected e := by
  obtain ⟨transition, -, h⟩ := exists_of_observed_bind h
  obtain ⟨effects, -, h⟩ := exists_of_observed_bind h
  exact rejected_of_changed h

theorem rejected_of_boundStateRow {entry : Weight × ℕ}
    (h : boundStateRow lp entry = .error (.abort reason)) : ∃ e, reason = .rejected e := by
  obtain ⟨place, -, h⟩ := exists_of_observed_bind h
  exact rejected_of_changed h

theorem rejected_of_fillEffectRow {first p : ℕ}
    (h : fillEffectRow net first lp p = .error (.abort reason)) : ∃ e, reason = .rejected e := by
  obtain ⟨place, -, h⟩ := exists_of_observed_bind h
  obtain ⟨entries, -, h⟩ := exists_of_observed_bind h
  obtain ⟨row, -, h⟩ := exists_of_observed_bind h
  rcases bind_eq_error_iff.mp h with h | ⟨lp', -, h⟩
  · exact rejected_of_changed h
  · exact rejected_of_changed h

theorem blank_ne_abort {places transitions : ℕ} :
    blank places transitions lp ≠ .error (.abort reason) := by
  intro h
  obtain ⟨cols, -, h⟩ := exists_of_observed_bind h
  obtain ⟨first, lp', -, h⟩ := exists_of_appended_bind h
  obtain ⟨rows, -, h⟩ := exists_of_observed_bind h
  obtain ⟨first', lp'', -, h⟩ := exists_of_appended_bind h
  cases h

/-- The reasons for which no stage is begun. -/
theorem reason_of_begun (h : begun net marking allocated = .error (.abort reason)) :
    (marking.length ≠ PetriNet.numPlaces net ∧
      reason = .markingLength (PetriNet.numPlaces net) marking.length) ∨
    (marking.length = PetriNet.numPlaces net ∧ allocated = none ∧ reason = .unallocated) := by
  by_cases hlength : marking.length = PetriNet.numPlaces net
  · simp only [begun, if_pos hlength] at h
    cases allocated with
    | none =>
      cases h
      exact .inr ⟨hlength, rfl, rfl⟩
    | some lp => exact absurd h blank_ne_abort
  · simp only [begun, if_neg hlength] at h
    cases h
    exact .inl ⟨hlength, rfl⟩

/-- Steps give up for a reason that `begun` has, or because the backend refuses a change. -/
theorem reason_of_untimed (h : untimed net marking allocated = .error (.abort reason)) :
    begun net marking allocated = .error (.abort reason) ∨ ∃ e, reason = .rejected e := by
  rcases bind_eq_error_iff.mp h with h | ⟨lp₀, -, h⟩
  · exact .inl h
  rcases bind_eq_error_iff.mp h with h | ⟨lp₁, -, h⟩
  · obtain ⟨lp, t, h⟩ := exists_of_foldlM_error h
    exact .inr (rejected_of_fillColumn h)
  rcases bind_eq_error_iff.mp h with h | ⟨lp₂, -, h⟩
  · obtain ⟨lp, entry, h⟩ := exists_of_foldlM_error h
    exact .inr (rejected_of_boundStateRow h)
  obtain ⟨first, lp', -, h⟩ := exists_of_appended_bind h
  obtain ⟨lp, p, h⟩ := exists_of_foldlM_error h
  exact .inr (rejected_of_fillEffectRow h)

end

/-! ## Constructions that give up -/

/-- A construction for which no stage is begun looks at the budget once. -/
theorem polls_of_begun_error {net : N} {marking : List Weight} {allocated : Option L}
    {e : BuildError} (h : begun net marking allocated = .error e) :
    polls net marking allocated = [(.setup, 0)] := by
  rw [polls, h]

/-- Every failure that is reported has its cause. -/
theorem cause_of_build [Clock C] {net : N} {marking : List Weight} {budget : UInt32}
    {allocated : Option L} {c c' : C} {reason : Abort}
    (h : build net marking budget allocated c = .error (.abort reason) c') :
    ∃ looks, Cause net marking budget c allocated reason looks ∧ c' = Clock.after c looks := by
  rcases error_of_build h with ⟨hsteps, htime, hclock⟩ | ⟨k, poll, hpoll, hfirst, hreason, hclock⟩
  · refine ⟨_, ?_, hclock⟩
    have hstart := htime 0 (Nat.succ_pos _)
    rcases reason_of_untimed hsteps with hbegun | ⟨e, rfl⟩
    · rw [polls_of_begun_error hbegun]
      obtain ⟨hlength, rfl⟩ | ⟨hlength, hnone, rfl⟩ := reason_of_begun hbegun
      · exact .markingLength hstart hlength
      · exact .unallocated hstart hlength hnone
    · exact .rejected e htime hsteps
  · cases hreason
    exact ⟨k + 1, .expired k poll hpoll hfirst, hclock⟩

end PetriAnalysis
