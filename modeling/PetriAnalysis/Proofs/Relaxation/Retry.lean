import Mathlib.Order.Monotone.Basic
import PetriAnalysis.Proofs.Relaxation.Polling

/-!
# Retrying after the budget has expired

A request that fails leaves nothing behind, so the next one starts again. It cannot succeed if
the earlier one failed for want of time: while time never goes back, a budget that has once been
found expired is found expired at every later look. From then on each request ends at its first
look, before the backend is asked for anything.

## Main definitions

* `NeverBack c` — the readings of a clock never decrease.
* `Advanced r r'` — the clock has only been read on, and the budget is the same.
* `Spent r` — nothing is kept, and the budget is expired from now on.
-/

namespace PetriAnalysis

variable {N L C : Type} [Clock C]

/-! ## Time -/

/-- The readings of the clock never decrease. -/
def NeverBack (c : C) : Prop := Monotone fun k => (Clock.reading c k).nanoseconds

namespace NeverBack

variable {c : C}

theorem after (h : NeverBack c) (i : ℕ) : NeverBack (Clock.after c i) := by
  intro j k hjk
  simp only [Clock.reading_after]
  exact h (Nat.add_le_add_left hjk i)

/-- A budget that has expired stays so. -/
theorem expired (h : NeverBack c) {budget : UInt32} {i j : ℕ} (hij : i ≤ j)
    (hi : Expired budget (Clock.reading c i)) : Expired budget (Clock.reading c j) :=
  Nat.le_trans hi (Nat.div_le_div_right (h hij))

end NeverBack

/-- A clock that advances by a fixed step never goes back. -/
theorem neverBack_stepping (c : SteppingClock) : NeverBack c := by
  refine monotone_nat_of_le_succ ?_
  intro k
  rw [← Clock.reading_after c k 1]
  exact Nat.le_add_right _ _

/-! ## Calls and the clock -/

/-- The clock of `r'` is that of `r` after some readings, and the budget is the same. -/
structure Advanced (r r' : Relaxation N L C) : Prop where
  clock_eq : ∃ k, r'.clock = Clock.after r.clock k
  lpBudget_eq : r'.lpBudget = r.lpBudget

section

variable [PetriNet N] [LinearProgram L]

/-- Every call only reads the clock on. -/
theorem Step.advanced {r r' : Relaxation N L C} {call : Call} {seen : Seen L}
    (h : Step r call seen r') : Advanced r r' := by
  cases h with
  | hit => exact ⟨⟨0, rfl⟩, rfl⟩
  | built | failed | faulted | other => exact ⟨⟨_, rfl⟩, rfl⟩

theorem after_neverBack {r : Relaxation N L C} (h : NeverBack r.clock) (calls : List Call) :
    NeverBack (r.after calls).clock := by
  induction calls generalizing r with
  | nil => exact h
  | cons call calls ih =>
    obtain ⟨k, hk⟩ := (step r call).advanced.clock_eq
    exact ih (hk ▸ h.after k)

/-! ## Spent budgets -/

/-- Nothing is kept, and every reading from now on finds the budget expired. -/
structure Spent (r : Relaxation N L C) : Prop where
  base_eq : r.base = none
  expired : ∀ k, Expired r.lpBudget (Clock.reading r.clock k)

/-- A request that has run out of time leaves a spent budget. -/
theorem Step.spent {r r' : Relaxation N L C} {seen : Seen L} (h : Step r .baseProgram seen r')
    {stage : Stage} {done : ℕ} (hlog : seen.log = [.failed (.expired stage done)])
    (hclock : NeverBack r.clock) : Spent r' := by
  cases h with
  | failed reason looks hbase hcause =>
    cases hlog
    obtain ⟨k, poll, -, hfirst⟩ := hcause
    refine ⟨hbase, ?_⟩
    intro j
    rw [Clock.reading_after]
    exact hclock.expired (by omega) hfirst.expired
  | hit | built | faulted => cases hlog
  | other call answer reads negated hcall => exact absurd rfl hcall

namespace Spent

variable {r : Relaxation N L C}

/-- On a spent budget a request ends at its first look. -/
theorem request (h : Spent r) : Call.baseProgram.perform r =
    (⟨.ok (.base none), [.failed (.expired .setup 0)]⟩,
      { r with clock := Clock.after r.clock 1 }) := by
  have hfirst : FirstExpired r.lpBudget r.clock 0 := ⟨h.expired 0, by simp⟩
  exact perform_of_abort h.base_eq (build_of_firstExpired rfl hfirst)

theorem step (h : Spent r) (call : Call) : Spent (call.perform r).2 := by
  have hstep := PetriAnalysis.step r call
  obtain ⟨⟨k, hk⟩, hbudget⟩ := hstep.advanced
  refine ⟨?_, ?_⟩
  · by_cases hcall : call = .baseProgram
    · subst hcall
      rw [h.request]
      exact h.base_eq
    · rw [(hstep.silent hcall).2, h.base_eq]
  · intro j
    rw [hk, hbudget, Clock.reading_after]
    exact h.expired (k + j)

theorem after (h : Spent r) (calls : List Call) : Spent (r.after calls) := by
  induction calls generalizing r with
  | nil => exact h
  | cons call calls ih => exact ih (h.step call)

end Spent

end

variable [PetriNet N] [LinearProgram L]

/-- While time never goes back, a request that has run out of time is the last one that does
anything. After any later calls nothing is kept, and a request ends at its first look, with one
reading; whatever the backend is by then, nothing is asked of it. -/
theorem retry_in_vain (net : N) (marking : List Weight) (lpBudget potencyBudget : UInt32)
    (clock : C) (hclock : NeverBack clock) (earlier : List Call) (stage : Stage) (done : ℕ)
    (hexpired : (Call.baseProgram.perform
      (session L net marking lpBudget potencyBudget clock earlier)).1.log =
        [.failed (.expired stage done)]) (later : List Call) :
    let r := session L net marking lpBudget potencyBudget clock (earlier ++ .baseProgram :: later);
    r.base = none ∧ ∀ backend : LinearProgram L,
      @Call.perform N L C _ backend _ .baseProgram r =
        (⟨.ok (.base none), [.failed (.expired .setup 0)]⟩,
          { r with clock := Clock.after r.clock 1 }) := by
  intro r
  have hstart : NeverBack
      (session L net marking lpBudget potencyBudget clock earlier).clock :=
    after_neverBack hclock earlier
  have hspent : Spent r := by
    simp only [r, session, Relaxation.after, List.foldl_append, List.foldl_cons]
    exact ((step_baseProgram _).spent hexpired hstart).after later
  exact ⟨hspent.base_eq, fun backend => hspent.request⟩

/-- A belt with a budget of two seconds and a clock that advances by a second at each reading. -/
theorem retry_in_vain_belt :
    let clock : SteppingClock := ⟨.ofParts 0 0, .ofParts 1 0, 0⟩;
    let r := session SparseLp belt [2, 0] 2 0 clock [.baseProgram, .lpExpired];
    NeverBack clock ∧
      (Call.baseProgram.perform (session SparseLp belt [2, 0] 2 0 clock [])).1.log =
        [.failed (.expired .columns 2)] ∧
      r.base = none ∧ (Call.baseProgram.perform r).1.log = [.failed (.expired .setup 0)] := by
  intro clock r
  have hclock : NeverBack clock := neverBack_stepping clock
  have hn : belt.WellFormed := by decide
  obtain ⟨lp, huntimed⟩ : ∃ lp, untimed belt [2, 0] (some SparseLp.empty) = .ok lp :=
    hn.sortedArcs.encodable.exists_untimed hn.observable rfl
  have hfirst : FirstExpired 2 clock 2 := ⟨by decide, by decide⟩
  have hperform : Call.baseProgram.perform (session SparseLp belt [2, 0] 2 0 clock []) = _ :=
    perform_of_firstExpired rfl huntimed (by decide) hfirst
  have hexpired : (Call.baseProgram.perform (session SparseLp belt [2, 0] 2 0 clock [])).1.log =
      [.failed (.expired .columns 2)] := by rw [hperform]; rfl
  obtain ⟨hbase, hrequest⟩ := retry_in_vain belt [2, 0] 2 0 clock hclock [] .columns 2 hexpired
    [.lpExpired]
  exact ⟨hclock, hexpired, hbase, congrArg (·.1.log) (hrequest inferInstance)⟩

end PetriAnalysis
