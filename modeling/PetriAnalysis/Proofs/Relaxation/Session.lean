import PetriAnalysis.Proofs.Relaxation.Cause
import PetriAnalysis.Relaxation.Basic

/-!
# Sessions with a cached relaxation

A session is a sequence of calls on one analysis. A request for the base program answers a copy of
what is kept, and else constructs it: it keeps and answers what the steps of the construction make,
or reports why there is nothing. The other calls keep to the clock. What is kept was made from the
net, the marking and a program that the backend has allocated.

## Main definitions

* `Call`, `Call.perform`, `Seen` — the calls, and what is seen of them.
* `session net marking lpBudget potencyBudget clock calls` — an analysis after some calls.
* `Step r call seen r'` — what a call shows and leaves, and when.
* `Answered net marking lp` — some session answers the program.
-/

namespace PetriAnalysis

variable {N L C : Type}

/-- The calls of a session. -/
inductive Call where
  | baseProgram
  | lpExpired
  | potencyExpired
  | elapsedSeconds
  | setNegated (negated : Bool)
  | hasBase

/-- What a call answers. -/
inductive Answer (L : Type) where
  | base (lp? : Option L)
  | flag (b : Bool)
  | seconds (s : Float)
  | done

/-- What is seen of a call: its answer, unless it faults, and what it logs. -/
structure Seen (L : Type) where
  answer : Except Fault (Answer L)
  log : List BaseRecord

/-- What is seen of a request for the base program. -/
def Seen.ofRequest : EStateM.Result Fault (Relaxation N L C) (Option L × BaseRecord) →
    Seen L × Relaxation N L C
  | .ok (lp?, record) r => (⟨.ok (.base lp?), [record]⟩, r)
  | .error e r => (⟨.error e, []⟩, r)

/-! ## Calls -/

section

variable [PetriNet N] [LinearProgram L] [Clock C]

/-- Makes a call. -/
def Call.perform : Call → Relaxation N L C → Seen L × Relaxation N L C
  | .baseProgram, r => Seen.ofRequest r.baseProgram
  | .lpExpired, r =>
    let (b, r') := (Relaxation.lpExpired : StateM (Relaxation N L C) Bool) r
    (⟨.ok (.flag b), []⟩, r')
  | .potencyExpired, r =>
    let (b, r') := (Relaxation.potencyExpired : StateM (Relaxation N L C) Bool) r
    (⟨.ok (.flag b), []⟩, r')
  | .elapsedSeconds, r =>
    let (s, r') := (Relaxation.elapsedSeconds : StateM (Relaxation N L C) Float) r
    (⟨.ok (.seconds s), []⟩, r')
  | .setNegated negated, r =>
    let ((), r') := (Relaxation.setNegated negated : StateM (Relaxation N L C) Unit) r
    (⟨.ok .done, []⟩, r')
  | .hasBase, r => (⟨.ok (.flag r.hasBase), []⟩, r)

/-- The analysis after some calls. -/
def Relaxation.after (r : Relaxation N L C) (calls : List Call) : Relaxation N L C :=
  calls.foldl (fun r call => (call.perform r).2) r

variable (L) in
/-- A new analysis after some calls. -/
def session (net : N) (marking : List Weight) (lpBudget potencyBudget : UInt32) (clock : C)
    (calls : List Call) : Relaxation N L C :=
  (Relaxation.start net marking lpBudget potencyBudget clock).after calls

/-! ## One request -/

section

variable {r : Relaxation N L C}

/-- A kept program is answered without a look at the clock or the budgets. -/
theorem baseProgram_of_base {lp : L} (hbase : r.base = some lp) :
    r.baseProgram = .ok (some (LinearProgram.copy lp), .reused) r := by
  rw [Relaxation.baseProgram, hbase]

/-- Without a kept program a request constructs one. -/
theorem baseProgram_of_none (hbase : r.base = none) : r.baseProgram = r.buildBase := by
  rw [Relaxation.baseProgram, hbase]

variable {c : C}

/-- A request reports the reason for which its construction is given up. -/
theorem perform_of_abort (hbase : r.base = none) {reason : Abort}
    (hbuild : build r.net r.marking r.lpBudget (LinearProgram.create r.allocations : Option L)
      r.clock = .error (.abort reason) c) :
    Call.baseProgram.perform r = (⟨.ok (.base none), [.failed reason]⟩,
      { r with clock := c, allocations := r.allocations + reason.allocations }) := by
  rw [Call.perform, baseProgram_of_none hbase, Relaxation.buildBase, hbuild]
  rfl

theorem perform_of_fault (hbase : r.base = none) {e : Fault}
    (hbuild : build r.net r.marking r.lpBudget (LinearProgram.create r.allocations : Option L)
      r.clock = .error (.fault e) c) :
    Call.baseProgram.perform r =
      (⟨.error e, []⟩, { r with clock := c, allocations := r.allocations + 1 }) := by
  rw [Call.perform, baseProgram_of_none hbase, Relaxation.buildBase, hbuild]
  rfl

/-- The record of a completed construction takes one more reading. -/
theorem perform_of_built (hbase : r.base = none) {lp : L}
    (hbuild : build r.net r.marking r.lpBudget (LinearProgram.create r.allocations) r.clock =
      .ok lp c) :
    Call.baseProgram.perform r =
      (⟨.ok (.base (some (LinearProgram.copy lp))),
        [.built (LinearProgram.numRows lp) (LinearProgram.numCols lp)
          (Clock.reading c 0).toFloat]⟩,
        { r with
          clock := Clock.after c 1
          base := some lp
          allocations := r.allocations + 1 }) := by
  rw [Call.perform, baseProgram_of_none hbase, Relaxation.buildBase, hbuild]
  rfl

end

/-! ## One call -/

/-- The calls with what is seen of them and what they leave. -/
inductive Step (r : Relaxation N L C) : Call → Seen L → Relaxation N L C → Prop where
  /-- A kept program is copied. -/
  | hit (lp : L) (hbase : r.base = some lp) :
    Step r .baseProgram ⟨.ok (.base (some (LinearProgram.copy lp))), [.reused]⟩ r
  /-- The steps of a construction succeed with time left at every look, and what they make is
  kept. -/
  | built (lp : L) (looks : ℕ) (hbase : r.base = none)
      (hsteps : untimed r.net r.marking (LinearProgram.create r.allocations) = .ok lp)
      (hlooks : looks = 1 + PetriNet.numTransitions r.net + 2 * PetriNet.numPlaces r.net)
      (htime : ∀ k < looks, ¬ Expired r.lpBudget (Clock.reading r.clock k)) :
    Step r .baseProgram
      ⟨.ok (.base (some (LinearProgram.copy lp))),
        [.built (LinearProgram.numRows lp) (LinearProgram.numCols lp)
          (Clock.reading r.clock looks).toFloat]⟩
      { r with
        clock := Clock.after r.clock (looks + 1)
        base := some lp
        allocations := r.allocations + 1 }
  /-- A construction is given up. -/
  | failed (reason : Abort) (looks : ℕ) (hbase : r.base = none)
      (hcause : Cause r.net r.marking r.lpBudget r.clock
        (LinearProgram.create r.allocations : Option L) reason looks) :
    Step r .baseProgram ⟨.ok (.base none), [.failed reason]⟩
      { r with
        clock := Clock.after r.clock looks
        allocations := r.allocations + reason.allocations }
  /-- A step of a construction faults, with time left at every look before it. -/
  | faulted (e : Fault) (looks : ℕ) (hbase : r.base = none)
      (hsteps : untimed r.net r.marking (LinearProgram.create r.allocations : Option L) =
        .error (.fault e))
      (htime : ∀ k < looks, ¬ Expired r.lpBudget (Clock.reading r.clock k)) :
    Step r .baseProgram ⟨.error e, []⟩
      { r with clock := Clock.after r.clock looks, allocations := r.allocations + 1 }
  /-- The other calls log nothing, and at most read the clock or note the negation. -/
  | other (call : Call) (answer : Answer L) (reads : ℕ) (negated : Bool)
      (hcall : call ≠ .baseProgram) :
    Step r call ⟨.ok answer, []⟩ { r with clock := Clock.after r.clock reads, negated }

theorem step_baseProgram (r : Relaxation N L C) :
    Step r .baseProgram (Call.baseProgram.perform r).1 (Call.baseProgram.perform r).2 := by
  cases hbase : r.base with
  | some lp =>
    rw [Call.perform, baseProgram_of_base hbase]
    exact .hit lp hbase
  | none =>
    cases hbuild : build r.net r.marking r.lpBudget
        (LinearProgram.create r.allocations : Option L) r.clock with
    | ok lp c =>
      rw [perform_of_built hbase hbuild]
      obtain ⟨hsteps, htime, rfl⟩ := build_eq_ok_iff.mp hbuild
      rw [Clock.after_after, Clock.reading_after]
      exact .built lp _ hbase hsteps rfl htime
    | error e c =>
      cases e with
      | abort reason =>
        rw [perform_of_abort hbase hbuild]
        obtain ⟨looks, hcause, rfl⟩ := cause_of_build hbuild
        exact .failed reason looks hbase hcause
      | fault e =>
        rw [perform_of_fault hbase hbuild]
        obtain ⟨hsteps, htime, rfl⟩ | ⟨k, poll, -, -, hreason, -⟩ := error_of_build hbuild
        · exact .faulted e _ hbase hsteps htime
        · cases hreason

theorem step (r : Relaxation N L C) (call : Call) :
    Step r call (call.perform r).1 (call.perform r).2 := by
  cases call with
  | baseProgram => exact step_baseProgram r
  | lpExpired => exact .other _ _ 1 r.negated (by simp)
  | potencyExpired => exact .other _ _ 1 r.negated (by simp)
  | elapsedSeconds => exact .other _ _ 1 r.negated (by simp)
  | setNegated negated => exact .other _ _ 0 negated (by simp)
  | hasBase => exact .other _ _ 0 r.negated (by simp)

section

variable {r r' : Relaxation N L C} {call : Call} {seen : Seen L}

/-- What is kept stays kept. -/
theorem Step.kept (h : Step r call seen r') {lp : L} (hbase : r.base = some lp) :
    r'.base = some lp := by
  cases h with
  | hit => exact hbase
  | built _ _ hnone => rw [hnone] at hbase; cases hbase
  | failed | faulted | other => exact hbase

/-- Only requests for the base program log anything, and only they fill what is kept. -/
theorem Step.silent (h : Step r call seen r') (hcall : call ≠ .baseProgram) :
    seen.log = [] ∧ r'.base = r.base := by
  cases h with
  | hit | built | failed | faulted => exact absurd rfl hcall
  | other => exact ⟨rfl, rfl⟩

/-- A request answers a copy of what is kept after it. -/
theorem Step.base_of_answer (h : Step r .baseProgram seen r') {lp? : Option L}
    (hanswer : seen.answer = .ok (.base lp?)) : lp? = r'.base.map LinearProgram.copy := by
  cases h with
  | hit lp hbase =>
    cases hanswer
    rw [hbase, Option.map_some]
  | built =>
    cases hanswer
    rfl
  | failed reason looks hbase =>
    cases hanswer
    rw [hbase, Option.map_none]
  | faulted => cases hanswer
  | other call answer reads negated hcall => exact absurd rfl hcall

end

/-! ## Whole sessions -/

/-- What holds of an analysis of `net` and `marking` throughout a session. -/
structure Sound (net : N) (marking : List Weight) (lpBudget : UInt32) (r : Relaxation N L C) :
    Prop where
  net_eq : r.net = net
  marking_eq : r.marking = marking
  lpBudget_eq : r.lpBudget = lpBudget
  /-- What is kept is what the steps of a construction make of a program that the backend has
  allocated. -/
  kept : ∀ lp, r.base = some lp → ∃ n, untimed net marking (LinearProgram.create n) = .ok lp

section

variable {net : N} {marking : List Weight} {lpBudget : UInt32} {r r' : Relaxation N L C}
  {call : Call} {seen : Seen L}

theorem Step.sound (hstep : Step r call seen r') (h : Sound net marking lpBudget r) :
    Sound net marking lpBudget r' := by
  obtain ⟨rfl, rfl, rfl, hkept⟩ := h
  cases hstep with
  | built lp looks hbase hsteps =>
    refine ⟨rfl, rfl, rfl, ?_⟩
    intro lp' h
    obtain rfl := Option.some.inj h
    exact ⟨_, hsteps⟩
  | hit | failed | faulted | other => exact ⟨rfl, rfl, rfl, hkept⟩

theorem Sound.after (h : Sound net marking lpBudget r) (calls : List Call) :
    Sound net marking lpBudget (r.after calls) := by
  induction calls generalizing r with
  | nil => exact h
  | cons call calls ih => exact ih ((step r call).sound h)

theorem sound_session (net : N) (marking : List Weight) (lpBudget potencyBudget : UInt32)
    (clock : C) (calls : List Call) :
    Sound net marking lpBudget (session L net marking lpBudget potencyBudget clock calls) :=
  have hstart : Sound net marking lpBudget
      (Relaxation.start net marking lpBudget potencyBudget clock : Relaxation N L C) :=
    ⟨rfl, rfl, rfl, fun _ h => nomatch h⟩
  hstart.after calls

end

/-! ## The answers of all sessions -/

/-- Some session about the net and the marking answers the program. -/
def Answered (net : N) (marking : List Weight) (lp : L) : Prop :=
  ∃ (C : Type) (_ : Clock C) (lpBudget potencyBudget : UInt32) (clock : C) (calls : List Call),
    (Call.baseProgram.perform
      (session L net marking lpBudget potencyBudget clock calls)).1.answer = .ok (.base (some lp))

/-- What a session answers is what the steps of a construction make of a program that the backend
has allocated. -/
theorem Answered.exists_untimed {net : N} {marking : List Weight} {lp : L}
    (h : Answered net marking lp) : ∃ n lp₀,
      untimed net marking (LinearProgram.create n) = .ok lp₀ ∧ LinearProgram.copy lp₀ = lp := by
  obtain ⟨C, _, lpBudget, potencyBudget, clock, calls, hanswer⟩ := h
  have hstep := step_baseProgram (session L net marking lpBudget potencyBudget clock calls)
  have hsound := hstep.sound (sound_session net marking lpBudget potencyBudget clock calls)
  obtain ⟨lp₀, hlp₀, hcopy⟩ := Option.map_eq_some_iff.mp (hstep.base_of_answer hanswer).symm
  obtain ⟨n, huntimed⟩ := hsound.kept lp₀ hlp₀
  exact ⟨n, lp₀, huntimed, hcopy⟩

end

end PetriAnalysis
