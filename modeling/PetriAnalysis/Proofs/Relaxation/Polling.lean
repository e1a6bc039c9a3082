import PetriAnalysis.Proofs.Relaxation.Layout

/-!
# The readings of a request, counted

A construction reads the clock once before its steps and once after each of them. The first
reading that finds the budget expired is the last one, and its number tells the stage and how
many steps of the stage have been taken. A construction that is completed has read the clock
after every step, and its record takes one more reading. Nothing is assumed about the order of
the readings.

## Main definitions

* `Tape` — a clock that answers a given sequence of readings and counts them.
* `pollAt places transitions k` — the look number `k` at the budget.
* `GivenUp seen poll` — what is seen of a request that is given up at a look.
-/

namespace PetriAnalysis

variable {N L C : Type}

/-! ## Clocks that count -/

/-- A clock that answers a sequence of readings and counts those that it has answered. -/
structure Tape where
  readings : ℕ → Duration
  reads : ℕ

instance : Clock Tape where
  elapsed tape := (tape.readings tape.reads, { tape with reads := tape.reads + 1 })

namespace Tape

theorem after_eq (tape : Tape) (k : ℕ) :
    Clock.after tape k = { tape with reads := tape.reads + k } := by
  induction k generalizing tape with
  | zero => rfl
  | succ k ih =>
    rw [Clock.after, ih]
    simp [Clock.elapsed, Nat.add_assoc, Nat.add_comm 1 k]

theorem reading_eq (tape : Tape) (k : ℕ) :
    Clock.reading tape k = tape.readings (tape.reads + k) := by
  rw [Clock.reading, after_eq]
  rfl

end Tape

/-! ## The number of a look -/

/-- The look number `k` at the budget: one before the steps, one after each column, one after
each bound of a first row, and one after each second row. -/
def pollAt (places transitions k : ℕ) : Poll :=
  if k = 0 then (.setup, 0)
  else if k ≤ transitions then (.columns, k)
  else if k ≤ transitions + places then (.stateRows, k - transitions)
  else (.effectRows, k - transitions - places)

theorem getElem?_stage (stage : Stage) {n k : ℕ} (hk : k < n) :
    ((List.range' 1 n).map fun k => ((stage, k) : Poll))[k]? = some (stage, k + 1) := by
  simp [hk, Nat.add_comm 1 k]

theorem getElem?_allPolls {places transitions k : ℕ} (hk : k ≤ transitions + 2 * places) :
    (allPolls places transitions)[k]? = some (pollAt places transitions k) := by
  rw [allPolls, List.cons_append, List.cons_append]
  cases k with
  | zero => rfl
  | succ k =>
    rw [List.getElem?_cons_succ, pollAt, if_neg (Nat.succ_ne_zero k)]
    by_cases hcolumns : k + 1 ≤ transitions
    · rw [if_pos hcolumns, List.append_assoc, List.getElem?_append_left (by simp; omega)]
      exact getElem?_stage .columns (by omega)
    by_cases hstate : k + 1 ≤ transitions + places
    · rw [if_neg hcolumns, if_pos hstate, List.getElem?_append_left (by simp; omega),
        List.getElem?_append_right (by simp; omega), List.length_map, List.length_range',
        getElem?_stage .stateRows (by omega)]
      congr 2
      omega
    · rw [if_neg hcolumns, if_neg hstate, List.getElem?_append_right (by simp; omega),
        List.length_append, List.length_map, List.length_map, List.length_range',
        List.length_range', getElem?_stage .effectRows (by omega)]
      congr 2
      omega

/-! ## Requests -/

section

variable [Clock C]

/-- What is seen of a request that is given up at a look at the budget: no program, and one
warning, which names the stage and the number of its steps. -/
structure GivenUp (seen : Seen L) (poll : Poll) : Prop where
  answer_eq : seen.answer = .ok (.base none)
  log_eq : seen.log = [.failed (.expired poll.1 poll.2)]
  warning : ∀ record ∈ seen.log, record.level = .warn ∧
    record.message = "lp: construction timeout during " ++ poll.1.name ++ " after " ++
      toString poll.2 ++ " steps"

theorem givenUp (poll : Poll) :
    GivenUp (⟨.ok (.base none), [.failed (.expired poll.1 poll.2)]⟩ : Seen L) poll := by
  refine ⟨rfl, rfl, ?_⟩
  intro record hrecord
  rw [List.mem_singleton.mp hrecord]
  exact ⟨rfl, rfl⟩

variable [PetriNet N] [LinearProgram L] {r : Relaxation N L C}

/-- With a marking of another length the construction looks at the budget once. -/
theorem build_of_length_ne {net : N} {marking : List Weight}
    (h : marking.length ≠ PetriNet.numPlaces net) (budget : UInt32) (allocated : Option L) (c : C) :
    build net marking budget allocated c = .error (.abort
      (if Expired budget (Clock.reading c 0) then .expired .setup 0
        else .markingLength (PetriNet.numPlaces net) marking.length)) (Clock.after c 1) := by
  have hbegun : begun net marking allocated =
      .error (.abort (.markingLength (PetriNet.numPlaces net) marking.length)) := by
    simp only [begun, if_neg h]
  have hpolls := polls_of_begun_error hbegun
  by_cases hexpired : Expired budget (Clock.reading c 0)
  · rw [if_pos hexpired]
    exact build_of_firstExpired (by rw [hpolls]; rfl) ⟨hexpired, by simp⟩
  · have htime : ∀ k < (polls net marking allocated).length,
        ¬ Expired budget (Clock.reading c k) := by simpa [hpolls] using hexpired
    rw [if_neg hexpired, build_eq_paced, Build.paced_of_not_expired budget _ htime, untimed, hbegun,
      hpolls]
    rfl

/-- A request whose construction could be completed is given up at the first look that finds the
budget expired. Only the first look stands before the request for a program. -/
theorem perform_of_firstExpired (hbase : r.base = none) {lp : L}
    (huntimed : untimed r.net r.marking (LinearProgram.create r.allocations) = .ok lp) {k : ℕ}
    (hk : k ≤ PetriNet.numTransitions r.net + 2 * PetriNet.numPlaces r.net)
    (h : FirstExpired r.lpBudget r.clock k) :
    let poll := pollAt (PetriNet.numPlaces r.net) (PetriNet.numTransitions r.net) k;
    Call.baseProgram.perform r =
      (⟨.ok (.base none), [.failed (.expired poll.1 poll.2)]⟩,
        { r with
          clock := Clock.after r.clock (k + 1)
          allocations := r.allocations + if k = 0 then 0 else 1 }) := by
  intro poll
  have hpoll : (polls r.net r.marking (LinearProgram.create r.allocations : Option L))[k]? =
      some poll := by rw [polls_of_ok huntimed, getElem?_allPolls hk]
  have hallocations : (Abort.expired poll.1 poll.2).allocations = if k = 0 then 0 else 1 := by
    simp only [poll, pollAt]
    split_ifs <;> rfl
  rw [perform_of_abort hbase (build_of_firstExpired hpoll h), hallocations]

/-- A request that has time answers what the steps of its construction make. -/
theorem perform_of_time (hbase : r.base = none) {lp : L}
    (huntimed : untimed r.net r.marking (LinearProgram.create r.allocations) = .ok lp) {looks : ℕ}
    (hlooks : looks = PetriNet.numTransitions r.net + 2 * PetriNet.numPlaces r.net)
    (h : ∀ k ≤ looks, ¬ Expired r.lpBudget (Clock.reading r.clock k)) :
    Call.baseProgram.perform r =
      (⟨.ok (.base (some (LinearProgram.copy lp))),
        [.built (LinearProgram.numRows lp) (LinearProgram.numCols lp)
          (Clock.reading r.clock (looks + 1)).toFloat]⟩,
        { r with
          clock := Clock.after r.clock (looks + 2)
          base := some lp
          allocations := r.allocations + 1 }) := by
  have hbuild := build_eq_ok_iff.mpr ⟨huntimed, fun k hk => h k (by omega), rfl⟩
  rw [show 1 + PetriNet.numTransitions r.net + 2 * PetriNet.numPlaces r.net = looks + 1 by omega]
    at hbuild
  have hperform := perform_of_built hbase hbuild
  rwa [Clock.after_after, Clock.reading_after] at hperform

end

/-- A request that has to build reads the clock once for each look at the budget, up to the first
that finds it expired. If there is none it reads the clock at all looks and once more for its
record. A marking of another length is noticed after one reading. The backend is asked for a
program once, unless the request ends at its first look. -/
theorem budget_polling (r : Relaxation Net SparseLp Tape) (hn : r.net.WellFormed)
    (hbase : r.base = none) :
    let places := r.net.numPlaces;
    let transitions := r.net.numTransitions;
    let looks := transitions + 2 * places;
    let seen := (Call.baseProgram.perform r).1;
    let r' := (Call.baseProgram.perform r).2;
    (r.marking.length = places →
      (∀ k ≤ looks, FirstExpired r.lpBudget r.clock k →
        GivenUp seen (pollAt places transitions k) ∧
          r' = { r with
            clock.reads := r.clock.reads + (k + 1)
            allocations := r.allocations + if k = 0 then 0 else 1 }) ∧
      ((∀ k ≤ looks, ¬ Expired r.lpBudget (Clock.reading r.clock k)) →
        ∃ lp, seen = ⟨.ok (.base (some lp)), [.built (2 * places + 1) (transitions + 1)
            (Clock.reading r.clock (looks + 1)).toFloat]⟩ ∧
          r' = { r with
            clock.reads := r.clock.reads + (looks + 2)
            base := some lp
            allocations := r.allocations + 1 })) ∧
    (r.marking.length ≠ places →
      seen = ⟨.ok (.base none), [.failed (
        if Expired r.lpBudget (Clock.reading r.clock 0) then .expired .setup 0
        else .markingLength places r.marking.length)]⟩ ∧
      r' = { r with clock.reads := r.clock.reads + 1 }) := by
  intro places transitions looks seen r'
  refine ⟨fun hlength => ?_, fun hlength => ?_⟩
  · obtain ⟨lp, huntimed⟩ := hn.sortedArcs.encodable.exists_untimed hn.observable hlength
    refine ⟨fun k hk hfirst => ?_, fun htime => ?_⟩
    · have hperform := perform_of_firstExpired hbase huntimed hk hfirst
      rw [Tape.after_eq] at hperform
      have hseen : seen = _ := congrArg Prod.fst hperform
      exact ⟨hseen ▸ givenUp _, congrArg Prod.snd hperform⟩
    · have hcontents := contents_of_untimed huntimed
      have hperform := perform_of_time hbase huntimed rfl htime
      rw [Tape.after_eq] at hperform
      have hseen : seen = _ := congrArg Prod.fst hperform
      have hrows : LinearProgram.numRows lp = 2 * places + 1 := hcontents.numRows_eq
      have hcols : LinearProgram.numCols lp = transitions + 1 := hcontents.numCols_eq
      rw [hrows, hcols] at hseen
      exact ⟨lp, hseen, congrArg Prod.snd hperform⟩
  · have hperform := perform_of_abort hbase
      (build_of_length_ne (L := SparseLp) hlength r.lpBudget _ r.clock)
    rw [Tape.after_eq] at hperform
    refine ⟨congrArg Prod.fst hperform, (congrArg Prod.snd hperform).trans ?_⟩
    split_ifs <;> rfl

/-- A tape on which only the reading number four has passed the third second. -/
def blip : Tape := ⟨fun k => .ofParts (if k = 4 then 3 else 0) 0, 0⟩

theorem budget_polling_blip :
    let r : Relaxation Net SparseLp Tape := .start belt [2, 0] 3 0 blip;
    belt.WellFormed ∧ r.base = none ∧
      (Call.baseProgram.perform r).1.log = [.failed (.expired .stateRows 2)] ∧
      (Call.baseProgram.perform r).2.clock.reads = 5 := by
  intro r
  have hn : r.net.WellFormed := (by decide : belt.WellFormed)
  have hfirst : FirstExpired r.lpBudget r.clock 4 := by
    refine ⟨?_, ?_⟩
    · rw [Tape.reading_eq]
      decide
    · intro j hj
      rw [Tape.reading_eq]
      revert j
      decide
  obtain ⟨hgiven, hafter⟩ := ((budget_polling r hn rfl).1 rfl).1 4 (by decide) hfirst
  exact ⟨hn, rfl, hgiven.log_eq, by rw [hafter]; rfl⟩

end PetriAnalysis
