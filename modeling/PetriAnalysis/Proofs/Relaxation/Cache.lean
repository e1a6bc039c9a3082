import PetriAnalysis.Proofs.Relaxation.Layout

/-!
# The base program as a cache

The base program is built at most once in a session: from some call on it is kept and never
changes, and every later request answers a copy of it without a look at the clock or the budgets.
A request that fails keeps nothing, so the next one starts again, and that may well succeed: the
clock has gone on, and the backend is asked for another program. Every request that ends logs one
record, whose level tells how it has ended.

## Main definitions

* `FilledOnce base` — something is kept from some time on.
* `RequestLaw r lp? record r'` — what a request answers, logs and leaves; `RequestEnds r result`,
  with the requests that fault.
* `CacheLaw net marking lpBudget r` — the calls at any time of a session.
-/

namespace PetriAnalysis

variable {N L C : Type}

/-! ## Sequences that are filled once -/

/-- Something is kept from some time on, or never. -/
def FilledOnce (base : ℕ → Option L) : Prop :=
  (∀ n, base n = none) ∨ ∃ k lp, ∀ n, base n = if n ≤ k then none else some lp

theorem filledOnce_of_kept {base : ℕ → Option L} (hstart : base 0 = none)
    (hkept : ∀ n lp, base n = some lp → base (n + 1) = some lp) : FilledOnce base := by
  by_cases h : ∃ n, base n ≠ none
  · obtain ⟨k, hk⟩ : ∃ k, Nat.find h = k + 1 :=
      Nat.exists_eq_succ_of_ne_zero fun hzero => Nat.find_spec h (hzero ▸ hstart)
    obtain ⟨lp, hlp⟩ := Option.ne_none_iff_exists'.mp (Nat.find_spec h)
    have hlater (m : ℕ) : base (k + 1 + m) = some lp := by
      induction m with
      | zero => rwa [hk] at hlp
      | succ m ih => exact hkept _ lp ih
    refine Or.inr ⟨k, lp, ?_⟩
    intro n
    rcases Nat.lt_or_ge k n with hn | hn
    · rw [if_neg (Nat.not_le.mpr hn), ← hlater (n - (k + 1)), Nat.add_sub_cancel' hn]
    · have hfirst : n < Nat.find h := hk ▸ Nat.lt_succ_of_le hn
      rw [if_pos hn, not_not.mp (Nat.find_min h hfirst)]
  · exact Or.inl fun n => not_not.mp fun hn => h ⟨n, hn⟩

/-! ## Requests -/

section

variable [PetriNet N] [LinearProgram L] [Clock C]

/-- A request for the base program that does not fault. -/
structure RequestLaw (r : Relaxation N L C) (lp? : Option L) (record : BaseRecord)
    (r' : Relaxation N L C) : Prop where
  /-- It answers a copy of what is kept after it. -/
  answered : lp? = r'.base.map LinearProgram.copy
  /-- If something is kept already, it changes nothing, not even the clock. -/
  hit : r.base.isSome → r' = r
  debug : record.level = .debug ↔ r.base.isSome
  info : record.level = .info ↔ r.base = none ∧ r'.base.isSome
  warn : record.level = .warn ↔
    (∃ stage done, record = .failed (.expired stage done)) ∨ record = .failed .unallocated
  error : record.level = .error ↔
    (∃ expected found, record = .failed (.markingLength expected found)) ∨
      ∃ e, record = .failed (.rejected e)
  /-- If it fails, nothing is kept, and the reported reason has its cause. -/
  cause : ∀ reason, record = .failed reason → r'.base = none ∧
    ∃ looks, Cause r.net r.marking r.lpBudget r.clock
      (LinearProgram.create r.allocations : Option L) reason looks

theorem Step.requestLaw {r r' : Relaxation N L C} {lp? : Option L} {record : BaseRecord}
    (h : Step r .baseProgram ⟨.ok (.base lp?), [record]⟩ r') : RequestLaw r lp? record r' := by
  have hanswered := h.base_of_answer rfl
  cases h with
  | hit lp hbase =>
    exact ⟨hanswered, fun _ => rfl, by simp [BaseRecord.level, hbase],
      by simp [BaseRecord.level, hbase], by simp [BaseRecord.level], by simp [BaseRecord.level],
      by simp⟩
  | built lp looks hbase =>
    exact ⟨hanswered, by simp [hbase], by simp [BaseRecord.level, hbase],
      by simp [BaseRecord.level, hbase], by simp [BaseRecord.level], by simp [BaseRecord.level],
      by simp⟩
  | failed reason looks hbase hcause =>
    refine ⟨hanswered, by simp [hbase], ?_, ?_, ?_, ?_, ?_⟩
    · cases reason <;> simp [BaseRecord.level, hbase]
    · cases reason <;> simp [BaseRecord.level, hbase]
    · cases reason <;> simp [BaseRecord.level]
    · cases reason <;> simp [BaseRecord.level]
    · rintro reason' heq
      cases heq
      exact ⟨hbase, looks, hcause⟩

/-- How a request ends: it answers and logs one record, unless a step of its construction faults. -/
inductive RequestEnds (r : Relaxation N L C) : Seen L × Relaxation N L C → Prop where
  | logged (lp? : Option L) (record : BaseRecord) (r' : Relaxation N L C)
      (h : RequestLaw r lp? record r') : RequestEnds r (⟨.ok (.base lp?), [record]⟩, r')
  | faulted (e : Fault) (r' : Relaxation N L C) (hbase : r.base = none) (hbase' : r'.base = none)
      (h : untimed r.net r.marking (LinearProgram.create r.allocations : Option L) =
        .error (.fault e)) : RequestEnds r (⟨.error e, []⟩, r')

theorem Step.requestEnds {r r' : Relaxation N L C} {seen : Seen L}
    (h : Step r .baseProgram seen r') : RequestEnds r (seen, r') := by
  cases h with
  | hit lp hbase => exact .logged _ _ _ (Step.hit lp hbase).requestLaw
  | built lp looks hbase hsteps hlooks htime =>
    exact .logged _ _ _ (Step.built lp looks hbase hsteps hlooks htime).requestLaw
  | failed reason looks hbase hcause =>
    exact .logged _ _ _ (Step.failed reason looks hbase hcause).requestLaw
  | faulted e looks hbase hsteps => exact .faulted e _ hbase hbase hsteps
  | other call answer reads negated hcall => exact absurd rfl hcall

theorem RequestEnds.appendFault {r : Relaxation N L C} {result : Seen L × Relaxation N L C}
    (h : RequestEnds r result) (hnet : Readable r.net) {e : Fault}
    (hfault : result.1.answer = .error e) : AppendFault L e := by
  cases h with
  | logged => cases hfault
  | faulted e r' _ _ hsteps =>
    cases hfault
    exact hnet.appendFault hsteps

theorem RequestEnds.exists_record {r : Relaxation N L C} {result : Seen L × Relaxation N L C}
    (h : RequestEnds r result) (hnet : Readable r.net) (hL : Orderly L) :
    ∃ lp? record, result.1 = ⟨.ok (.base lp?), [record]⟩ := by
  cases h with
  | logged lp? record => exact ⟨lp?, record, rfl⟩
  | faulted e r' _ _ hsteps => exact absurd hsteps (hnet.untimed_ne_fault hL r.marking _ e)

/-- The calls at a time of a session about `net` and `marking`. -/
structure CacheLaw (net : N) (marking : List Weight) (lpBudget : UInt32) (r : Relaxation N L C) :
    Prop where
  net_eq : r.net = net
  marking_eq : r.marking = marking
  lpBudget_eq : r.lpBudget = lpBudget
  step : ∀ call : Call, Step r call (call.perform r).1 (call.perform r).2
  request : RequestEnds r (Call.baseProgram.perform r)
  /-- Where the net can be read, a request faults only if the backend does. -/
  faulted : Readable net → ∀ e, (Call.baseProgram.perform r).1.answer = .error e → AppendFault L e
  /-- Where the backend numbers what is appended, too, a request answers and logs one record. -/
  logged : Readable net → Orderly L → ∃ lp? record,
    (Call.baseProgram.perform r).1 = ⟨.ok (.base lp?), [record]⟩
  /-- What is kept is answered whatever the clock and the budgets are. -/
  hit : ∀ lp, r.base = some lp → ∀ (clock : C) (lpBudget potencyBudget : UInt32),
    Relaxation.baseProgram { r with clock, lpBudget, potencyBudget } =
      .ok (some (LinearProgram.copy lp), .reused) { r with clock, lpBudget, potencyBudget }
  /-- The other calls log nothing and leave alone what is kept. -/
  silent : ∀ call ≠ Call.baseProgram,
    (call.perform r).1.log = [] ∧ (call.perform r).2.base = r.base

theorem Sound.cacheLaw {net : N} {marking : List Weight} {lpBudget : UInt32}
    {r : Relaxation N L C} (h : Sound net marking lpBudget r) :
    CacheLaw net marking lpBudget r := by
  have hrequest : RequestEnds r (Call.baseProgram.perform r) := (step_baseProgram r).requestEnds
  constructor
  case net_eq => exact h.net_eq
  case marking_eq => exact h.marking_eq
  case lpBudget_eq => exact h.lpBudget_eq
  case step => exact PetriAnalysis.step r
  case request => exact hrequest
  case faulted =>
    intro hnet e hfault
    exact hrequest.appendFault (h.net_eq ▸ hnet) hfault
  case logged =>
    intro hnet hL
    exact hrequest.exists_record (h.net_eq ▸ hnet) hL
  case hit =>
    intro lp hbase clock lpBudget potencyBudget
    exact baseProgram_of_base hbase
  case silent =>
    intro call hcall
    exact (PetriAnalysis.step r call).silent hcall

/-- The base program is built at most once in a session, and is then answered without a look at
the clock. A request answers a program exactly if one is kept after it, and logs one record; a
failed request keeps nothing, and the reason that it reports is the one. Only a fault of the net or
of the backend ends a request without a record, and it keeps nothing either. All sparse programs
that are answered about a net and a marking are one, which the steps of a construction make of an
empty program. -/
theorem session_cache (net : N) (marking : List Weight) (lpBudget potencyBudget : UInt32)
    (clock : C) (calls : List Call) :
    FilledOnce (fun n =>
      (session L net marking lpBudget potencyBudget clock (calls.take n)).base) ∧
    CacheLaw net marking lpBudget (session L net marking lpBudget potencyBudget clock calls) ∧
    (∀ lp : SparseLp, Answered net marking lp ↔ untimed net marking (some .empty) = .ok lp) ∧
    ∀ lp lp' : SparseLp, Answered net marking lp → Answered net marking lp' → lp = lp' := by
  refine ⟨?_, (sound_session net marking lpBudget potencyBudget clock calls).cacheLaw,
    fun lp => answered_iff_untimed, ?_⟩
  · refine filledOnce_of_kept rfl ?_
    intro n lp hbase
    rw [session, Relaxation.after, List.take_add_one, List.foldl_append]
    cases calls[n]? with
    | none => exact hbase
    | some call => exact (step _ call).kept hbase
  · intro lp lp' h h'
    exact Except.ok.inj ((answered_iff_untimed.mp h).symm.trans (answered_iff_untimed.mp h'))

end

/-- Sparse programs of a backend that cannot allocate one at the first request. -/
def Late : Type := SparseLp

instance : LinearProgram Late where
  create n := if n = 0 then none else some SparseLp.empty
  copy lp := lp
  numRows := SparseLp.numRows
  numCols := SparseLp.numCols
  addRows := SparseLp.addRows
  addCols := SparseLp.addCols
  setColumn := SparseLp.setColumn
  setRow := SparseLp.setRow
  setRowBound := SparseLp.setRowBound
  setColBound := SparseLp.setColBound

theorem orderly_late : Orderly Late where
  create n lp h := by
    cases n with
    | zero => cases h
    | succ n => exact orderly_sparseLp.create n lp h
  addCols := orderly_sparseLp.addCols
  addRows := orderly_sparseLp.addRows
  setColumn := orderly_sparseLp.setColumn
  setRowBound := orderly_sparseLp.setRowBound

/-- The first request finds no program to build on, and the second one does. -/
theorem session_cache_retried :
    let first := session Late belt [2, 0] 1 0 StoppedClock.stopped [];
    let second := session Late belt [2, 0] 1 0 StoppedClock.stopped [.baseProgram];
    Readable belt ∧ Orderly Late ∧
      (Call.baseProgram.perform first).1.log = [.failed .unallocated] ∧ second.base = none ∧
      ∃ lp record, (Call.baseProgram.perform second).1 = ⟨.ok (.base (some lp)), [record]⟩ ∧
        record.level = .info := by
  intro first second
  have hn : belt.WellFormed := by decide
  have hreadable : Readable belt := hn.sortedArcs.encodable.readable hn.observable
  obtain ⟨-, hlaw, -⟩ :=
    session_cache (L := Late) belt [2, 0] 1 0 StoppedClock.stopped [.baseProgram]
  have hstep : Step second .baseProgram _ _ := hlaw.step .baseProgram
  refine ⟨hreadable, orderly_late, rfl, rfl, ?_⟩
  generalize (Call.baseProgram.perform second).1 = seen,
    (Call.baseProgram.perform second).2 = r' at hstep ⊢
  cases hstep with
  | hit lp hbase => cases hbase
  | built lp => exact ⟨_, _, rfl, rfl⟩
  | failed reason looks _ hcause =>
    cases hcause with
    | expired k poll _ hfirst => exact absurd hfirst.expired (not_expired_stopped k)
    | markingLength _ hne => exact absurd rfl hne
    | unallocated _ _ hnone => cases hnone
    | rejected e _ hsteps => exact absurd hsteps (hn.sortedArcs.encodable.untimed_ne_abort rfl)
  | faulted e looks _ hsteps => exact absurd hsteps (hreadable.untimed_ne_fault orderly_late _ _ e)
  | other call answer reads negated hcall => exact absurd rfl hcall

end PetriAnalysis
