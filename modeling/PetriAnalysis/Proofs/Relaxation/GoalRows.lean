import PetriAnalysis.Proofs.Lp.Appending
import PetriAnalysis.Proofs.Relaxation.Solutions

/-!
# Goals beside a base program

A query states its goal in rows and columns that it appends to a copy of the base program. The
construction of a base program changes the program by calls alone, so base programs are among those
that calls can make, and what is appended leaves their rows as they were: a vector that is extended
by values for the new columns violates the same ones of them.
-/

namespace PetriAnalysis

open SparseLp

variable {N : Type} [PetriNet N] {net : N} {marking : List Weight} {lp lp' : SparseLp}

/-! ## Base programs are made by calls -/

namespace SparseLp.Reachable

/-- A change of a program is a call. -/
theorem changed (h : lp.Reachable) (call : LpCall) {act : LpUpdate SparseLp Unit}
    (hcall : lp.perform call = Reply.ofResult (act lp))
    (hchanged : PetriAnalysis.changed lp act = .ok lp') : lp'.Reachable := by
  have hnext := h.perform call
  rwa [hcall, changed_eq_ok_iff.mp hchanged] at hnext

/-- An appending of rows or columns is a call. -/
theorem appended (h : lp.Reachable) (call : LpCall) {act : Update SparseLp ℕ} {first : ℕ}
    (hcall : lp.perform call = Reply.ofAppend (act lp))
    (happended : PetriAnalysis.appended lp act = .ok (first, lp')) : lp'.Reachable := by
  have hnext := h.perform call
  rwa [hcall, appended_eq_ok_iff.mp happended] at hnext

theorem begun {first : SparseLp} (hfirst : first.Reachable)
    (hstep : PetriAnalysis.begun net marking (some first) = .ok lp) : lp.Reachable := by
  simp only [PetriAnalysis.begun, if_pos (length_of_begun hstep)] at hstep
  obtain ⟨cols, -, hstep⟩ := bind_eq_ok_iff.mp hstep
  obtain ⟨⟨firstCol, lp₁⟩, hcols, hstep⟩ := bind_eq_ok_iff.mp hstep
  obtain ⟨rows, -, hstep⟩ := bind_eq_ok_iff.mp hstep
  obtain ⟨⟨firstRow, lp₂⟩, hrows, hstep⟩ := bind_eq_ok_iff.mp hstep
  obtain rfl := Except.ok.inj hstep
  have hwithCols := hfirst.appended (.addCols _) rfl hcols
  exact hwithCols.appended (.addRows _) rfl hrows

theorem fillColumn {t : ℕ} (h : lp.Reachable)
    (hstep : PetriAnalysis.fillColumn net lp t = .ok lp') : lp'.Reachable := by
  obtain ⟨transition, -, hstep⟩ := bind_eq_ok_iff.mp hstep
  obtain ⟨es, -, hstep⟩ := bind_eq_ok_iff.mp hstep
  exact h.changed (.setColumn _ _ _) rfl hstep

theorem boundStateRow {row : Weight × ℕ} (h : lp.Reachable)
    (hstep : PetriAnalysis.boundStateRow lp row = .ok lp') : lp'.Reachable := by
  obtain ⟨place, -, hstep⟩ := bind_eq_ok_iff.mp hstep
  exact h.changed (.setRowBound _ _) rfl hstep

theorem fillEffectRow {first p : ℕ} (h : lp.Reachable)
    (hstep : PetriAnalysis.fillEffectRow net first lp p = .ok lp') : lp'.Reachable := by
  obtain ⟨place, -, hstep⟩ := bind_eq_ok_iff.mp hstep
  obtain ⟨entries, -, hstep⟩ := bind_eq_ok_iff.mp hstep
  obtain ⟨row, -, hstep⟩ := bind_eq_ok_iff.mp hstep
  obtain ⟨lp₁, hrow, hbound⟩ := bind_eq_ok_iff.mp hstep
  have hfilled := h.changed (.setRow _ _ _) rfl hrow
  exact hfilled.changed (.setRowBound _ _) rfl hbound

/-- A stage whose steps are calls is a row of calls. -/
theorem foldlM {α : Type} {step : SparseLp → α → Except BuildError SparseLp} {as : List α}
    (h : lp.Reachable) (hrun : as.foldlM step lp = .ok lp')
    (hstep : ∀ lp a lp', lp.Reachable → step lp a = .ok lp' → lp'.Reachable) : lp'.Reachable :=
  foldlM_induct (fun _ lp => lp.Reachable) h (fun _ a s s' _ hs => hstep s a s' hs) hrun

theorem of_untimed (h : untimed net marking (some .empty) = .ok lp) : lp.Reachable := by
  obtain ⟨lp₀, hbegun, h⟩ := bind_eq_ok_iff.mp h
  obtain ⟨lp₁, hcolumns, h⟩ := bind_eq_ok_iff.mp h
  obtain ⟨lp₂, hrows, h⟩ := bind_eq_ok_iff.mp h
  obtain ⟨⟨first, lp₃⟩, hadd, heffects⟩ := bind_eq_ok_iff.mp h
  have hblank := reachable_empty.begun hbegun
  have hfirst := hblank.foldlM hcolumns fun _ _ _ => fillColumn
  have hsecond := hfirst.foldlM hrows fun _ _ _ => boundStateRow
  have hthird := hsecond.appended (.addRows _) rfl hadd
  exact hthird.foldlM heffects fun _ _ _ => fillEffectRow

end SparseLp.Reachable

/-- Appending rows and columns to a program is conservative, and base programs are among those for
which it is. Whatever calls are made, as long as they change neither columns nor old rows, the old
rows keep their entries, their bounds, their activities and whether they are violated, for every
vector that extends a given one. Rows and columns that have only been appended change no verdict. -/
theorem goal_rows_conservative :
    (∀ (N : Type) [PetriNet N] (net : N) (marking : List Weight) (lp : SparseLp),
      Answered net marking lp → lp.Reachable) ∧
    ∀ lp : SparseLp, lp.Reachable → ∀ x z : List Float, x.length = lp.numCols →
      (∀ calls : List LpCall, (∀ call ∈ calls, call.Beyond lp.numRows) →
        KeepsRows lp (lp.afterCalls calls) x (x ++ z)) ∧
      ∀ rows cols, (lp.afterCalls [.addRows rows, .addCols cols]).violatedRows (x ++ z) =
        lp.violatedRows x := by
  refine ⟨?_, ?_⟩
  · intro N _ net marking lp hlp
    exact .of_untimed (answered_iff_untimed.mp hlp)
  · intro lp hlp x z hx
    exact ⟨fun calls hcalls => hlp.keepsRows hcalls hx z,
      fun rows cols => hlp.violatedRows_appended hx z rows cols⟩

/-- The goal of two firings on the belt, with some slack. The program refuses a row that it does
not have. -/
def beltGoal : List LpCall :=
  [.addRows 1, .setRow 5 [1, 2] [1, 1], .setRowBound 5 (.lower 2), .addCols 1,
    .setRow 5 [1, 2, 3] [1, 1, -1], .setRow 9 [0] [1], .setColBound 1 (.upper 7)]

theorem goal_rows_conservative_belt : ∃ lp : SparseLp, Answered belt [2, 0] lp ∧ lp.Reachable ∧
    roundTrip.length = lp.numCols ∧ (∀ call ∈ beltGoal, call.Beyond lp.numRows) ∧
    KeepsRows lp (lp.afterCalls beltGoal) roundTrip (roundTrip ++ [5]) ∧
    (lp.afterCalls [.addRows 1, .addCols 1]).violatedRows (roundTrip ++ [5]) =
      lp.violatedRows roundTrip := by
  have hn : belt.WellFormed := by decide
  obtain ⟨lp, hlp⟩ : ∃ lp : SparseLp, Answered belt [2, 0] lp := hn.exists_answered rfl
  have hlayout := (contents_of_untimed (answered_iff_untimed.mp hlp)).layout hn
  have hreachable : lp.Reachable := goal_rows_conservative.1 Net belt [2, 0] lp hlp
  have hcols : roundTrip.length = lp.numCols := hlayout.numCols_eq.symm
  have hrows : lp.numRows = 5 := hlayout.numRows_eq.trans rfl
  have hgoal : ∀ call ∈ beltGoal, call.Beyond lp.numRows := by
    simp [beltGoal, LpCall.Beyond, hrows]
  obtain ⟨hkeeps, happended⟩ := goal_rows_conservative.2 lp hreachable roundTrip [5] hcols
  exact ⟨lp, hlp, hreachable, hcols, hgoal, hkeeps beltGoal hgoal, happended 1 1⟩

end PetriAnalysis
