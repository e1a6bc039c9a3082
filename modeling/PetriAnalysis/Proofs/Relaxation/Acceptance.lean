import PetriAnalysis.Proofs.Relaxation.Cause
import PetriAnalysis.Proofs.Relaxation.Contents
import PetriAnalysis.Proofs.Relaxation.Readable

/-!
# Constructions that are not refused

A sparse program refuses a column only if it mentions a place twice or a place beyond the net.
The other changes of a construction are always accepted, so without such columns a construction
gives up only because the budget has expired, and it is completed if the net can be observed
throughout. Sorted lists of arcs to places of the net never lead to such a column.

## Main definitions

* `Encodable net` — the arcs of each transition lead to a column that is accepted.
* `SortedArcs net` — the arcs of each transition are sorted and within the net.
* `FailsAt net reason` — the step at which a construction gives up.
-/

namespace PetriAnalysis

open SparseLp

variable {N : Type} [PetriNet N]

/-- The arcs of each transition are two lists, and the effects that they amount to mention no
place twice and only places of the net. -/
def Encodable (net : N) : Prop :=
  ∀ t < PetriNet.numTransitions net, t < UInt32.size → ∃ pre post, ColumnOf net t pre post

/-- The arcs of each transition are two lists in strictly ascending order of places, and the
places are those of the net. -/
def SortedArcs (net : N) : Prop :=
  ∀ transition : TransitionId, transition.index < PetriNet.numTransitions net →
    ∃ pre post, PetriNet.preset net transition = .ofList pre ∧
      PetriNet.postset net transition = .ofList post ∧ Ascending pre ∧ Ascending post ∧
      ∀ p, p ∈ placesOf pre ∨ p ∈ placesOf post → p.index < PetriNet.numPlaces net

variable {net : N} {lp : SparseLp} {reason : Abort}

theorem SortedArcs.encodable (h : SortedArcs net) : Encodable net := by
  intro t ht hsize
  obtain ⟨transition, htransition⟩ := ofIndex_of_lt .transition hsize
  obtain rfl := Id.index_of_ofIndex htransition
  obtain ⟨pre, post, hpre, hpost, hpre', hpost', hplaces⟩ := h transition ht
  refine ⟨pre, post, ⟨transition, htransition, hpre, hpost⟩, ?_, ?_⟩
  · exact (ascending_mergeArcs hpre' hpost').nodup
  · intro p hp
    exact hplaces p (mem_mentioned_iff.mp hp)

/-! ## The step that gives up -/

/-- The first step that gives up, and the size of the program that it works on. -/
inductive FailsAt (net : N) (reason : Abort) : Prop where
  | column (t : ℕ) (ht : t < PetriNet.numTransitions net) (lp : SparseLp)
      (hcols : lp.numCols = PetriNet.numTransitions net + 1)
      (hrows : lp.numRows = PetriNet.numPlaces net + 1)
      (h : fillColumn net lp t = .error (.abort reason))
  | stateRow (entry : Weight × ℕ) (hp : entry.2 < PetriNet.numPlaces net) (lp : SparseLp)
      (hrows : lp.numRows = PetriNet.numPlaces net + 1)
      (h : boundStateRow lp entry = .error (.abort reason))
  | effectRow (p : ℕ) (hp : p < PetriNet.numPlaces net) (lp : SparseLp)
      (hcols : lp.numCols = PetriNet.numTransitions net + 1)
      (hrows : lp.numRows = 2 * PetriNet.numPlaces net + 1)
      (h : fillEffectRow net (PetriNet.numPlaces net + 1) lp p = .error (.abort reason))

/-- If the marking covers the places, a construction gives up only because a step does. -/
theorem failsAt_of_untimed {marking : List Weight}
    (hlength : marking.length = PetriNet.numPlaces net)
    (h : untimed net marking (some SparseLp.empty) = .error (.abort reason)) :
    FailsAt net reason := by
  have hblank := blank_spec (PetriNet.numPlaces net) (PetriNet.numTransitions net)
  rcases bind_eq_error_iff.mp h with hbegun | ⟨lp₀, hbegun, hfail⟩
  · obtain ⟨hne, -⟩ | ⟨-, hnone, -⟩ := reason_of_begun hbegun
    · exact absurd hlength hne
    · cases hnone
  obtain rfl := eq_of_begun hbegun
  rcases bind_eq_error_iff.mp hfail with hcolumns | ⟨lp₁, hcolumns, hfail₁⟩
  · obtain ⟨k, t, lp, hk, hfilled, hfill⟩ := foldlM_error_induct (ColumnsFilled net _)
      (columnsFilled_zero net _)
      (fun _ _ _ _ ht hfilled hfill => hfilled.step hblank.numRows_eq ht hfill) hcolumns
    obtain ⟨ht, rfl⟩ := eq_of_getElem?_range hk
    exact .column t ht lp (hfilled.numCols_eq.trans hblank.numCols_eq)
      (hfilled.numRows_eq.trans hblank.numRows_eq) hfill
  have hfirst := columnsFilled_run hblank.numRows_eq hcolumns
  have hrows₁ := hfirst.numRows_eq.trans hblank.numRows_eq
  rcases bind_eq_error_iff.mp hfail₁ with hrows | ⟨lp₂, hrows, hfail₂⟩
  · obtain ⟨k, entry, lp, hk, hbounded, hbound⟩ := foldlM_error_induct (RowsBounded marking lp₁)
      (rowsBounded_zero marking lp₁)
      (fun _ _ _ _ hentry hbounded hbound => hbounded.step hentry hbound) hrows
    obtain ⟨hweight, rfl⟩ := getElem?_zipIdx_eq hk
    have hplace := (List.getElem?_eq_some_iff.mp hweight).1
    exact .stateRow entry (hlength ▸ hplace) lp (hbounded.numRows_eq.trans hrows₁) hbound
  have hsecond := rowsBounded_run hrows
  have hcols₂ : lp₂.numCols = PetriNet.numTransitions net + 1 := calc
    lp₂.numCols = lp₁.numCols := congrArg Array.size hsecond.columns_eq
    _ = PetriNet.numTransitions net + 1 := hfirst.numCols_eq.trans hblank.numCols_eq
  obtain ⟨first, lp₃, hadd, hfail₃⟩ := exists_of_appended_bind hfail₂
  obtain ⟨rfl, rfl⟩ := eq_of_addRows hadd
  obtain ⟨k, p, lp, hk, hfilled, hfill⟩ := foldlM_error_induct (EffectRowsFilled net _ _)
    (effectRowsFilled_zero net _ _) (fun _ _ _ _ hp hfilled hfill => hfilled.step hp hfill) hfail₃
  obtain ⟨hp, rfl⟩ := eq_of_getElem?_range hk
  have hrows₂ : lp₂.numRows = PetriNet.numPlaces net + 1 := hsecond.numRows_eq.trans hrows₁
  rw [hrows₂] at hfilled hfill
  refine .effectRow p hp lp (hfilled.numCols_eq.trans hcols₂) ?_ hfill
  rw [hfilled.numRows_eq, numRows_withRows, hrows₂]
  omega

/-- A step that does not give up faults, and then an identifier or an arc weight is missing. -/
theorem Encodable.untimed_ne_abort (h : Encodable net) {marking : List Weight}
    (hlength : marking.length = PetriNet.numPlaces net) :
    untimed net marking (some SparseLp.empty) ≠ .error (.abort reason) := by
  intro hfail
  cases failsAt_of_untimed hlength hfail with
  | column t ht lp hcols hrows hstep =>
    obtain ⟨transition, htransition, -⟩ := exists_of_observed_bind hstep
    have hindex := Id.index_of_ofIndex htransition
    obtain ⟨pre, post, hcolumn⟩ := h t ht (hindex ▸ transition.index_lt)
    obtain ⟨lp', hfill⟩ := hcolumn.exists_fillColumn (by omega) hrows
    cases hfill.symm.trans hstep
  | stateRow entry hp lp hrows hstep =>
    obtain ⟨place, hplace, -⟩ := exists_of_observed_bind hstep
    have hrow : entry.2 + 1 < lp.numRows := by omega
    obtain ⟨lp', hbound⟩ := exists_boundStateRow hplace hrow
    cases hbound.symm.trans hstep
  | effectRow p hp lp hcols hrows hstep =>
    obtain ⟨place, hplace, hrest⟩ := exists_of_observed_bind hstep
    obtain ⟨es, hes, hrest'⟩ := exists_of_observed_bind hrest
    obtain ⟨row, hsum, -⟩ := exists_of_observed_bind hrest'
    have hrow : PetriNet.numPlaces net + 1 + p < lp.numRows := by omega
    obtain ⟨lp', hfill⟩ := exists_fillEffectRow hplace hes hcols hrow (lt_of_sizeSum hsum)
    cases hfill.symm.trans hstep

/-! ## Completed constructions -/

/-- The lists of an encodable net that can be observed are readable. -/
theorem Encodable.readable (hencodable : Encodable net) (h : Observable net) : Readable net := by
  refine ⟨h, ?_⟩
  intro transition ht
  obtain ⟨pre, post, ⟨transition', htransition', hpre, hpost⟩, -, -⟩ :=
    hencodable transition.index ht transition.index_lt
  obtain rfl : transition = transition' :=
    Except.ok.inj ((Id.ofIndex_index transition).symm.trans htransition')
  exact ⟨pre, post, hpre, hpost⟩

/-- Without a column that is refused, and in an observable net, the steps of a construction
succeed. -/
theorem Encodable.exists_untimed (hencodable : Encodable net) (h : Observable net)
    {marking : List Weight} (hlength : marking.length = PetriNet.numPlaces net) :
    ∃ lp, untimed net marking (some SparseLp.empty) = .ok lp := by
  cases huntimed : untimed net marking (some SparseLp.empty) with
  | ok lp => exact ⟨lp, rfl⟩
  | error e =>
    cases e with
    | abort reason => exact absurd huntimed (hencodable.untimed_ne_abort hlength)
    | fault e =>
      have hfault := (hencodable.readable h).untimed_ne_fault orderly_sparseLp marking 0 e
      exact absurd huntimed hfault

end PetriAnalysis
