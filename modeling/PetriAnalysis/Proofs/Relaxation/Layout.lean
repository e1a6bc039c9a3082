import PetriAnalysis.Proofs.Net.WellFormed
import PetriAnalysis.Proofs.Relaxation.Columns

/-!
# The base program of a well-formed net

The two blocks of a base program are computed independently: the columns from the merged lists
of arcs, the second rows from single arc weights. They store different sets of entries, because
a column keeps the zero of a place that gets back what is taken from it, and a second row leaves
it out. Read as matrices with zeros where nothing is stored, the two blocks are equal.

## Main definitions

* `BaseLayout n marking lp` — the bounds and the entries of the base program, cell by cell.
-/

namespace PetriAnalysis

open SparseLp

variable {n : Net} {marking : List Weight} {lp : SparseLp}

/-- The bounds and the entries of the base program of a net. -/
structure BaseLayout (n : Net) (marking : List Weight) (lp : SparseLp) : Prop where
  numCols_eq : lp.numCols = n.numTransitions + 1
  numRows_eq : lp.numRows = 2 * n.numPlaces + 1
  colBound : ∀ c ≤ n.numTransitions, lp.colBound? c = some (.lower 0)
  freeRow : lp.rowBound? 0 = some .free
  stateBound : ∀ (p : ℕ) (w : Weight), marking[p]? = some w →
    lp.rowBound? (p + 1) = some (.lower (0 - w.toFloat))
  effectBound : ∀ p < n.numPlaces, lp.rowBound? (n.numPlaces + 1 + p) = some (.lower 0)
  /-- The cell of a place and a transition in both blocks. -/
  cell : ∀ (p : PlaceId) (t : TransitionId), p.index < n.numPlaces → t.index < n.numTransitions →
    ∃ w out into, n.pre.get p t = .ok w ∧ n.outWeight t p = .ok out ∧ n.inWeight p t = .ok into ∧
      ((lp.stored? (p.index + 1) (t.index + 1)).isSome ↔ 0 < w ∨ 0 < out) ∧
      ((lp.stored? (n.numPlaces + 1 + p.index) (t.index + 1)).isSome ↔ out ≠ into) ∧
      lp.coefficient (p.index + 1) (t.index + 1) = out.toFloat - into.toFloat ∧
      lp.coefficient (n.numPlaces + 1 + p.index) (t.index + 1) = out.toFloat - into.toFloat
  outside : ∀ r c, r = 0 ∨ 2 * n.numPlaces < r ∨ c = 0 ∨ n.numTransitions < c →
    lp.stored? r c = none

section

variable {p : PlaceId} {t : TransitionId}

/-- The column of a transition stores the places that an arc connects it with. -/
theorem Contents.stateEntry_eq (h : Contents n marking lp) (hn : n.WellFormed)
    (hp : p.index < n.numPlaces) (ht : t.index < n.numTransitions) :
    lp.stored? (p.index + 1) (t.index + 1) =
      if 0 < n.inputAt p.index t.index ∨ 0 < n.outputAt p.index t.index then
        some ((n.outputAt p.index t.index).toFloat - (n.takenAt p.index t.index).toFloat)
      else none := by
  obtain ⟨pre, post, harcs⟩ := h.encodesArcs ht
  obtain ⟨transition, htransition, hpre, hpost⟩ := harcs.arcs
  cases (Id.ofIndex_index t).symm.trans htransition
  obtain rfl := ofList_injective (hpre.symm.trans (hn.preset_eq ht))
  obtain rfl := ofList_injective (hpost.symm.trans (hn.postset_eq ht))
  have hpre (p : PlaceId) (hp : p.index < n.numPlaces) :
      p ∈ placesOf (n.inputArcs t.index) ↔ 0 < n.inputAt p.index t.index :=
    (mem_placesOf_arcsAlong hn.places_le).trans (and_iff_right hp)
  have hpost (p : PlaceId) (hp : p.index < n.numPlaces) :
      p ∈ placesOf (n.outputArcs t.index) ↔ 0 < n.outputAt p.index t.index :=
    (mem_placesOf_arcsAlong hn.places_le).trans (and_iff_right hp)
  rw [harcs.stored?_eq p hp, hn.netAmount_eq hp t.index]
  simp only [hpre p hp, hpost p hp]

/-- The second row of a place stores the transitions that do not give back what they take. -/
theorem Contents.effectEntry_eq (h : Contents n marking lp) (hn : n.WellFormed)
    (hp : p.index < n.numPlaces) (ht : t.index < n.numTransitions) :
    lp.stored? (n.numPlaces + 1 + p.index) (t.index + 1) =
      if n.outputAt p.index t.index = n.takenAt p.index t.index then none
      else some ((n.outputAt p.index t.index).toFloat - (n.takenAt p.index t.index).toFloat) := by
  obtain ⟨e, ⟨place, hplace, heffect⟩, hentry⟩ := h.effectEntry p.index hp t.index ht
  cases (Id.ofIndex_index p).symm.trans hplace
  obtain ⟨transition, htransition, heffect⟩ := bind_eq_ok_iff.mp heffect
  cases (Id.ofIndex_index t).symm.trans htransition
  obtain ⟨out, hout, heffect⟩ := bind_eq_ok_iff.mp heffect
  obtain ⟨into, hinto, heffect⟩ := bind_eq_ok_iff.mp heffect
  cases (hn.outWeight_eq hp ht).symm.trans hout
  cases (hn.inWeight_eq hp ht).symm.trans hinto
  obtain rfl := Except.ok.inj heffect
  refine hentry.trans ?_
  split_ifs <;> rfl

/-- An entry that is not stored counts as zero, and then what is given is what is taken. -/
theorem Contents.layout (h : Contents n marking lp) (hn : n.WellFormed) :
    BaseLayout n marking lp where
  numCols_eq := h.numCols_eq
  numRows_eq := h.numRows_eq
  colBound := h.colBound
  freeRow := h.freeRow
  stateBound := h.stateBound
  effectBound := h.effectBound
  cell p t hp ht := by
    have hstate := h.stateEntry_eq hn hp ht
    have heffect := h.effectEntry_eq hn hp ht
    refine ⟨_, _, _, hn.get_pre hp ht, hn.outWeight_eq hp ht, hn.inWeight_eq hp ht,
      ?_, ?_, ?_, ?_⟩
    · rw [hstate]
      split_ifs with hstored <;> simp [hstored]
    · rw [heffect]
      split_ifs with hstored <;> simp [hstored]
    · rw [coefficient, hstate]
      split_ifs with hstored
      · rfl
      · obtain ⟨hinput, houtput⟩ := not_or.mp hstored
        rw [eq_zero_of_not_pos houtput, Net.takenAt_eq_zero (eq_zero_of_not_pos hinput)]
        exact (Double.sub_zero 0).symm
    · rw [coefficient, heffect]
      split_ifs with heq
      · rw [heq, Double.sub_self (Double.toRat?_toFloat _)]
        rfl
      · rfl
  outside r c hrc := by
    by_cases hrest : c = 0 ∨ n.numTransitions < c ∨ 2 * n.numPlaces < r
    · exact h.outside r c hrest
    · obtain rfl : r = 0 := by omega
      obtain ⟨t, rfl⟩ : ∃ t, c = t + 1 := Nat.exists_eq_succ_of_ne_zero (by omega)
      have ht : t < n.numTransitions := by omega
      obtain ⟨pre, post, hcolumn, hentry⟩ := h.stateEntry t ht
      rw [hentry 0 (Nat.zero_le _), hcolumn.lookup_eq_none (Or.inl rfl)]

end

/-- Both cells of a place and a transition hold what the transition gives minus what it takes. -/
theorem BaseLayout.coefficient_eq (h : BaseLayout n marking lp) (hn : n.WellFormed) {p t : ℕ}
    (hp : p < n.numPlaces) (ht : t < n.numTransitions) :
    lp.coefficient (p + 1) (t + 1) = (n.outputAt p t).toFloat - (n.takenAt p t).toFloat ∧
      lp.coefficient (n.numPlaces + 1 + p) (t + 1) =
        (n.outputAt p t).toFloat - (n.takenAt p t).toFloat := by
  have hp' := index_idAt .place (Nat.lt_of_lt_of_le hp hn.places_le)
  have ht' := index_idAt .transition (Nat.lt_of_lt_of_le ht hn.transitions_le)
  obtain ⟨-, out, into, -, hout, hinto, -, -, hfirst, hsecond⟩ :=
    h.cell (idAt p) (idAt t) (hp'.symm ▸ hp) (ht'.symm ▸ ht)
  cases (hn.outWeight_eq (hp'.symm ▸ hp) (ht'.symm ▸ ht)).symm.trans hout
  cases (hn.inWeight_eq (hp'.symm ▸ hp) (ht'.symm ▸ ht)).symm.trans hinto
  rw [hp', ht'] at hfirst hsecond
  exact ⟨hfirst, hsecond⟩

/-- A request about a well-formed net is answered with the program of this layout, unless the
budget has expired at one of the looks at it. -/
theorem base_layout (n : Net) (marking : List Weight) (hn : n.WellFormed)
    (hlength : marking.length = n.numPlaces) (C : Type) [Clock C]
    (lpBudget potencyBudget : UInt32) (clock : C) (calls : List Call) :
    let r := session SparseLp n marking lpBudget potencyBudget clock calls;
    let seen := (Call.baseProgram.perform r).1;
    (∃ lp, seen.answer = .ok (.base (some lp)) ∧ BaseLayout n marking lp) ∨
      ∃ k < 1 + n.numTransitions + 2 * n.numPlaces,
        Expired r.lpBudget (Clock.reading r.clock k) ∧ seen.answer = .ok (.base none) ∧
          ∃ stage done, seen.log = [.failed (.expired stage done)] := by
  have hsound := sound_session (L := SparseLp) n marking lpBudget potencyBudget clock calls
  have hstep := step_baseProgram (session SparseLp n marking lpBudget potencyBudget clock calls)
  obtain ⟨lp, huntimed⟩ := hn.sortedArcs.encodable.exists_untimed hn.observable hlength
  rcases hstep.answered_or_expired hsound huntimed with hanswer | hexpired
  · exact Or.inl ⟨lp, hanswer, (contents_of_untimed huntimed).layout hn⟩
  · exact Or.inr hexpired

/-- A belt of two places. The first transition moves a token along it while the second place has
fewer than three tokens. The other one gives back the token that it takes there, and one more to
the first place. -/
def belt : Net where
  places := ⟨#[⟨"start", 2⟩, ⟨"end", 0⟩]⟩
  transitions := ⟨#[⟨"move"⟩, ⟨"refill"⟩]⟩
  pre := ⟨⟨#[#[1, 0], #[3, 1]]⟩, 2⟩
  post := ⟨⟨#[#[0, 1], #[1, 1]]⟩, 2⟩
  inhibitor := ⟨⟨#[#[false, false], #[true, false]]⟩, 2⟩

theorem base_layout_belt : belt.WellFormed ∧ [2, 0].length = belt.numPlaces ∧ ∃ lp,
    (Call.baseProgram.perform
      (session SparseLp belt [2, 0] 1 0 StoppedClock.stopped [])).1.answer =
        .ok (.base (some lp)) ∧ BaseLayout belt [2, 0] lp := by
  have hn : belt.WellFormed := by decide
  have hlength : [2, 0].length = belt.numPlaces := rfl
  refine ⟨hn, hlength, ?_⟩
  rcases base_layout belt [2, 0] hn hlength StoppedClock 1 0 .stopped [] with h | ⟨k, -, h, -⟩
  · exact h
  · exact absurd h (not_expired_stopped k)

end PetriAnalysis
