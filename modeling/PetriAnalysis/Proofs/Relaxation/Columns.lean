import PetriAnalysis.Net.ArcTables
import PetriAnalysis.Proofs.Relaxation.Acceptance
import PetriAnalysis.Proofs.Relaxation.Session

/-!
# The columns of a base program, for every net

A base program that is answered encodes the arcs of every transition, whatever the net: its lists
of arcs then mention no place twice and only places of the net, and the column of the transition
has, for each of these places, what is given minus what is taken. The lists need not be sorted.
If they are sorted, a request fails only because the budget has expired.
-/

namespace PetriAnalysis

open SparseLp

variable {N C : Type} [PetriNet N] [Clock C] {net : N} {marking : List Weight}

/-- A sparse program is answered exactly if the steps of a construction make it of an empty one. -/
theorem answered_iff_untimed {lp : SparseLp} :
    Answered net marking lp ↔ untimed net marking (some .empty) = .ok lp := by
  constructor
  · intro h
    obtain ⟨n, lp₀, huntimed, rfl⟩ := h.exists_untimed
    exact huntimed
  · intro huntimed
    refine ⟨StoppedClock, inferInstance, 1, 0, .stopped, [], ?_⟩
    have hbuild := build_eq_ok_iff.mpr ⟨huntimed, fun k _ => not_expired_stopped k, rfl⟩
    exact congrArg (·.1.answer)
      (perform_of_built (r := .start net marking 1 0 StoppedClock.stopped) rfl hbuild)

/-- What is stored in the column of a transition. -/
theorem ColumnOf.lookup_eq {t : ℕ} {pre post : List ArcEntry} (h : ColumnOf net t pre post)
    (p : PlaceId) : (entriesOf (mergeArcs pre post)).lookup (p.index + 1) =
      if p ∈ placesOf pre ∨ p ∈ placesOf post then some (netAmount pre post p) else none := by
  change (entriesOf (mergeArcs pre post)).lookup p.lpIndex = _
  rw [entriesOf, lookup_map_key lpIndex_injective]
  split_ifs with hp
  · exact lookup_mergeArcs h.nodup p (mem_mentioned_iff.mpr hp)
  · exact lookup_eq_none_iff_notMem.mpr fun hmem => hp (mem_mentioned_iff.mp hmem)

/-- The column of the transition number `t` encodes its arcs. -/
structure EncodesArcs (net : N) (lp : SparseLp) (t : ℕ) (pre post : List ArcEntry) : Prop where
  arcs : ∃ transition : TransitionId, Id.ofIndex t = .ok transition ∧
    PetriNet.preset net transition = .ofList pre ∧ PetriNet.postset net transition = .ofList post
  pre_nodup : (placesOf pre).Nodup
  post_nodup : (placesOf post).Nodup
  lt_places : ∀ p, p ∈ placesOf pre ∨ p ∈ placesOf post → p.index < PetriNet.numPlaces net
  stored?_eq : ∀ p : PlaceId, p.index < PetriNet.numPlaces net →
    lp.stored? (p.index + 1) (t + 1) =
      if p ∈ placesOf pre ∨ p ∈ placesOf post then some (netAmount pre post p) else none

theorem Contents.encodesArcs {lp : SparseLp} (h : Contents net marking lp) {t : ℕ}
    (ht : t < PetriNet.numTransitions net) : ∃ pre post, EncodesArcs net lp t pre post := by
  obtain ⟨pre, post, hcolumn, hentry⟩ := h.stateEntry t ht
  refine ⟨pre, post, hcolumn.preset_eq, ?_, ?_, ?_, ?_⟩
  · exact hcolumn.nodup.sublist (pre_sublist_mergeArcs pre post)
  · exact hcolumn.nodup.sublist (post_sublist_mergeArcs pre post)
  · intro p hp
    exact hcolumn.lt_places p (mem_mentioned_iff.mpr hp)
  · intro p hp
    rw [hentry (p.index + 1) hp, hcolumn.lookup_eq]

section

variable {lpBudget : UInt32} {r r' : Relaxation N SparseLp C} {seen : Seen SparseLp}

/-- A construction that can be completed is answered, unless the budget expires before. -/
theorem Step.answered_or_expired (h : Step r .baseProgram seen r')
    (hsound : Sound net marking lpBudget r) {lp : SparseLp}
    (huntimed : untimed net marking (some .empty) = .ok lp) :
    seen.answer = .ok (.base (some lp)) ∨
      ∃ k < 1 + PetriNet.numTransitions net + 2 * PetriNet.numPlaces net,
        Expired r.lpBudget (Clock.reading r.clock k) ∧ seen.answer = .ok (.base none) ∧
          ∃ stage done, seen.log = [.failed (.expired stage done)] := by
  obtain ⟨rfl, rfl, -, hkept⟩ := hsound
  cases h with
  | hit lp' hbase =>
    obtain ⟨n, hlp'⟩ := hkept lp' hbase
    cases hlp'.symm.trans huntimed
    exact Or.inl rfl
  | built lp' looks hbase hsteps =>
    cases hsteps.symm.trans huntimed
    exact Or.inl rfl
  | failed reason looks hbase hcause =>
    cases hcause with
    | expired k poll hpoll hfirst =>
      have hk : k < (polls r.net r.marking (some SparseLp.empty)).length :=
        (List.getElem?_eq_some_iff.mp hpoll).1
      rw [polls_of_ok huntimed, length_allPolls] at hk
      exact Or.inr ⟨k, hk, hfirst.expired, rfl, poll.1, poll.2, rfl⟩
    | markingLength htime hne =>
      obtain ⟨lp₀, hbegun, -⟩ := bind_eq_ok_iff.mp huntimed
      exact absurd (length_of_begun hbegun) hne
    | unallocated htime hlength hnone => cases hnone
    | rejected e htime hsteps => cases huntimed.symm.trans hsteps
  | faulted e looks hbase hsteps => cases huntimed.symm.trans hsteps
  | other call answer reads negated hcall => exact absurd rfl hcall

end

end PetriAnalysis
