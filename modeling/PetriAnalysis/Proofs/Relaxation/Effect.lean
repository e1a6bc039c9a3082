import PetriAnalysis.Proofs.Double.Value
import PetriAnalysis.Proofs.Lookup
import PetriAnalysis.Relaxation.Effect

/-!
# What the merged effects say about arbitrary lists of arcs

The pass over the two lists of arcs of a transition emits each arc once, alone or together with
an arc of the other list. So both lists are contained in its output, in order, and an output that
mentions no place twice shows that neither list does. Then the two arcs of a place were emitted
together, and its effect is what is given minus what is taken, whatever the order of the lists.

## Main definitions

* `mergeArcs pre post` — the effects, for arcs that are given by lists.
* `netAmount pre post p` — what the arcs of two lists do to a place.
* `Ascending arcs` — arcs in strictly ascending order of places.
-/

namespace PetriAnalysis

/-- The effects of the arcs in two lists. -/
def mergeArcs : List ArcEntry → List ArcEntry → List (PlaceId × Float)
  | [], [] => []
  | i :: pre, [] => (i.place, 0 - i.consumed) :: mergeArcs pre []
  | [], o :: post => (o.place, o.produced) :: mergeArcs [] post
  | i :: pre, o :: post =>
    if i.place < o.place then (i.place, 0 - i.consumed) :: mergeArcs pre (o :: post)
    else if o.place < i.place then (o.place, o.produced) :: mergeArcs (i :: pre) post
    else (i.place, o.produced - i.consumed) :: mergeArcs pre post

theorem effects_ofList (pre post : List ArcEntry) :
    effects (.ofList pre) (.ofList post) = .ofList (mergeArcs pre post) := by
  fun_induction mergeArcs pre post with
  | case1 => simp [effects]
  | case2 i pre ih => simpa [effects] using ih
  | case3 o post ih => simpa [effects] using ih
  | case4 i pre o post h ih => simpa [effects, h] using ih
  | case5 i pre o post h h' ih => simpa [effects, h, h'] using ih
  | case6 i pre o post h h' ih => simpa [effects, h, h'] using ih

theorem toExcept_next_eq_ok_iff {α : Type} {a : α} {w : Walk α} {as : List α} :
    (Walk.next a w).toExcept = .ok as ↔ ∃ as', w.toExcept = .ok as' ∧ as = a :: as' := by
  cases hw : w.toExcept <;> simp [Walk.toExcept, hw, eq_comm]

/-- Effects that are read to their end come from lists. -/
theorem lists_of_effects {v w : Walk ArcEntry} {es : List (PlaceId × Float)}
    (h : (effects v w).toExcept = .ok es) :
    ∃ pre post, v = .ofList pre ∧ w = .ofList post ∧ es = mergeArcs pre post := by
  suffices ∃ pre post, v = .ofList pre ∧ w = .ofList post by
    obtain ⟨pre, post, rfl, rfl⟩ := this
    rw [effects_ofList, Walk.toExcept_ofList, Except.ok.injEq] at h
    exact ⟨pre, post, rfl, rfl, h.symm⟩
  induction v, w using effects.induct generalizing es with
  | case1 e w => simp [effects, Walk.toExcept] at h
  | case2 e => simp [effects, Walk.toExcept] at h
  | case3 i pre e => simp [effects, Walk.toExcept] at h
  | case4 => exact ⟨[], [], rfl, rfl⟩
  | case5 i pre ih =>
    rw [effects, toExcept_next_eq_ok_iff] at h
    obtain ⟨es', hes', -⟩ := h
    obtain ⟨pre, post, rfl, hpost⟩ := ih hes'
    exact ⟨i :: pre, post, rfl, hpost⟩
  | case6 o post ih =>
    rw [effects, toExcept_next_eq_ok_iff] at h
    obtain ⟨es', hes', -⟩ := h
    obtain ⟨pre, post, hpre, rfl⟩ := ih hes'
    exact ⟨pre, o :: post, hpre, rfl⟩
  | case7 i pre o post hlt ih =>
    rw [effects, if_pos hlt, toExcept_next_eq_ok_iff] at h
    obtain ⟨es', hes', -⟩ := h
    obtain ⟨pre, post, rfl, hpost⟩ := ih hes'
    exact ⟨i :: pre, post, rfl, hpost⟩
  | case8 i pre o post hlt hlt' ih =>
    rw [effects, if_neg hlt, if_pos hlt', toExcept_next_eq_ok_iff] at h
    obtain ⟨es', hes', -⟩ := h
    obtain ⟨pre, post, hpre, rfl⟩ := ih hes'
    exact ⟨pre, o :: post, hpre, rfl⟩
  | case9 i pre o post hlt hlt' ih =>
    rw [effects, if_neg hlt, if_neg hlt', toExcept_next_eq_ok_iff] at h
    obtain ⟨es', hes', -⟩ := h
    obtain ⟨pre, post, rfl, rfl⟩ := ih hes'
    exact ⟨i :: pre, o :: post, rfl, rfl⟩

/-! ## The places that are mentioned -/

/-- The places of a list of arcs. -/
abbrev placesOf (arcs : List ArcEntry) : List PlaceId := arcs.map ArcEntry.place

/-- The places that effects mention. -/
abbrev mentioned (es : List (PlaceId × Float)) : List PlaceId := es.map Prod.fst

theorem eq_of_not_lt {p q : PlaceId} (h : ¬ p < q) (h' : ¬ q < p) : p = q := by
  rw [Id.lt_iff_index_lt] at h h'
  exact Id.ext_index (by omega)

/-- Every input arc is emitted, in order. -/
theorem pre_sublist_mergeArcs (pre post : List ArcEntry) :
    (placesOf pre).Sublist (mentioned (mergeArcs pre post)) := by
  fun_induction mergeArcs pre post with
  | case1 => exact List.Sublist.slnil
  | case2 i pre ih => exact ih.cons_cons _
  | case3 o post ih => exact ih.cons _
  | case4 i pre o post h ih => exact ih.cons_cons _
  | case5 i pre o post h h' ih => exact ih.cons _
  | case6 i pre o post h h' ih => exact ih.cons_cons _

/-- Every output arc is emitted, in order. -/
theorem post_sublist_mergeArcs (pre post : List ArcEntry) :
    (placesOf post).Sublist (mentioned (mergeArcs pre post)) := by
  fun_induction mergeArcs pre post with
  | case1 => exact List.Sublist.slnil
  | case2 i pre ih => exact ih.cons _
  | case3 o post ih => exact ih.cons_cons _
  | case4 i pre o post h ih => exact ih.cons _
  | case5 i pre o post h h' ih => exact ih.cons_cons _
  | case6 i pre o post h h' ih =>
    rw [eq_of_not_lt h h']
    exact ih.cons_cons _

/-- Nothing else is emitted. -/
theorem mem_mentioned_iff {pre post : List ArcEntry} {p : PlaceId} :
    p ∈ mentioned (mergeArcs pre post) ↔ p ∈ placesOf pre ∨ p ∈ placesOf post := by
  fun_induction mergeArcs pre post with
  | case1 => simp
  | case2 i pre ih => simp_all
  | case3 o post ih => simp_all
  | case4 i pre o post h ih => simp_all [or_assoc]
  | case5 i pre o post h h' ih => simp_all [or_left_comm]
  | case6 i pre o post h h' ih =>
    have := eq_of_not_lt h h'
    simp_all [or_or_or_comm]

/-! ## The effects -/

/-- What the first arc at a place moves. -/
def amountAt (f : ArcEntry → Float) (arcs : List ArcEntry) (p : PlaceId) : Float :=
  match arcs.find? (·.place = p) with
  | some arc => f arc
  | none => 0

section

variable {f : ArcEntry → Float} {arc : ArcEntry} {arcs : List ArcEntry} {p : PlaceId}

@[simp] theorem amountAt_cons_self : amountAt f (arc :: arcs) arc.place = f arc := by
  simp [amountAt]

theorem amountAt_cons_of_ne (arcs : List ArcEntry) (h : p ≠ arc.place) :
    amountAt f (arc :: arcs) p = amountAt f arcs p := by
  simp [amountAt, Ne.symm h]

theorem amountAt_of_notMem (h : p ∉ placesOf arcs) : amountAt f arcs p = 0 := by
  have hnone : arcs.find? (·.place = p) = none := by
    rw [List.find?_eq_none]
    rintro arc harc hp
    exact h (of_decide_eq_true hp ▸ List.mem_map_of_mem harc)
  rw [amountAt, hnone]

/-- Among arcs to different places the one at a place is found. -/
theorem amountAt_of_mem (hnodup : (placesOf arcs).Nodup) (harc : arc ∈ arcs) :
    amountAt f arcs arc.place = f arc := by
  induction arcs with
  | nil => cases harc
  | cons arc' arcs ih =>
    obtain ⟨hnew, hrest⟩ := List.nodup_cons.mp hnodup
    rcases List.mem_cons.mp harc with rfl | harc
    · exact amountAt_cons_self
    · have hne := ne_of_mem_of_not_mem (List.mem_map_of_mem harc) hnew
      rw [amountAt_cons_of_ne arcs hne, ih hrest harc]

end

/-- What a transition does to a place according to the two lists of its arcs. -/
def netAmount (pre post : List ArcEntry) (p : PlaceId) : Float :=
  amountAt ArcEntry.produced post p - amountAt ArcEntry.consumed pre p

/-- Effects follow `f` if their first entry does and the others do. -/
theorem lookup_cons_eq {es : List (PlaceId × Float)} {f : PlaceId → Float} {q : PlaceId}
    {x : Float} (hfirst : f q = x) (hrest : ∀ p ∈ mentioned es, es.lookup p = some (f p)) :
    ∀ p ∈ mentioned ((q, x) :: es), ((q, x) :: es).lookup p = some (f p) := by
  intro p hp
  by_cases hpq : p = q
  · rw [hpq, List.lookup_cons_self, hfirst]
  · rw [List.lookup_cons, beq_false_of_ne hpq]
    exact hrest p ((List.mem_cons.mp hp).resolve_left hpq)

/-- If no place is mentioned twice, the two arcs of a place were emitted together. -/
theorem lookup_mergeArcs {pre post : List ArcEntry}
    (hnodup : (mentioned (mergeArcs pre post)).Nodup) :
    ∀ p ∈ mentioned (mergeArcs pre post),
      (mergeArcs pre post).lookup p = some (netAmount pre post p) := by
  fun_induction mergeArcs pre post with
  | case1 => simp
  | case2 i pre ih =>
    obtain ⟨hnew, hrest⟩ := List.nodup_cons.mp hnodup
    refine lookup_cons_eq ?_ ?_
    · rw [netAmount, amountAt_cons_self, amountAt_of_notMem List.not_mem_nil]
    · intro p hp
      rw [ih hrest p hp, netAmount, netAmount,
        amountAt_cons_of_ne pre (ne_of_mem_of_not_mem hp hnew)]
  | case3 o post ih =>
    obtain ⟨hnew, hrest⟩ := List.nodup_cons.mp hnodup
    refine lookup_cons_eq ?_ ?_
    · rw [netAmount, amountAt_cons_self, amountAt_of_notMem List.not_mem_nil, Double.sub_zero]
    · intro p hp
      rw [ih hrest p hp, netAmount, netAmount,
        amountAt_cons_of_ne post (ne_of_mem_of_not_mem hp hnew)]
  | case4 i pre o post h ih =>
    obtain ⟨hnew, hrest⟩ := List.nodup_cons.mp hnodup
    have habsent := fun hp => hnew (mem_mentioned_iff.mpr (Or.inr hp))
    refine lookup_cons_eq ?_ ?_
    · rw [netAmount, amountAt_cons_self, amountAt_of_notMem habsent]
    · intro p hp
      rw [ih hrest p hp, netAmount, netAmount,
        amountAt_cons_of_ne pre (ne_of_mem_of_not_mem hp hnew)]
  | case5 i pre o post h h' ih =>
    obtain ⟨hnew, hrest⟩ := List.nodup_cons.mp hnodup
    have habsent := fun hp => hnew (mem_mentioned_iff.mpr (Or.inl hp))
    refine lookup_cons_eq ?_ ?_
    · rw [netAmount, amountAt_cons_self, amountAt_of_notMem habsent, Double.sub_zero]
    · intro p hp
      rw [ih hrest p hp, netAmount, netAmount,
        amountAt_cons_of_ne post (ne_of_mem_of_not_mem hp hnew)]
  | case6 i pre o post h h' ih =>
    have hplace := eq_of_not_lt h h'
    obtain ⟨hnew, hrest⟩ := List.nodup_cons.mp hnodup
    refine lookup_cons_eq ?_ ?_
    · rw [netAmount, amountAt_cons_self, hplace, amountAt_cons_self]
    · intro p hp
      have hne := ne_of_mem_of_not_mem hp hnew
      rw [ih hrest p hp, netAmount, netAmount, amountAt_cons_of_ne pre hne,
        amountAt_cons_of_ne post (hplace ▸ hne)]

/-! ## Sorted lists -/

/-- Places in strictly ascending order. -/
def AscendingPlaces (ps : List PlaceId) : Prop := ps.Pairwise fun p q => p.index < q.index

/-- Arcs in strictly ascending order of their places. -/
def Ascending (arcs : List ArcEntry) : Prop := AscendingPlaces (placesOf arcs)

theorem AscendingPlaces.nodup {ps : List PlaceId} (h : AscendingPlaces ps) : ps.Nodup :=
  List.Pairwise.imp (fun hlt heq => (heq ▸ hlt).false) h

theorem ascendingPlaces_cons {p : PlaceId} {ps : List PlaceId} :
    AscendingPlaces (p :: ps) ↔ (∀ q ∈ ps, p.index < q.index) ∧ AscendingPlaces ps :=
  List.pairwise_cons

/-- Sorted lists have sorted effects, so that no place is mentioned twice. -/
theorem ascending_mergeArcs {pre post : List ArcEntry} (hpre : Ascending pre)
    (hpost : Ascending post) : AscendingPlaces (mentioned (mergeArcs pre post)) := by
  fun_induction mergeArcs pre post with
  | case1 => exact List.Pairwise.nil
  | case2 i pre ih =>
    obtain ⟨hi, hpre⟩ := ascendingPlaces_cons.mp hpre
    refine ascendingPlaces_cons.mpr ⟨?_, ih hpre hpost⟩
    intro q hq
    exact hi q ((mem_mentioned_iff.mp hq).resolve_right List.not_mem_nil)
  | case3 o post ih =>
    obtain ⟨ho, hpost⟩ := ascendingPlaces_cons.mp hpost
    refine ascendingPlaces_cons.mpr ⟨?_, ih hpre hpost⟩
    intro q hq
    exact ho q ((mem_mentioned_iff.mp hq).resolve_left List.not_mem_nil)
  | case4 i pre o post h ih =>
    obtain ⟨hi, hpre⟩ := ascendingPlaces_cons.mp hpre
    have ho := (ascendingPlaces_cons.mp hpost).1
    rw [Id.lt_iff_index_lt] at h
    refine ascendingPlaces_cons.mpr ⟨?_, ih hpre hpost⟩
    intro q hq
    rcases mem_mentioned_iff.mp hq with hq | hq
    · exact hi q hq
    · rcases List.mem_cons.mp hq with rfl | hq
      · exact h
      · exact h.trans (ho q hq)
  | case5 i pre o post h h' ih =>
    obtain ⟨ho, hpost⟩ := ascendingPlaces_cons.mp hpost
    have hi := (ascendingPlaces_cons.mp hpre).1
    rw [Id.lt_iff_index_lt] at h'
    refine ascendingPlaces_cons.mpr ⟨?_, ih hpre hpost⟩
    intro q hq
    rcases mem_mentioned_iff.mp hq with hq | hq
    · rcases List.mem_cons.mp hq with rfl | hq
      · exact h'
      · exact h'.trans (hi q hq)
    · exact ho q hq
  | case6 i pre o post h h' ih =>
    obtain ⟨hi, hpre⟩ := ascendingPlaces_cons.mp hpre
    obtain ⟨ho, hpost⟩ := ascendingPlaces_cons.mp hpost
    have hplace := eq_of_not_lt h h'
    refine ascendingPlaces_cons.mpr ⟨?_, ih hpre hpost⟩
    intro q hq
    rcases mem_mentioned_iff.mp hq with hq | hq
    · exact hi q hq
    · exact hplace ▸ ho q hq

end PetriAnalysis
