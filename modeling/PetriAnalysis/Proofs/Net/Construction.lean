import PetriAnalysis.Proofs.Net.Edits

/-!
# Nets under construction

A net grows from the net without elements by calls in any order: places and transitions come in
between arcs, an arc is raised or replaced, and an ordinary arc turns into an inhibitor arc and
back. As long as no call faults, the three matrices keep in step with the elements, and no
inhibitor flag stands over a zero. On such a net the lists of arcs of a transition and the single
weights describe the same arcs.

## Main definitions

* `ArcsAgree n t pre post` — the arcs of a transition against the single weights.
-/

namespace PetriAnalysis

namespace Net

variable {n n' : Net} {p : PlaceId} {t : TransitionId} {w : Weight}

/-! ## What the calls keep -/

theorem wellFormed_empty : empty.WellFormed :=
  ⟨Incidence.shaped_filled 0, Incidence.shaped_filled 0, Incidence.shaped_filled false,
    Nat.zero_le _, Nat.zero_le _, fun _ hp => absurd hp (Nat.not_lt_zero _)⟩

namespace WellFormed

/-- There is a threshold under each flag. -/
theorem inputAt_ne_zero (hn : n.WellFormed) {q u : ℕ} (h : n.inhibitorAt q u = true) :
    n.inputAt q u ≠ 0 := by
  rw [inhibitorAt] at h
  cases hcell : n.inhibitor.cell? q u with
  | none => rw [hcell] at h; cases h
  | some flag =>
    obtain ⟨hq, hu⟩ := hn.inhibitor_shaped.lt_of_cell? hcell
    exact hn.threshold_ne_zero q hq u hu (by rwa [inhibitorAt])

/-- A net with the same weights and flags has a threshold under each flag too. -/
theorem threshold_of_same (hn : n.WellFormed)
    (hinput : ∀ q u, (n'.pre.cell? q u).getD 0 = (n.pre.cell? q u).getD 0)
    (hflag : ∀ q u, (n'.inhibitor.cell? q u).getD false = (n.inhibitor.cell? q u).getD false) :
    ∀ q < n'.numPlaces, ∀ u < n'.numTransitions,
      n'.inhibitorAt q u = true → n'.inputAt q u ≠ 0 := by
  intro q _ u _ h
  rw [inhibitorAt, hflag] at h
  rw [inputAt, hinput]
  exact hn.inputAt_ne_zero h

theorem addPlace (hn : n.WellFormed) {place : Place} (h : Net.addPlace place n = .ok p n') :
    n'.WellFormed := by
  obtain ⟨hid, ⟨⟨_, hpre⟩, ⟨_, hpost⟩, ⟨_, hinhibitor⟩, hplaces, htransitions⟩⟩ := addPlace_eq_ok h
  have hnumPlaces : n'.numPlaces = n.numPlaces + 1 := by
    rw [numPlaces, hplaces]
    exact Array.size_push _
  have hnumTransitions : n'.numTransitions = n.numTransitions := by
    rw [numTransitions, htransitions, numTransitions]
  obtain ⟨hpre, hinput⟩ := hn.pre_shaped.pushPlace hpre
  obtain ⟨hpost, -⟩ := hn.post_shaped.pushPlace hpost
  obtain ⟨hinhibitor, hflag⟩ := hn.inhibitor_shaped.pushPlace hinhibitor
  rw [← hnumPlaces, ← hnumTransitions] at hpre hpost hinhibitor
  refine ⟨hpre, hpost, hinhibitor, ?_, ?_, hn.threshold_of_same hinput hflag⟩
  · exact hnumPlaces ▸ Nat.succ_le_of_lt (lt_of_ofIndex hid)
  · exact hnumTransitions ▸ hn.transitions_le

theorem addTransition (hn : n.WellFormed) {transition : Transition}
    (h : Net.addTransition transition n = .ok t n') : n'.WellFormed := by
  obtain ⟨hid, ⟨⟨_, hpre⟩, ⟨_, hpost⟩, ⟨_, hinhibitor⟩, hplaces, htransitions⟩⟩ :=
    addTransition_eq_ok h
  have hnumPlaces : n'.numPlaces = n.numPlaces := by
    rw [numPlaces, hplaces, numPlaces]
  have hnumTransitions : n'.numTransitions = n.numTransitions + 1 := by
    rw [numTransitions, htransitions]
    exact Array.size_push _
  obtain ⟨hpre, hinput⟩ := hn.pre_shaped.pushTransition hpre
  obtain ⟨hpost, -⟩ := hn.post_shaped.pushTransition hpost
  obtain ⟨hinhibitor, hflag⟩ := hn.inhibitor_shaped.pushTransition hinhibitor
  rw [← hnumPlaces, ← hnumTransitions] at hpre hpost hinhibitor
  refine ⟨hpre, hpost, hinhibitor, ?_, ?_, hn.threshold_of_same hinput hflag⟩
  · exact hnumPlaces ▸ hn.places_le
  · exact hnumTransitions ▸ Nat.succ_le_of_lt (lt_of_ofIndex hid)

theorem outputWritten (hn : n.WellFormed) (h : n.OutputWritten p t w n') : n'.WellFormed := by
  obtain ⟨hpost, hplaces, htransitions, hpre, hinhibitor⟩ := h
  have hnumPlaces : n'.numPlaces = n.numPlaces := congrArg Family.size hplaces
  have hnumTransitions : n'.numTransitions = n.numTransitions := congrArg Family.size htransitions
  constructor
  case pre_shaped => rw [hnumPlaces, hnumTransitions, hpre]; exact hn.pre_shaped
  case post_shaped => rw [hnumPlaces, hnumTransitions]; exact hn.post_shaped.set hpost
  case inhibitor_shaped => rw [hnumPlaces, hnumTransitions, hinhibitor]; exact hn.inhibitor_shaped
  case places_le => exact hnumPlaces ▸ hn.places_le
  case transitions_le => exact hnumTransitions ▸ hn.transitions_le
  case threshold_ne_zero =>
    refine hn.threshold_of_same ?_ ?_
    · intro q u; rw [hpre]
    · intro q u; rw [hinhibitor]

/-- A flag may be written together with a threshold, and must not be written over a zero. -/
theorem inputWritten (hn : n.WellFormed) {flag : Bool} (h : n.InputWritten p t w flag n')
    (hflag : flag = true → w ≠ 0) : n'.WellFormed := by
  obtain ⟨hpre, hinhibitor, hplaces, htransitions, hpost⟩ := h
  have hnumPlaces : n'.numPlaces = n.numPlaces := congrArg Family.size hplaces
  have hnumTransitions : n'.numTransitions = n.numTransitions := congrArg Family.size htransitions
  constructor
  case pre_shaped => rw [hnumPlaces, hnumTransitions]; exact hn.pre_shaped.set hpre
  case post_shaped => rw [hnumPlaces, hnumTransitions, hpost]; exact hn.post_shaped
  case inhibitor_shaped =>
    rw [hnumPlaces, hnumTransitions]; exact hn.inhibitor_shaped.set hinhibitor
  case places_le => exact hnumPlaces ▸ hn.places_le
  case transitions_le => exact hnumTransitions ▸ hn.transitions_le
  case threshold_ne_zero =>
    intro q _ u _ h
    rw [inhibitorAt, Incidence.cell?_set hinhibitor] at h
    rw [inputAt, Incidence.cell?_set hpre]
    by_cases hcell : p.index = q ∧ t.index = u
    · rw [if_pos hcell, Option.getD_some] at h ⊢
      exact hflag h
    · rw [if_neg hcell] at h ⊢
      exact hn.inputAt_ne_zero h

end WellFormed

/-- A call that does not fault keeps a net well-formed. -/
theorem WellFormed.edit (hn : n.WellFormed) {edit : Edit} (h : edit.apply n = .ok () n') :
    n'.WellFormed := by
  cases edit with
  | addPlace place =>
    obtain ⟨p, n₁, hadd, hreturn⟩ := update_bind_eq_ok_iff.mp h
    obtain ⟨-, rfl⟩ := update_pure_eq_ok_iff.mp hreturn
    exact hn.addPlace hadd
  | addTransition transition =>
    obtain ⟨t, n₁, hadd, hreturn⟩ := update_bind_eq_ok_iff.mp h
    obtain ⟨-, rfl⟩ := update_pure_eq_ok_iff.mp hreturn
    exact hn.addTransition hadd
  | addInputArc p t w =>
    rcases addInputArc_eq_ok h with ⟨-, rfl⟩ | ⟨-, _, _, _, -, -, -, hwritten⟩
    · exact hn
    · exact hn.inputWritten hwritten (by simp)
  | addOutputArc p t w =>
    rcases addOutputArc_eq_ok h with ⟨-, rfl⟩ | ⟨-, _, _, -, -, hwritten⟩
    · exact hn
    · exact hn.outputWritten hwritten
  | addInhibitorArc p t threshold =>
    rcases addInhibitorArc_eq_ok h with ⟨-, rfl⟩ | ⟨hthreshold, hwritten⟩
    · exact hn
    · exact hn.inputWritten hwritten fun _ => hthreshold
  | setInputWeight p t w => exact hn.inputWritten (setInputWeight_eq_ok h) (by simp)
  | setOutputWeight p t w => exact hn.outputWritten (setOutputWeight_eq_ok h)

theorem WellFormed.construct (hn : n.WellFormed) {edits : List Edit}
    (h : Net.construct edits n = .ok () n') : n'.WellFormed := by
  induction edits generalizing n with
  | nil =>
    obtain ⟨-, rfl⟩ := update_pure_eq_ok_iff.mp h
    exact hn
  | cons edit edits ih =>
    obtain ⟨_, n₁, hfirst, hrest⟩ := update_bind_eq_ok_iff.mp h
    exact ih (hn.edit hfirst) hrest

end Net

/-! ## Lists of arcs and single weights -/

/-- The two lists are the arcs of a transition, by strictly ascending place, and they agree with
the single weights: an ordinary arc is a positive weight, and an inhibitor arc is a flag over a
positive threshold, where the transition takes nothing. -/
structure ArcsAgree (n : Net) (t : TransitionId) (pre post : List ArcEntry) : Prop where
  preset_eq : PetriNet.preset n t = .ofList pre
  postset_eq : PetriNet.postset n t = .ofList post
  pre_ascending : Ascending pre
  post_ascending : Ascending post
  arc : ∀ arc, arc ∈ pre ∨ arc ∈ post →
    arc.place.index < PetriNet.numPlaces n ∧ 0 < arc.tokens
  mem_post_iff : ∀ arc, arc ∈ post ↔
    arc.inhibitor = false ∧ PetriNet.outWeight n t arc.place = .ok arc.tokens ∧ 0 < arc.tokens
  ordinary_mem_pre_iff : ∀ p w, .ordinary p w ∈ pre ↔ PetriNet.inWeight n p t = .ok w ∧ 0 < w
  inhibiting_mem_pre_iff : ∀ p w, .inhibiting p w ∈ pre ↔
    n.isInhibitor p t = .ok true ∧ n.pre.get p t = .ok w
  threshold : ∀ p, n.isInhibitor p t = .ok true →
    ∃ w, n.pre.get p t = .ok w ∧ 0 < w ∧ PetriNet.inWeight n p t = .ok 0

namespace Net.WellFormed

variable {n : Net} {p : PlaceId} {t : TransitionId} {w : Weight}

theorem lt_of_outWeight (hn : n.WellFormed) (h : n.outWeight t p = .ok w) :
    p.index < n.numPlaces :=
  (hn.post_shaped.lt_of_cell? (Incidence.get_eq_ok_iff.mp h)).1

theorem lt_of_isInhibitor (hn : n.WellFormed) {flag : Bool} (h : n.isInhibitor p t = .ok flag) :
    p.index < n.numPlaces :=
  (hn.inhibitor_shaped.lt_of_cell? (Incidence.get_eq_ok_iff.mp h)).1

theorem lt_of_inWeight (hn : n.WellFormed) (h : n.inWeight p t = .ok w) :
    p.index < n.numPlaces := by
  obtain ⟨flag, hflag, -⟩ := bind_eq_ok_iff.mp h
  exact hn.lt_of_isInhibitor hflag

/-- The arc out of a transition is a positive weight. -/
theorem mem_outputArcs_iff (hn : n.WellFormed) (ht : t.index < n.numTransitions) {arc : ArcEntry} :
    arc ∈ n.outputArcs t.index ↔
      arc.inhibitor = false ∧ n.outWeight t arc.place = .ok arc.tokens ∧ 0 < arc.tokens := by
  rw [outputArcs, mem_arcsAlong_iff hn.places_le]
  constructor
  · rintro ⟨hp, hpos, hweight, hordinary⟩
    exact ⟨hordinary, by rw [hn.outWeight_eq hp ht, hweight], hpos⟩
  · rintro ⟨hordinary, hweight, hpos⟩
    have hp := hn.lt_of_outWeight hweight
    rw [hn.outWeight_eq hp ht, Except.ok.injEq] at hweight
    exact ⟨hp, hpos, hweight.symm, hordinary⟩

/-- An ordinary arc into a transition is a positive weight that the transition takes. -/
theorem ordinary_mem_inputArcs_iff (hn : n.WellFormed) (ht : t.index < n.numTransitions) :
    .ordinary p w ∈ n.inputArcs t.index ↔ n.inWeight p t = .ok w ∧ 0 < w := by
  rw [inputArcs, mem_arcsAlong_iff hn.places_le]
  simp only [ArcEntry.ordinary]
  constructor
  · rintro ⟨hp, hpos, hweight, hordinary⟩
    refine ⟨?_, hpos⟩
    rw [hn.inWeight_eq hp ht, takenAt, ← hordinary]
    exact congrArg Except.ok hweight.symm
  · rintro ⟨hweight, hpos⟩
    have hp := hn.lt_of_inWeight hweight
    rw [hn.inWeight_eq hp ht, Except.ok.injEq, takenAt] at hweight
    by_cases hflag : n.inhibitorAt p.index t.index
    · rw [if_pos hflag] at hweight
      exact absurd hpos (hweight ▸ UInt64.lt_irrefl 0)
    · rw [if_neg hflag] at hweight
      exact ⟨hp, hpos, hweight.symm, (Bool.not_eq_true _ ▸ hflag).symm⟩

/-- An inhibitor arc into a transition is a flag with the threshold under it. -/
theorem inhibiting_mem_inputArcs_iff (hn : n.WellFormed) (ht : t.index < n.numTransitions) :
    .inhibiting p w ∈ n.inputArcs t.index ↔
      n.isInhibitor p t = .ok true ∧ n.pre.get p t = .ok w := by
  rw [inputArcs, mem_arcsAlong_iff hn.places_le]
  simp only [ArcEntry.inhibiting]
  constructor
  · rintro ⟨hp, _, hweight, hflag⟩
    rw [hn.isInhibitor_eq hp ht, hn.get_pre hp ht, ← hflag]
    exact ⟨rfl, congrArg Except.ok hweight.symm⟩
  · rintro ⟨hflag, hweight⟩
    have hp := hn.lt_of_isInhibitor hflag
    rw [hn.isInhibitor_eq hp ht, Except.ok.injEq] at hflag
    rw [hn.get_pre hp ht, Except.ok.injEq] at hweight
    refine ⟨hp, ?_, hweight.symm, hflag.symm⟩
    exact UInt64.pos_iff_ne_zero.mpr (hweight ▸ hn.inputAt_ne_zero hflag)

theorem exists_threshold (hn : n.WellFormed) (ht : t.index < n.numTransitions)
    (h : n.isInhibitor p t = .ok true) :
    ∃ w, n.pre.get p t = .ok w ∧ 0 < w ∧ n.inWeight p t = .ok 0 := by
  have hp := hn.lt_of_isInhibitor h
  rw [hn.isInhibitor_eq hp ht, Except.ok.injEq] at h
  refine ⟨_, hn.get_pre hp ht, UInt64.pos_iff_ne_zero.mpr (hn.inputAt_ne_zero h), ?_⟩
  rw [hn.inWeight_eq hp ht, takenAt, if_pos h]

theorem arcsAgree (hn : n.WellFormed) (ht : t.index < n.numTransitions) :
    ArcsAgree n t (n.inputArcs t.index) (n.outputArcs t.index) where
  preset_eq := hn.preset_eq ht
  postset_eq := hn.postset_eq ht
  pre_ascending := ascending_arcsAlong hn.places_le
  post_ascending := ascending_arcsAlong hn.places_le
  arc arc harc := by
    rcases harc with harc | harc
    · obtain ⟨hp, hpos, -⟩ := (mem_arcsAlong_iff hn.places_le).mp harc
      exact ⟨hp, hpos⟩
    · obtain ⟨hp, hpos, -⟩ := (mem_arcsAlong_iff hn.places_le).mp harc
      exact ⟨hp, hpos⟩
  mem_post_iff _ := hn.mem_outputArcs_iff ht
  ordinary_mem_pre_iff _ _ := hn.ordinary_mem_inputArcs_iff ht
  inhibiting_mem_pre_iff _ _ := hn.inhibiting_mem_inputArcs_iff ht
  threshold _ := hn.exists_threshold ht

end Net.WellFormed

/-- On a well-formed net the arcs of each transition are two lists in strictly ascending order of
places that agree with the single weights, and every history of calls without a fault leads from
the net without elements to a well-formed net. -/
theorem constructed_arcsAgree :
    (∀ (n : Net) (t : TransitionId), n.WellFormed → t.index < PetriNet.numTransitions n →
      ∃ pre post, ArcsAgree n t pre post) ∧
    ∀ (edits : List Edit) (n : Net), Net.construct edits .empty = .ok () n → n.WellFormed :=
  ⟨fun _ _ hn ht => ⟨_, _, hn.arcsAgree ht⟩,
    fun _ _ h => Net.wellFormed_empty.construct h⟩

/-- A gate that is passed with a ticket while it is not locked twice. -/
def gate : Net where
  places := ⟨#[⟨"ticket", 1⟩, ⟨"lock", 0⟩]⟩
  transitions := ⟨#[⟨"pass"⟩, ⟨"buy"⟩]⟩
  pre := ⟨⟨#[#[1, 0], #[2, 0]]⟩, 2⟩
  post := ⟨⟨#[#[0, 2], #[0, 0]]⟩, 2⟩
  inhibitor := ⟨⟨#[#[false, false], #[true, false]]⟩, 2⟩

/-- The gate in the making. Elements come in between arcs, and an arc of either kind is replaced by
one of the other kind. -/
def gateEdits : List Edit :=
  [.addPlace ⟨"ticket", 1⟩, .addTransition ⟨"pass"⟩, .addInputArc ⟨0⟩ ⟨0⟩ 1,
    .addPlace ⟨"lock", 0⟩, .addInputArc ⟨1⟩ ⟨0⟩ 4, .addTransition ⟨"buy"⟩,
    .addInhibitorArc ⟨1⟩ ⟨0⟩ 2, .addInhibitorArc ⟨0⟩ ⟨1⟩ 3, .setInputWeight ⟨0⟩ ⟨1⟩ 0,
    .setOutputWeight ⟨0⟩ ⟨1⟩ 1, .addOutputArc ⟨0⟩ ⟨1⟩ 1]

theorem constructed_arcsAgree_gate : Net.construct gateEdits .empty = .ok () gate ∧
    gate.WellFormed ∧ (⟨0⟩ : TransitionId).index < PetriNet.numTransitions gate ∧
    ∃ post, ArcsAgree gate ⟨0⟩ [.ordinary ⟨0⟩ 1, .inhibiting ⟨1⟩ 2] post := by
  have hedits : Net.construct gateEdits .empty = .ok () gate := by cbv
  have hwellFormed := constructed_arcsAgree.2 gateEdits gate hedits
  have ht : (⟨0⟩ : TransitionId).index < PetriNet.numTransitions gate := by decide
  obtain ⟨pre, post, h⟩ := constructed_arcsAgree.1 gate ⟨0⟩ hwellFormed ht
  have hpre : PetriNet.preset gate (⟨0⟩ : TransitionId) =
      .ofList [.ordinary ⟨0⟩ 1, .inhibiting ⟨1⟩ 2] := by cbv
  obtain rfl := ofList_injective (h.preset_eq.symm.trans hpre)
  exact ⟨hedits, hwellFormed, ht, post, h⟩

end PetriAnalysis
