import Mathlib.Data.List.Basic
import PetriAnalysis.Proofs.Relaxation.Acceptance

/-!
# Well-formed nets

The three matrices of a well-formed net have a row for each place and, in each row, a cell for
each transition, and no inhibitor flag stands over a zero. Then no access to a cell faults. The
arcs of a transition are two lists in ascending order of places, which can be written down from
the cells of its columns.

## Main definitions

* `Incidence.Shaped` — a matrix of a given size.
* `Net.WellFormed`.
* `arcsAlong` — the arcs with given weights, by place.
* `Net.inputArcs`, `Net.outputArcs` — the arcs of a transition as lists.
-/

namespace PetriAnalysis

/-- The identifier of a position. -/
def idAt {kind : Element} (i : ℕ) : Id kind := ⟨UInt32.ofNat i⟩

theorem index_idAt (kind : Element) {i : ℕ} (h : i < UInt32.size) :
    (idAt i : Id kind).index = i := by
  simpa [idAt, Id.index] using Nat.mod_eq_of_lt h

@[simp] theorem idAt_index {kind : Element} (i : Id kind) : idAt i.index = i := by
  simp [idAt, Id.index]

theorem ofIndex_eq_idAt {kind : Element} {i : ℕ} (h : i < UInt32.size) :
    Id.ofIndex i = .ok (idAt i : Id kind) :=
  if_pos h

section

variable {α β : Type}

theorem traverse_enumerateFrom {kind : Element} {f : Id kind × α → Except Fault β} {g : ℕ → β}
    {xs : List α} {n : ℕ} (hsize : n + xs.length ≤ UInt32.size)
    (h : ∀ i x, xs[i]? = some x → f (idAt (n + i), x) = .ok (g (n + i))) :
    (enumerateFrom n xs).traverse f = .ofList ((List.range' n xs.length).map g) := by
  induction xs generalizing n with
  | nil => rfl
  | cons x xs ih =>
    rw [List.length_cons] at hsize
    have hfirst : f (idAt n, x) = .ok (g n) := h 0 x rfl
    have hrest := ih (n := n + 1) (by omega) fun i y hi => by
      have := h (i + 1) y hi
      rwa [Nat.add_comm i 1, ← Nat.add_assoc] at this
    rw [enumerateFrom, ofIndex_eq_idAt (by omega), List.length_cons, List.range'_succ]
    simp only [Walk.traverse, hfirst, hrest, List.map_cons, Walk.ofList_cons]

/-- A walk through an array that never faults is a list by position. -/
theorem traverse_enumerate {kind : Element} {f : Id kind × α → Except Fault β} {g : ℕ → β}
    {xs : Array α} (hsize : xs.size ≤ UInt32.size)
    (h : ∀ i x, xs[i]? = some x → f (idAt i, x) = .ok (g i)) :
    (enumerate xs).traverse f = .ofList ((List.range xs.size).map g) := by
  rw [enumerate, List.range_eq_range', ← Array.length_toList]
  refine traverse_enumerateFrom (by simpa using hsize) ?_
  intro i x hi
  rw [Nat.zero_add]
  exact h i x (by rwa [Array.getElem?_toList] at hi)

theorem ofList_injective : Function.Injective (Walk.ofList : List α → Walk α) := by
  intro as bs h
  have := congrArg Walk.toExcept h
  rwa [Walk.toExcept_ofList, Walk.toExcept_ofList, Except.ok.injEq] at this

end

/-! ## Cells of matrices -/

namespace Incidence

variable {α β : Type}

/-- The matrix has `places` rows of `transitions` cells. -/
structure Shaped (m : Incidence α) (places transitions : ℕ) : Prop where
  numPlaces_eq : m.numPlaces = places
  numTransitions_eq : m.numTransitions = transitions
  rectangular : m.Rectangular

instance (m : Incidence α) (places transitions : ℕ) : Decidable (m.Shaped places transitions) :=
  decidable_of_iff (m.numPlaces = places ∧ m.numTransitions = transitions ∧
      ∀ row ∈ m.rows.data, row.size = m.numTransitions)
    ⟨fun ⟨h₁, h₂, h₃⟩ => ⟨h₁, h₂, h₃⟩, fun ⟨h₁, h₂, h₃⟩ => ⟨h₁, h₂, h₃⟩⟩

/-- The value of a cell, if there is such a cell. -/
def cell? (m : Incidence α) (p t : ℕ) : Option α := m.rows.data[p]?.bind (·[t]?)

theorem get_eq_ok_iff {m : Incidence α} {p : PlaceId} {t : TransitionId} {x : α} :
    m.get p t = .ok x ↔ m.cell? p.index t.index = some x := by
  rw [get, bind_eq_ok_iff, cell?, Option.bind_eq_some_iff]
  simp only [Family.get, fetch_eq_ok_iff]

variable {m : Incidence α} {m' : Incidence β} {places transitions : ℕ}

theorem Shaped.exists_cell (h : m.Shaped places transitions) {p t : ℕ} (hp : p < places)
    (ht : t < transitions) : ∃ x, m.cell? p t = some x := by
  have hrow : p < m.rows.data.size := Nat.lt_of_lt_of_eq hp h.numPlaces_eq.symm
  have hcell : t < m.rows.data[p].size := by
    rw [h.rectangular _ (Array.getElem_mem hrow), h.numTransitions_eq]
    exact ht
  refine ⟨m.rows.data[p][t], ?_⟩
  rw [cell?, Array.getElem?_eq_getElem hrow, Option.bind_some, Array.getElem?_eq_getElem hcell]

/-- A row that exists has its cells. -/
theorem Shaped.fetch_eq (h : m.Shaped places transitions) {row : Array α} {p : ℕ}
    {t : TransitionId} (hrow : m.rows.data[p]? = some row) (ht : t.index < transitions) (x : α) :
    fetch row t.index = .ok ((m.cell? p t.index).getD x) := by
  have hp : p < places := h.numPlaces_eq ▸ (Array.getElem?_eq_some_iff.mp hrow).1
  obtain ⟨y, hy⟩ := h.exists_cell hp ht
  rw [hy, Option.getD_some, fetch_eq_ok_iff]
  rwa [cell?, hrow, Option.bind_some] at hy

theorem Shaped.column_eq (h : m.Shaped places transitions) (hsize : places ≤ UInt32.size)
    {t : TransitionId} (ht : t.index < transitions) (x : α) :
    m.column t =
      .ofList ((List.range places).map fun p => (idAt p, (m.cell? p t.index).getD x)) := by
  have hplaces : m.rows.data.size = places := h.numPlaces_eq
  rw [column, Family.entries, ← hplaces]
  refine traverse_enumerate (hplaces ▸ hsize) ?_
  intro p row hrow
  exact congrArg (· >>= fun y => .ok (idAt p, y)) (h.fetch_eq hrow ht x)

theorem Shaped.columns_eq (h : m.Shaped places transitions) (h' : m'.Shaped places transitions)
    (hsize : places ≤ UInt32.size) {t : TransitionId} (ht : t.index < transitions) (x : α) (y : β) :
    m.columns m' t = .ofList ((List.range places).map fun p =>
      (idAt p, (m.cell? p t.index).getD x, (m'.cell? p t.index).getD y)) := by
  have hplaces : (m.rows.zip m'.rows).data.size = places := by
    change (m.rows.zip m'.rows).size = places
    rw [Family.size_zip]
    exact (congrArg₂ min h.numPlaces_eq h'.numPlaces_eq).trans (Nat.min_self places)
  rw [columns, Family.entries, ← hplaces]
  refine traverse_enumerate (hplaces ▸ hsize) ?_
  intro p rows hrows
  obtain ⟨row, row'⟩ := rows
  obtain ⟨hrow, hrow'⟩ := Array.getElem?_zip_eq_some.mp hrows
  change (fetch row t.index >>= fun c => fetch row' t.index >>= fun c' => .ok (idAt p, c, c')) = _
  rw [h.fetch_eq hrow ht x, h'.fetch_eq hrow' ht y]
  rfl

end Incidence

/-! ## Lists of arcs -/

theorem eq_zero_of_not_pos {w : Weight} (h : ¬ 0 < w) : w = 0 :=
  UInt64.le_zero_iff.mp (UInt64.not_lt.mp h)

/-- The arcs of positive weight, in order of places. -/
def arcsAlong (places : ℕ) (weight : ℕ → Weight) (inhibitor : ℕ → Bool) : List ArcEntry :=
  ((List.range places).filter (0 < weight ·)).map fun p => ⟨idAt p, weight p, inhibitor p⟩

section

variable {places : ℕ} {weight : ℕ → Weight} {inhibitor : ℕ → Bool}

theorem ascending_arcsAlong (hsize : places ≤ UInt32.size) :
    Ascending (arcsAlong places weight inhibitor) := by
  rw [Ascending, AscendingPlaces, arcsAlong, placesOf, List.map_map, List.pairwise_map]
  refine (List.pairwise_lt_range.filter _).imp_of_mem fun {p q} hp hq hlt => ?_
  have hp := List.mem_range.mp (List.mem_of_mem_filter hp)
  have hq := List.mem_range.mp (List.mem_of_mem_filter hq)
  dsimp only [Function.comp_apply]
  rwa [index_idAt _ (by omega), index_idAt _ (by omega)]

theorem mem_arcsAlong_iff (hsize : places ≤ UInt32.size) {arc : ArcEntry} :
    arc ∈ arcsAlong places weight inhibitor ↔ arc.place.index < places ∧ 0 < arc.tokens ∧
      arc.tokens = weight arc.place.index ∧ arc.inhibitor = inhibitor arc.place.index := by
  rw [arcsAlong, List.mem_map]
  constructor
  · rintro ⟨p, hp, rfl⟩
    obtain ⟨hrange, hpos⟩ := List.mem_filter.mp hp
    have hrange := List.mem_range.mp hrange
    dsimp only
    rw [index_idAt _ (by omega)]
    exact ⟨hrange, of_decide_eq_true hpos, rfl, rfl⟩
  · obtain ⟨p, w, i⟩ := arc
    dsimp only
    rintro ⟨hrange, hpos, rfl, rfl⟩
    refine ⟨p.index, List.mem_filter.mpr ⟨List.mem_range.mpr hrange, decide_eq_true hpos⟩, ?_⟩
    rw [idAt_index]

theorem mem_placesOf_arcsAlong (hsize : places ≤ UInt32.size) {p : PlaceId} :
    p ∈ placesOf (arcsAlong places weight inhibitor) ↔ p.index < places ∧ 0 < weight p.index := by
  rw [placesOf, List.mem_map]
  constructor
  · rintro ⟨arc, harc, rfl⟩
    obtain ⟨hrange, hpos, hweight, -⟩ := (mem_arcsAlong_iff hsize).mp harc
    exact ⟨hrange, hweight ▸ hpos⟩
  · rintro ⟨hrange, hpos⟩
    exact ⟨⟨p, weight p.index, inhibitor p.index⟩,
      (mem_arcsAlong_iff hsize).mpr ⟨hrange, hpos, rfl, rfl⟩, rfl⟩

/-- What the arcs move at a place. -/
theorem amountAt_arcsAlong (hsize : places ≤ UInt32.size) {f : ArcEntry → Float}
    (hzero : ∀ arc : ArcEntry, arc.tokens = 0 → f arc = 0) {p : PlaceId} (hp : p.index < places) :
    amountAt f (arcsAlong places weight inhibitor) p =
      f ⟨p, weight p.index, inhibitor p.index⟩ := by
  by_cases hpos : 0 < weight p.index
  · have harc : (⟨p, weight p.index, inhibitor p.index⟩ : ArcEntry) ∈
        arcsAlong places weight inhibitor := (mem_arcsAlong_iff hsize).mpr ⟨hp, hpos, rfl, rfl⟩
    exact amountAt_of_mem (ascending_arcsAlong hsize).nodup harc
  · rw [amountAt_of_notMem fun hmem => hpos ((mem_placesOf_arcsAlong hsize).mp hmem).2, hzero]
    exact eq_zero_of_not_pos hpos

end

/-! ## Nets -/

namespace Net

/-- The cell of `pre`. -/
def inputAt (n : Net) (p t : ℕ) : Weight := (n.pre.cell? p t).getD 0

/-- The cell of `post`. -/
def outputAt (n : Net) (p t : ℕ) : Weight := (n.post.cell? p t).getD 0

/-- The inhibitor flag. -/
def inhibitorAt (n : Net) (p t : ℕ) : Bool := (n.inhibitor.cell? p t).getD false

/-- What a transition takes from a place. An inhibitor arc takes nothing. -/
def takenAt (n : Net) (p t : ℕ) : Weight := if n.inhibitorAt p t then 0 else n.inputAt p t

/-- The matrices fit the numbers of places and transitions, these can be numbered, and no
inhibitor flag stands over a zero. -/
structure WellFormed (n : Net) : Prop where
  pre_shaped : n.pre.Shaped n.numPlaces n.numTransitions
  post_shaped : n.post.Shaped n.numPlaces n.numTransitions
  inhibitor_shaped : n.inhibitor.Shaped n.numPlaces n.numTransitions
  places_le : n.numPlaces ≤ UInt32.size
  transitions_le : n.numTransitions ≤ UInt32.size
  threshold_ne_zero : ∀ p < n.numPlaces, ∀ t < n.numTransitions,
    n.inhibitorAt p t = true → n.inputAt p t ≠ 0

instance (n : Net) : Decidable n.WellFormed :=
  decidable_of_iff (n.pre.Shaped n.numPlaces n.numTransitions ∧
      n.post.Shaped n.numPlaces n.numTransitions ∧ n.inhibitor.Shaped n.numPlaces n.numTransitions ∧
      n.numPlaces ≤ UInt32.size ∧ n.numTransitions ≤ UInt32.size ∧
      ∀ p < n.numPlaces, ∀ t < n.numTransitions, n.inhibitorAt p t = true → n.inputAt p t ≠ 0)
    ⟨fun ⟨h₁, h₂, h₃, h₄, h₅, h₆⟩ => ⟨h₁, h₂, h₃, h₄, h₅, h₆⟩,
      fun ⟨h₁, h₂, h₃, h₄, h₅, h₆⟩ => ⟨h₁, h₂, h₃, h₄, h₅, h₆⟩⟩

theorem takenAt_eq_zero {n : Net} {p t : ℕ} (h : n.inputAt p t = 0) : n.takenAt p t = 0 := by
  rw [takenAt]
  split_ifs
  · rfl
  · exact h

/-- The arcs into a transition. -/
def inputArcs (n : Net) (t : ℕ) : List ArcEntry :=
  arcsAlong n.numPlaces (n.inputAt · t) (n.inhibitorAt · t)

/-- The arcs out of a transition. -/
def outputArcs (n : Net) (t : ℕ) : List ArcEntry :=
  arcsAlong n.numPlaces (n.outputAt · t) fun _ => false

variable {n : Net} {p : PlaceId} {t : TransitionId}

namespace WellFormed

theorem get_pre (h : n.WellFormed) (hp : p.index < n.numPlaces) (ht : t.index < n.numTransitions) :
    n.pre.get p t = .ok (n.inputAt p.index t.index) := by
  obtain ⟨x, hx⟩ := h.pre_shaped.exists_cell hp ht
  rw [Incidence.get_eq_ok_iff, inputAt, hx, Option.getD_some]

theorem outWeight_eq (h : n.WellFormed) (hp : p.index < n.numPlaces)
    (ht : t.index < n.numTransitions) :
    n.outWeight t p = .ok (n.outputAt p.index t.index) := by
  obtain ⟨x, hx⟩ := h.post_shaped.exists_cell hp ht
  rw [outWeight, Incidence.get_eq_ok_iff, outputAt, hx, Option.getD_some]

theorem isInhibitor_eq (h : n.WellFormed) (hp : p.index < n.numPlaces)
    (ht : t.index < n.numTransitions) :
    n.isInhibitor p t = .ok (n.inhibitorAt p.index t.index) := by
  obtain ⟨x, hx⟩ := h.inhibitor_shaped.exists_cell hp ht
  rw [isInhibitor, Incidence.get_eq_ok_iff, inhibitorAt, hx, Option.getD_some]

theorem inWeight_eq (h : n.WellFormed) (hp : p.index < n.numPlaces)
    (ht : t.index < n.numTransitions) :
    n.inWeight p t = .ok (n.takenAt p.index t.index) := by
  rw [inWeight, h.isInhibitor_eq hp ht, ok_bind, h.get_pre hp ht, takenAt]
  split <;> rfl

theorem preset_eq (h : n.WellFormed) (ht : t.index < n.numTransitions) :
    n.preset t = .ofList (n.inputArcs t.index) := by
  rw [preset, h.pre_shaped.columns_eq h.inhibitor_shaped h.places_le ht 0 false,
    Walk.filter_ofList, Walk.map_ofList, List.filter_map, List.map_map]
  rfl

theorem postset_eq (h : n.WellFormed) (ht : t.index < n.numTransitions) :
    n.postset t = .ofList (n.outputArcs t.index) := by
  rw [postset, h.post_shaped.column_eq h.places_le ht 0,
    Walk.filter_ofList, Walk.map_ofList, List.filter_map, List.map_map]
  rfl

/-- A well-formed net keeps the promises that an analysis relies on. -/
theorem sortedArcs (h : n.WellFormed) : SortedArcs n := by
  intro t ht
  refine ⟨_, _, h.preset_eq ht, h.postset_eq ht, ascending_arcsAlong h.places_le,
    ascending_arcsAlong h.places_le, ?_⟩
  intro p hp
  rcases hp with hp | hp
  · exact ((mem_placesOf_arcsAlong h.places_le).mp hp).1
  · exact ((mem_placesOf_arcsAlong h.places_le).mp hp).1

theorem observable (h : n.WellFormed) : Observable n where
  places_le := h.places_le
  transitions_le := h.transitions_le
  outWeight _ _ ht hp := ⟨_, h.outWeight_eq hp ht⟩
  inWeight _ _ ht hp := ⟨_, h.inWeight_eq hp ht⟩

/-- What a transition does to a place, according to its lists of arcs. -/
theorem netAmount_eq (h : n.WellFormed) (hp : p.index < n.numPlaces) (t : ℕ) :
    netAmount (n.inputArcs t) (n.outputArcs t) p =
      (n.outputAt p.index t).toFloat - (n.takenAt p.index t).toFloat := by
  have hproduced : amountAt ArcEntry.produced (n.outputArcs t) p = (n.outputAt p.index t).toFloat :=
    amountAt_arcsAlong h.places_le (fun arc hzero => by rw [ArcEntry.produced, hzero]; rfl) hp
  have hconsumed :
      amountAt ArcEntry.consumed (n.inputArcs t) p = (n.takenAt p.index t).toFloat := by
    have hentry : amountAt ArcEntry.consumed (n.inputArcs t) p =
        ArcEntry.consumed ⟨p, n.inputAt p.index t, n.inhibitorAt p.index t⟩ :=
      amountAt_arcsAlong h.places_le (fun arc hzero => by
        rw [ArcEntry.consumed, hzero]
        exact ite_self 0) hp
    rw [hentry, ArcEntry.consumed, takenAt]
    split_ifs <;> rfl
  rw [netAmount, hproduced, hconsumed]

end WellFormed

end Net

end PetriAnalysis
