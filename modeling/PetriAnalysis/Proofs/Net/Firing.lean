import Mathlib.Algebra.BigOperators.Group.Finset.Piecewise
import PetriAnalysis.Net.Firing
import PetriAnalysis.Proofs.Net.WellFormed

/-!
# The marking equation

A firing takes the tokens of the ordinary input arcs and gives those of the output arcs; nothing
else changes. So a sequence of firings changes each place by the effects of its transitions,
weighted by how often they occur, and the order of the firings does not matter.

## Main definitions

* `Marking.count m p` — the tokens on a place, as a natural number.
* `movedAt arcs p` — the tokens that arcs move at a place.
* `Net.fireAll` — firing one transition after another.
* `Net.effectAt n p t` — what a firing changes at a place.
* `occurrences ts t` — how often a transition occurs in a sequence.
-/

namespace PetriAnalysis

/-! ## Firings that answer -/

section

variable {α β : Type}

theorem run_bind_eq_ok_iff {x : Net.Firing α} {f : α → Net.Firing β} {b : β} :
    (x >>= f).run = .ok (.ok b) ↔ ∃ a, x.run = .ok (.ok a) ∧ (f a).run = .ok (.ok b) := by
  rw [ExceptT.run_bind, bind_eq_ok_iff]
  constructor
  · rintro ⟨a, ha, h⟩
    cases a with
    | ok a => exact ⟨a, ha, h⟩
    | error e => cases h
  · rintro ⟨a, ha, h⟩
    exact ⟨.ok a, ha, h⟩

theorem run_liftM_eq_ok_iff {x : Except Fault α} {a : α} :
    (liftM x : Net.Firing α).run = .ok (.ok a) ↔ x = .ok a := by
  cases x with
  | ok b =>
    change (Except.ok (Except.ok b) : Except Fault (Except FireError α)) = .ok (.ok a) ↔ _
    simp
  | error e =>
    change (Except.error e : Except Fault (Except FireError α)) = .ok (.ok a) ↔ _
    simp

end

/-! ## Moving tokens -/

namespace Marking

/-- The tokens on a place. A place that the marking does not cover has none. -/
def count (m : Marking) (p : ℕ) : ℕ := (m.counts.data[p]?.getD 0).toNat

variable {m m' : Marking} {p : PlaceId} {w : Weight}

theorem tokens_eq_ok (h : m.tokens p = .ok w) : p.index < m.size ∧ m.count p.index = w.toNat := by
  have hentry := fetch_eq_ok_iff.mp h
  exact ⟨(Array.getElem?_eq_some_iff.mp hentry).1, by rw [count, hentry, Option.getD_some]⟩

theorem put_eq_ok (h : m.put p w = .ok m') : m'.size = m.size ∧
    ∀ q, m'.count q = if p.index = q then w.toNat else m.count q := by
  obtain ⟨counts, hset, rfl⟩ := map_eq_ok_iff.mp h
  obtain ⟨data, hstore, rfl⟩ := map_eq_ok_iff.mp hset
  obtain ⟨hp, rfl⟩ := store_eq_ok_iff.mp hstore
  refine ⟨Array.size_setIfInBounds, ?_⟩
  intro q
  simp only [count]
  rw [Array.getElem?_setIfInBounds]
  split_ifs <;> simp_all

/-- Taking tokens lowers the count of one place. -/
theorem take_eq_ok (h : m.take p w = .ok (some m')) : m'.size = m.size ∧
    ∀ q, m.count q = m'.count q + if p.index = q then w.toNat else 0 := by
  obtain ⟨before, hbefore, h⟩ := bind_eq_ok_iff.mp h
  obtain ⟨-, hcount⟩ := tokens_eq_ok hbefore
  split at h
  · next rest hrest =>
    obtain ⟨m₁, hput, h⟩ := bind_eq_ok_iff.mp h
    cases h
    obtain ⟨hsize, hput⟩ := put_eq_ok hput
    have hsub := Weight.sub?_eq_some_iff.mp hrest
    refine ⟨hsize, ?_⟩
    intro q
    rw [hput]
    split_ifs with hq
    · rw [← hq, hcount, hsub, Nat.add_comm]
    · rfl
  · cases h

/-- Giving tokens raises the count of one place. -/
theorem give_eq_ok (h : m.give p w = .ok (some m')) : m'.size = m.size ∧
    ∀ q, m'.count q = m.count q + if p.index = q then w.toNat else 0 := by
  obtain ⟨before, hbefore, h⟩ := bind_eq_ok_iff.mp h
  obtain ⟨-, hcount⟩ := tokens_eq_ok hbefore
  split at h
  · next sum hsum =>
    obtain ⟨m₁, hput, h⟩ := bind_eq_ok_iff.mp h
    cases h
    obtain ⟨hsize, hput⟩ := put_eq_ok hput
    have hadd := Weight.add?_eq_some_iff.mp hsum
    refine ⟨hsize, ?_⟩
    intro q
    rw [hput]
    split_ifs with hq
    · rw [← hq, hcount, hadd]
    · rfl
  · cases h

/-- A marking is determined by its counts. -/
theorem ext_count (hsize : m.size = m'.size) (h : ∀ p < m.size, m.count p = m'.count p) :
    m = m' := by
  refine Marking.ext (Family.ext (Array.ext hsize ?_))
  intro p hp hp'
  have hcount := h p hp
  rw [count, count, Array.getElem?_eq_getElem hp, Array.getElem?_eq_getElem hp'] at hcount
  exact UInt64.toNat_inj.mp hcount

end Marking

/-- The tokens that arcs move at a place. -/
def movedAt (arcs : List ArcEntry) (q : ℕ) : ℕ :=
  (arcs.map fun arc => if arc.place.index = q then arc.tokens.toNat else 0).sum

namespace Net

variable {m m' : Marking} {t : TransitionId}

theorem takeAlong_eq_ok {arc : ArcEntry} (h : (takeAlong t m arc).run = .ok (.ok m')) :
    m.take arc.place arc.tokens = .ok (some m') := by
  obtain ⟨m₁, htake, hrest⟩ := run_bind_eq_ok_iff.mp h
  rw [run_liftM_eq_ok_iff] at htake
  cases m₁ with
  | some m₁ =>
    cases hrest
    exact htake
  | none => cases hrest

theorem giveAlong_eq_ok {arc : ArcEntry} (h : (giveAlong t m arc).run = .ok (.ok m')) :
    m.give arc.place arc.tokens = .ok (some m') := by
  obtain ⟨m₁, hgive, hrest⟩ := run_bind_eq_ok_iff.mp h
  rw [run_liftM_eq_ok_iff] at hgive
  cases m₁ with
  | some m₁ =>
    cases hrest
    exact hgive
  | none => cases hrest

theorem takeAll_eq_ok {arcs : List ArcEntry}
    (h : (arcs.foldlM (takeAlong t) m).run = .ok (.ok m')) :
    m'.size = m.size ∧ ∀ q, m.count q = m'.count q + movedAt arcs q := by
  induction arcs generalizing m with
  | nil =>
    cases h
    exact ⟨rfl, fun q => rfl⟩
  | cons arc arcs ih =>
    rw [List.foldlM_cons] at h
    obtain ⟨m₁, hfirst, hrest⟩ := run_bind_eq_ok_iff.mp h
    obtain ⟨hsize, hcount⟩ := Marking.take_eq_ok (takeAlong_eq_ok hfirst)
    obtain ⟨hsize', hcount'⟩ := ih hrest
    refine ⟨hsize'.trans hsize, ?_⟩
    intro q
    rw [hcount, hcount', movedAt, movedAt, List.map_cons, List.sum_cons]
    omega

theorem giveAll_eq_ok {arcs : List ArcEntry}
    (h : (arcs.foldlM (giveAlong t) m).run = .ok (.ok m')) :
    m'.size = m.size ∧ ∀ q, m'.count q = m.count q + movedAt arcs q := by
  induction arcs generalizing m with
  | nil =>
    cases h
    exact ⟨rfl, fun q => rfl⟩
  | cons arc arcs ih =>
    rw [List.foldlM_cons] at h
    obtain ⟨m₁, hfirst, hrest⟩ := run_bind_eq_ok_iff.mp h
    obtain ⟨hsize, hcount⟩ := Marking.give_eq_ok (giveAlong_eq_ok hfirst)
    obtain ⟨hsize', hcount'⟩ := ih hrest
    refine ⟨hsize'.trans hsize, ?_⟩
    intro q
    rw [hcount', hcount, movedAt, movedAt, List.map_cons, List.sum_cons]
    omega

/-- What a firing is made of. -/
theorem fire_eq_ok {n : Net} (h : (n.fire m t).run = .ok (.ok m')) :
    t.index < n.numTransitions ∧ ∃ taken,
      (((n.preset t).filter fun arc => !arc.inhibitor).foldlM (takeAlong t) m).run =
        .ok (.ok taken) ∧
      ((n.postset t).foldlM (giveAlong t) taken).run = .ok (.ok m') := by
  simp only [fire] at h
  split_ifs at h with hrange
  · obtain ⟨enabled, -, henabled⟩ := run_bind_eq_ok_iff.mp h
    split_ifs at henabled
    · obtain ⟨taken, htaken, hgiven⟩ := run_bind_eq_ok_iff.mp henabled
      exact ⟨hrange, taken, htaken, hgiven⟩
    · obtain ⟨_, hthrow, -⟩ := run_bind_eq_ok_iff.mp henabled
      cases hthrow
  · obtain ⟨_, hthrow, -⟩ := run_bind_eq_ok_iff.mp h
    cases hthrow

end Net

/-! ## The tokens moved by a firing -/

section

variable {places : ℕ} {weight : ℕ → Weight} {inhibitor : ℕ → Bool}

theorem arcsAlong_succ (places : ℕ) (weight : ℕ → Weight) (inhibitor : ℕ → Bool) :
    arcsAlong (places + 1) weight inhibitor = arcsAlong places weight inhibitor ++
      if 0 < weight places then [⟨idAt places, weight places, inhibitor places⟩] else [] := by
  rw [arcsAlong, List.range_succ, List.filter_append, List.map_append, List.filter_singleton]
  by_cases hpos : 0 < weight places <;> simp [hpos, arcsAlong]

@[simp] theorem movedAt_append (arcs arcs' : List ArcEntry) (q : ℕ) :
    movedAt (arcs ++ arcs') q = movedAt arcs q + movedAt arcs' q := by
  rw [movedAt, List.map_append, List.sum_append, movedAt, movedAt]

/-- At each place one arc moves tokens, or none. -/
theorem movedAt_arcsAlong (hsize : places ≤ UInt32.size) (q : ℕ) :
    movedAt (arcsAlong places weight inhibitor) q = if q < places then (weight q).toNat else 0 := by
  induction places with
  | zero => rfl
  | succ places ih =>
    have hlast : movedAt (if 0 < weight places then
        [⟨idAt places, weight places, inhibitor places⟩] else []) q =
        if places = q then (weight q).toNat else 0 := by
      have hindex := index_idAt .place (Nat.lt_of_succ_le hsize)
      split_ifs with hpos hq hq
      · simp [movedAt, hindex, hq.symm]
      · simp [movedAt, hindex, hq]
      · rw [← hq, eq_zero_of_not_pos hpos]
        rfl
      · rfl
    rw [arcsAlong_succ, movedAt_append, ih (Nat.le_of_succ_le hsize), hlast]
    split_ifs <;> omega

/-- The ordinary arcs among arcs with some thresholds. -/
theorem filter_arcsAlong : (arcsAlong places weight inhibitor).filter (fun arc => !arc.inhibitor) =
    arcsAlong places (fun p => if inhibitor p then 0 else weight p) fun _ => false := by
  induction places with
  | zero => rfl
  | succ places ih =>
    rw [arcsAlong_succ, arcsAlong_succ, List.filter_append, ih]
    cases inhibitor places <;> by_cases hpos : 0 < weight places <;> simp [hpos]

end

namespace Net

variable {n : Net} {m m' : Marking} {t : TransitionId}

/-- What a firing changes. -/
theorem WellFormed.fire_balance (hn : n.WellFormed) (h : (n.fire m t).run = .ok (.ok m')) :
    t.index < n.numTransitions ∧ m'.size = m.size ∧ ∀ p < n.numPlaces,
      m'.count p + (n.takenAt p t.index).toNat = m.count p + (n.outputAt p t.index).toNat := by
  obtain ⟨ht, taken, htake, hgive⟩ := fire_eq_ok h
  rw [hn.preset_eq ht, Walk.filter_ofList, Walk.foldlM_ofList, inputArcs, filter_arcsAlong] at htake
  rw [hn.postset_eq ht, Walk.foldlM_ofList, outputArcs] at hgive
  obtain ⟨hsize, hcount⟩ := takeAll_eq_ok htake
  obtain ⟨hsize', hcount'⟩ := giveAll_eq_ok hgive
  refine ⟨ht, hsize'.trans hsize, ?_⟩
  intro p hp
  have htaken := hcount p
  have hgiven := hcount' p
  rw [movedAt_arcsAlong hn.places_le, if_pos hp] at htaken hgiven
  rw [hgiven, htaken, takenAt]
  omega

/-- What a firing changes at a place. -/
def effectAt (n : Net) (p t : ℕ) : ℤ := (n.outputAt p t).toNat - (n.takenAt p t).toNat

/-- Fires one transition after another. -/
def fireAll (n : Net) (m : Marking) (ts : List TransitionId) : Firing Marking := ts.foldlM n.fire m

end Net

/-! ## Sequences of firings -/

/-- How often the transition number `t` occurs. -/
def occurrences (ts : List TransitionId) (t : ℕ) : ℕ := ts.countP (·.index = t)

/-- A sum over all transitions, weighted by their occurrences, is a sum along the sequence. -/
theorem sum_occurrences_cons {t : TransitionId} {ts : List TransitionId} {transitions : ℕ}
    (ht : t.index < transitions) (f : ℕ → ℤ) :
    ∑ k ∈ Finset.range transitions, occurrences (t :: ts) k * f k =
      f t.index + ∑ k ∈ Finset.range transitions, occurrences ts k * f k := by
  have hcons (k : ℕ) : (occurrences (t :: ts) k : ℤ) * f k =
      (if t.index = k then f k else 0) + occurrences ts k * f k := by
    rw [occurrences, List.countP_cons, ← occurrences]
    by_cases hk : t.index = k
    · simp [hk]
      ring
    · simp [hk]
  simp only [hcons, Finset.sum_add_distrib]
  rw [Finset.sum_ite_eq, if_pos (Finset.mem_range.mpr ht)]

namespace Net

variable {n : Net} {m m' : Marking} {ts : List TransitionId}

/-- The marking equation. -/
theorem WellFormed.marking_equation (hn : n.WellFormed)
    (h : (n.fireAll m ts).run = .ok (.ok m')) : m'.size = m.size ∧ ∀ p < n.numPlaces,
      (m'.count p : ℤ) =
        m.count p + ∑ t ∈ Finset.range n.numTransitions, occurrences ts t * n.effectAt p t := by
  induction ts generalizing m with
  | nil =>
    cases h
    refine ⟨rfl, ?_⟩
    intro p _
    simp [occurrences]
  | cons t ts ih =>
    rw [fireAll, List.foldlM_cons] at h
    obtain ⟨m₁, hfirst, hrest⟩ := run_bind_eq_ok_iff.mp h
    obtain ⟨ht, hsize, hbalance⟩ := hn.fire_balance hfirst
    obtain ⟨hsize', hcount⟩ := ih hrest
    refine ⟨hsize'.trans hsize, ?_⟩
    intro p hp
    have hfirst := hbalance p hp
    rw [hcount p hp, sum_occurrences_cons ht, effectAt]
    omega

end Net

end PetriAnalysis
