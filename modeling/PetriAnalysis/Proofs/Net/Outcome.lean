import Mathlib.Order.Bounds.Basic
import PetriAnalysis.Proofs.Net.Firing

/-!
# What a firing answers

On a marking that covers the places of a well-formed net no firing faults. A transition that the
net does not have is refused, and so is one that some place keeps from firing. The tokens of an
enabled transition can always be taken; what is left may have no room for the tokens given, and
then the first such place is named. Otherwise the tokens of each place change by what is taken and
given there.

## Main definitions

* `Net.BlockedAt n m t p` — the arc from `p` keeps `t` from firing.
* `Net.EnabledAt n m t` — no arc does.
* `Net.tokensAfter n m t p` — the tokens on a place after a firing, without a limit.
* `Net.overfull n m t` — the places where they are beyond the largest weight.
* `FiringOutcome n m t outcome` — the possible answers, each with what is known in its case.
* `FiringLaw n m t outcome` — when each answer is given.
-/

namespace PetriAnalysis

namespace Net

/-- The arc from `p` keeps `t` from firing: an ordinary arc asks for more tokens than there are, or
an inhibitor arc for fewer. -/
def BlockedAt (n : Net) (m : Marking) (t p : ℕ) : Prop :=
  n.inhibitorAt p t = false ∧ m.count p < (n.inputAt p t).toNat ∨
    n.inhibitorAt p t = true ∧ (n.inputAt p t).toNat ≤ m.count p

instance (n : Net) (m : Marking) (t p : ℕ) : Decidable (n.BlockedAt m t p) :=
  inferInstanceAs (Decidable (_ ∨ _))

/-- No place keeps `t` from firing. -/
def EnabledAt (n : Net) (m : Marking) (t : ℕ) : Prop := ∀ p < n.numPlaces, ¬ n.BlockedAt m t p

instance (n : Net) (m : Marking) (t : ℕ) : Decidable (n.EnabledAt m t) :=
  inferInstanceAs (Decidable (∀ p < n.numPlaces, ¬ n.BlockedAt m t p))

/-- The tokens on a place after a firing, without a limit. -/
def tokensAfter (n : Net) (m : Marking) (t p : ℕ) : ℕ :=
  m.count p - (n.takenAt p t).toNat + (n.outputAt p t).toNat

/-- The places that would hold more tokens than the largest weight after a firing. -/
def overfull (n : Net) (m : Marking) (t : ℕ) : Set ℕ :=
  {p | p < n.numPlaces ∧ UInt64.size ≤ n.tokensAfter m t p}

end Net

/-! ## Moves that go through -/

namespace Marking

variable {m m' : Marking} {p : PlaceId} {w : Weight}

theorem count_lt (m : Marking) (p : ℕ) : m.count p < UInt64.size := UInt64.toNat_lt_size _

theorem exists_tokens (hp : p.index < m.size) :
    ∃ before, m.tokens p = .ok before ∧ before.toNat = m.count p.index := by
  have htokens : m.tokens p = .ok m.counts.data[p.index] := fetch_of_lt hp
  exact ⟨_, htokens, (tokens_eq_ok htokens).2.symm⟩

theorem exists_put (hp : p.index < m.size) (w : Weight) : ∃ m', m.put p w = .ok m' := by
  refine ⟨⟨⟨m.counts.data.setIfInBounds p.index w⟩⟩, ?_⟩
  rw [put, Family.set, store_of_lt hp]
  rfl

/-- Tokens that are there can be taken. -/
theorem exists_take (hp : p.index < m.size) (hw : w.toNat ≤ m.count p.index) :
    ∃ m', m.take p w = .ok (some m') := by
  obtain ⟨before, htokens, hcount⟩ := exists_tokens hp
  have hle : w ≤ before := UInt64.le_iff_toNat_le.mpr (hcount ▸ hw)
  obtain ⟨m', hput⟩ := exists_put hp (before - w)
  exact ⟨m', by simp [take, htokens, ok_bind, Weight.sub?, hle, hput]⟩

/-- Tokens for which there is room can be given. -/
theorem exists_give (hp : p.index < m.size) (hw : m.count p.index + w.toNat < UInt64.size) :
    ∃ m', m.give p w = .ok (some m') := by
  obtain ⟨before, htokens, hcount⟩ := exists_tokens hp
  obtain ⟨m', hput⟩ := exists_put hp (before + w)
  rw [← hcount] at hw
  exact ⟨m', by simp [give, htokens, ok_bind, Weight.add?, hw, hput]⟩

theorem give_eq_none (hp : p.index < m.size) (hw : UInt64.size ≤ m.count p.index + w.toNat) :
    m.give p w = .ok none := by
  obtain ⟨before, htokens, hcount⟩ := exists_tokens hp
  rw [← hcount] at hw
  simp only [give, htokens, ok_bind, Weight.add?_eq_none_iff.mpr hw]
  rfl

end Marking

/-! ## Firings step by step -/

section

variable {α β : Type} {x : Net.Firing α} {f : α → Net.Firing β}

theorem run_bind_of_ok {a : α} (h : x.run = .ok (.ok a)) : (x >>= f).run = (f a).run := by
  rw [ExceptT.run_bind, h]
  rfl

theorem run_bind_of_error {e : FireError} (h : x.run = .ok (.error e)) :
    (x >>= f).run = .ok (.error e) := by
  rw [ExceptT.run_bind, h]
  rfl

theorem run_liftM_of_ok {x : Except Fault α} {a : α} (h : x = .ok a) :
    (liftM x : Net.Firing α).run = .ok (.ok a) :=
  run_liftM_eq_ok_iff.mpr h

end

namespace Net

variable {m m' : Marking} {t : TransitionId} {arc : ArcEntry}

theorem takeAlong_of_take (h : m.take arc.place arc.tokens = .ok (some m')) :
    (takeAlong t m arc).run = .ok (.ok m') :=
  run_bind_of_ok (run_liftM_of_ok h)

theorem giveAlong_of_give (h : m.give arc.place arc.tokens = .ok (some m')) :
    (giveAlong t m arc).run = .ok (.ok m') :=
  run_bind_of_ok (run_liftM_of_ok h)

theorem giveAlong_of_give_none (h : m.give arc.place arc.tokens = .ok none) :
    (giveAlong t m arc).run = .ok (.error (.overflow t arc.place)) :=
  run_bind_of_ok (run_liftM_of_ok h)

theorem ascending_cons {arcs : List ArcEntry} : Ascending (arc :: arcs) ↔
    (∀ arc' ∈ arcs, arc.place.index < arc'.place.index) ∧ Ascending arcs := by
  simp [Ascending, AscendingPlaces, placesOf]

/-- All arcs take their tokens if each place has enough for its own. -/
theorem exists_takeAll {arcs : List ArcEntry} (harcs : Ascending arcs)
    (hsize : ∀ arc ∈ arcs, arc.place.index < m.size)
    (henough : ∀ arc ∈ arcs, arc.tokens.toNat ≤ m.count arc.place.index) :
    ∃ taken, (arcs.foldlM (takeAlong t) m).run = .ok (.ok taken) := by
  induction arcs generalizing m with
  | nil => exact ⟨m, rfl⟩
  | cons arc arcs ih =>
    obtain ⟨hbelow, harcs⟩ := ascending_cons.mp harcs
    simp only [List.forall_mem_cons] at hsize henough
    obtain ⟨m', htake⟩ := Marking.exists_take hsize.1 henough.1
    obtain ⟨hsame, hcount⟩ := Marking.take_eq_ok htake
    -- the other arcs are at other places
    have hother : ∀ arc' ∈ arcs, m'.count arc'.place.index = m.count arc'.place.index := by
      intro arc' harc'
      have := hbelow arc' harc'
      simp [hcount, this.ne]
    obtain ⟨taken, htaken⟩ := ih harcs
      (fun arc' harc' => hsame ▸ hsize.2 arc' harc')
      (fun arc' harc' => hother arc' harc' ▸ henough.2 arc' harc')
    exact ⟨taken, by rw [List.foldlM_cons, run_bind_of_ok (takeAlong_of_take htake), htaken]⟩

/-- Either each place has room for the tokens that it is given, or the first place without room is
named. -/
theorem giveAll_cases {arcs : List ArcEntry} (harcs : Ascending arcs)
    (hsize : ∀ arc ∈ arcs, arc.place.index < m.size) :
    ((∀ arc ∈ arcs, m.count arc.place.index + arc.tokens.toNat < UInt64.size) ∧
      ∃ given, (arcs.foldlM (giveAlong t) m).run = .ok (.ok given)) ∨
    ∃ arc ∈ arcs, UInt64.size ≤ m.count arc.place.index + arc.tokens.toNat ∧
      (∀ arc' ∈ arcs, arc'.place.index < arc.place.index →
        m.count arc'.place.index + arc'.tokens.toNat < UInt64.size) ∧
      (arcs.foldlM (giveAlong t) m).run = .ok (.error (.overflow t arc.place)) := by
  induction arcs generalizing m with
  | nil => exact .inl ⟨by simp, m, rfl⟩
  | cons arc arcs ih =>
    obtain ⟨hbelow, harcs⟩ := ascending_cons.mp harcs
    simp only [List.forall_mem_cons] at hsize
    by_cases hroom : m.count arc.place.index + arc.tokens.toNat < UInt64.size
    case pos =>
      obtain ⟨m', hgive⟩ := Marking.exists_give hsize.1 hroom
      obtain ⟨hsame, hcount⟩ := Marking.give_eq_ok hgive
      have hother : ∀ arc' ∈ arcs, m'.count arc'.place.index = m.count arc'.place.index := by
        intro arc' harc'
        have := hbelow arc' harc'
        simp [hcount, this.ne]
      rw [List.foldlM_cons, run_bind_of_ok (giveAlong_of_give hgive)]
      rcases ih (m := m') harcs (fun arc' harc' => hsame ▸ hsize.2 arc' harc') with
        ⟨hall, hgiven⟩ | ⟨full, hfull, hover, hfirst, hgiven⟩
      · refine .inl ⟨List.forall_mem_cons.mpr ⟨hroom, ?_⟩, hgiven⟩
        intro arc' harc'
        exact hother arc' harc' ▸ hall arc' harc'
      · refine .inr ⟨full, List.mem_cons_of_mem arc hfull, hother full hfull ▸ hover, ?_, hgiven⟩
        refine List.forall_mem_cons.mpr ⟨fun _ => hroom, ?_⟩
        intro arc' harc' hlt
        exact hother arc' harc' ▸ hfirst arc' harc' hlt
    case neg =>
      have hgive := Marking.give_eq_none hsize.1 (Nat.not_lt.mp hroom)
      refine .inr ⟨arc, List.mem_cons_self, Nat.not_lt.mp hroom, ?_, ?_⟩
      · refine List.forall_mem_cons.mpr ⟨fun hlt => absurd hlt (lt_irrefl _), ?_⟩
        intro arc' harc' hlt
        exact absurd (hbelow arc' harc') hlt.asymm
      · rw [List.foldlM_cons, run_bind_of_error (giveAlong_of_give_none hgive)]

end Net

/-! ## Enabled transitions -/

theorem allM_ofList {α : Type} {test : α → Except Fault Bool} {q : α → Bool} {as : List α}
    (h : ∀ a ∈ as, test a = .ok (q a)) : (Walk.ofList as).allM test = .ok (as.all q) := by
  induction as with
  | nil => rfl
  | cons a as ih =>
    obtain ⟨ha, has⟩ := List.forall_mem_cons.mp h
    rw [Walk.ofList_cons, Walk.allM, ha, List.all_cons]
    cases q a
    · rfl
    · exact ih has

theorem map_eq_traverse {α β : Type} (f : α → β) (walk : Walk α) :
    walk.map f = walk.traverse fun a => .ok (f a) := by
  induction walk with
  | done => rfl
  | fault e => rfl
  | next a walk ih => rw [Walk.map, Walk.traverse, ih]

theorem indices_eq {kind : Element} {α : Type} {v : Family kind α} (hsize : v.size ≤ UInt32.size) :
    v.indices = .ofList ((List.range v.size).map idAt) := by
  rw [Family.indices, map_eq_traverse]
  exact traverse_enumerate hsize fun _ _ _ => rfl

namespace Net

variable {n : Net} {m m' : Marking} {t : TransitionId}

namespace WellFormed

/-- A place without an arc keeps no transition from firing. -/
theorem not_blockedAt_of_zero (hn : n.WellFormed) {p : ℕ} (hp : p < n.numPlaces)
    (ht : t.index < n.numTransitions) (hzero : n.inputAt p t.index = 0) :
    ¬ n.BlockedAt m t.index p := by
  rintro (⟨-, hlt⟩ | ⟨hflag, -⟩)
  · simp [hzero] at hlt
  · exact hn.threshold_ne_zero p hp t.index ht hflag hzero

theorem isEnabled_eq (hn : n.WellFormed) (hsize : n.numPlaces ≤ m.size)
    (ht : t.index < n.numTransitions) :
    n.isEnabled m t = .ok (decide (n.EnabledAt m t.index)) := by
  have htest : ∀ arc ∈ n.inputArcs t.index,
      (do return arc.admits (← m.tokens arc.place) : Except Fault Bool) =
        .ok (!decide (n.BlockedAt m t.index arc.place.index)) := by
    intro arc harc
    obtain ⟨hp, -, hweight, hflag⟩ := (mem_arcsAlong_iff hn.places_le).mp harc
    obtain ⟨before, htokens, hcount⟩ := Marking.exists_tokens (hp.trans_le hsize)
    rw [htokens, ok_bind]
    refine congrArg Except.ok ?_
    simp only [ArcEntry.admits, BlockedAt, ← hcount, ← hweight, ← hflag]
    cases arc.inhibitor <;>
      simp [← decide_not, UInt64.lt_iff_toNat_lt, UInt64.le_iff_toNat_le]
  rw [isEnabled, if_pos ht, hn.preset_eq ht, allM_ofList htest]
  refine congrArg Except.ok (Bool.eq_iff_iff.mpr ?_)
  simp only [List.all_eq_true, Bool.not_eq_true', decide_eq_false_iff_not, decide_eq_true_iff]
  constructor
  · intro h p hp hblocked
    by_cases hzero : n.inputAt p t.index = 0
    · exact hn.not_blockedAt_of_zero hp ht hzero hblocked
    · have hindex := index_idAt .place (hp.trans_le hn.places_le)
      refine h ⟨idAt p, n.inputAt p t.index, n.inhibitorAt p t.index⟩ ?_ (hindex.symm ▸ hblocked)
      rw [inputArcs, mem_arcsAlong_iff hn.places_le]
      simp [hindex, hp, UInt64.pos_iff_ne_zero, hzero]
  · intro h arc harc
    exact h arc.place.index ((mem_arcsAlong_iff hn.places_le).mp harc).1

theorem enabledTransitions_eq (hn : n.WellFormed) (hsize : n.numPlaces ≤ m.size) :
    n.enabledTransitions m = .ok (((List.range n.numTransitions).map idAt).filter
      fun t => n.EnabledAt m t.index) := by
  have htest : ∀ t ∈ (List.range n.transitions.size).map (idAt : ℕ → TransitionId),
      (do return (t, ← n.isEnabled m t) : Except Fault (TransitionId × Bool)) =
        .ok (t, decide (n.EnabledAt m t.index)) := by
    intro t ht
    obtain ⟨i, hi, rfl⟩ := List.mem_map.mp ht
    have hi : i < n.numTransitions := List.mem_range.mp hi
    rw [hn.isEnabled_eq hsize (by rwa [index_idAt _ (hi.trans_le hn.transitions_le)])]
    rfl
  rw [enabledTransitions, indices_eq hn.transitions_le, Walk.traverse_ofList htest,
    Walk.toExcept_ofList, ok_bind]
  refine congrArg Except.ok ?_
  simp [List.filter_map, Function.comp_def, numTransitions]

end WellFormed

/-! ## The whole firing -/

/-- An enabled transition takes no more tokens than there are. -/
theorem EnabledAt.takenAt_le {t p : ℕ} (h : n.EnabledAt m t) (hp : p < n.numPlaces) :
    (n.takenAt p t).toNat ≤ m.count p := by
  have hblocked := h p hp
  rw [takenAt]
  cases hflag : n.inhibitorAt p t
  · simpa [BlockedAt, hflag] using hblocked
  · simp

namespace WellFormed

/-- What the ordinary arcs take from an enabled transition's places is there. -/
theorem exists_taken (hn : n.WellFormed) (hsize : n.numPlaces ≤ m.size)
    (ht : t.index < n.numTransitions) (henabled : n.EnabledAt m t.index) : ∃ taken,
      (((n.preset t).filter fun arc => !arc.inhibitor).foldlM (takeAlong t) m).run =
        .ok (.ok taken) ∧
      taken.size = m.size ∧ ∀ p, m.count p =
        taken.count p + if p < n.numPlaces then (n.takenAt p t.index).toNat else 0 := by
  rw [hn.preset_eq ht, Walk.filter_ofList, Walk.foldlM_ofList, inputArcs, filter_arcsAlong]
  have hascending : Ascending (arcsAlong n.numPlaces (n.takenAt · t.index) fun _ => false) :=
    ascending_arcsAlong hn.places_le
  obtain ⟨taken, htaken⟩ := exists_takeAll (m := m) (t := t) hascending
    (fun arc harc => ((mem_arcsAlong_iff hn.places_le).mp harc).1.trans_le hsize)
    (fun arc harc => by
      obtain ⟨hp, -, hweight, -⟩ := (mem_arcsAlong_iff hn.places_le).mp harc
      exact hweight ▸ henabled.takenAt_le hp)
  obtain ⟨hsame, hcount⟩ := takeAll_eq_ok htaken
  refine ⟨taken, htaken, hsame, ?_⟩
  intro p
  rw [hcount, movedAt_arcsAlong hn.places_le]

end WellFormed

end Net

/-- The answers of a firing, each with what is known in its case. -/
inductive FiringOutcome (n : Net) (m : Marking) (t : TransitionId) :
    Except FireError Marking → Prop where
  | outOfRange (ht : n.numTransitions ≤ t.index) : FiringOutcome n m t (.error (.outOfRange t))
  | notEnabled (ht : t.index < n.numTransitions) (hblocked : ¬ n.EnabledAt m t.index) :
    FiringOutcome n m t (.error (.notEnabled t))
  | overflow (p : PlaceId) (ht : t.index < n.numTransitions) (henabled : n.EnabledAt m t.index)
    (hleast : IsLeast (n.overfull m t.index) p.index) :
    FiringOutcome n m t (.error (.overflow t p))
  | fired (m' : Marking) (ht : t.index < n.numTransitions) (henabled : n.EnabledAt m t.index)
    (hroom : n.overfull m t.index = ∅) (hsize : m'.size = m.size)
    (hcount : ∀ p < n.numPlaces, m'.count p = n.tokensAfter m t.index p)
    (hrest : ∀ p, n.numPlaces ≤ p → m'.count p = m.count p) :
    FiringOutcome n m t (.ok m')

namespace Net.WellFormed

variable {n : Net} {m m' : Marking} {t : TransitionId}

theorem fire_of_enabled {taken : Marking} (henabled : n.isEnabled m t = .ok true)
    (ht : t.index < n.numTransitions)
    (htaken : (((n.preset t).filter fun arc => !arc.inhibitor).foldlM (takeAlong t) m).run =
      .ok (.ok taken)) :
    (n.fire m t).run = ((n.postset t).foldlM (giveAlong t) taken).run := by
  simp only [fire, ht, if_true]
  rw [run_bind_of_ok (run_liftM_of_ok henabled)]
  exact run_bind_of_ok htaken

/-- A place that has no room for the tokens of its output arc has such an arc. -/
theorem exists_outputArc (hn : n.WellFormed) {p u : ℕ} (hp : p < n.numPlaces)
    (hover : UInt64.size ≤ m.count p + (n.outputAt p u).toNat) :
    ∃ arc ∈ n.outputArcs u, arc.place.index = p := by
  have hindex := index_idAt .place (hp.trans_le hn.places_le)
  refine ⟨⟨idAt p, n.outputAt p u, false⟩, ?_, hindex⟩
  rw [outputArcs, mem_arcsAlong_iff hn.places_le]
  refine ⟨hindex.symm ▸ hp, UInt64.pos_iff_ne_zero.mpr ?_, by rw [hindex], rfl⟩
  intro hzero
  have hzero : n.outputAt p u = 0 := hzero
  have := m.count_lt p
  simp only [hzero, UInt64.toNat_zero] at hover
  omega

/-- The output arcs give their tokens, or name the first place without room. -/
theorem give_cases (hn : n.WellFormed) (hsize : n.numPlaces ≤ m.size)
    (ht : t.index < n.numTransitions) :
    ((∀ p < n.numPlaces, m.count p + (n.outputAt p t.index).toNat < UInt64.size) ∧ ∃ given,
      ((n.postset t).foldlM (giveAlong t) m).run = .ok (.ok given) ∧ given.size = m.size ∧
      ∀ p, given.count p =
        m.count p + if p < n.numPlaces then (n.outputAt p t.index).toNat else 0) ∨
    ∃ p, IsLeast {p | p < n.numPlaces ∧ UInt64.size ≤ m.count p + (n.outputAt p t.index).toNat}
        p.index ∧
      ((n.postset t).foldlM (giveAlong t) m).run = .ok (.error (.overflow t p)) := by
  have harcs : ∀ arc ∈ n.outputArcs t.index,
      arc.place.index < n.numPlaces ∧ arc.tokens = n.outputAt arc.place.index t.index := by
    intro arc harc
    obtain ⟨hp, -, hweight, -⟩ := (mem_arcsAlong_iff hn.places_le).mp harc
    exact ⟨hp, hweight⟩
  rw [hn.postset_eq ht, Walk.foldlM_ofList]
  rcases giveAll_cases (m := m) (t := t) (ascending_arcsAlong hn.places_le)
    (fun arc harc => (harcs arc harc).1.trans_le hsize) with
    ⟨hroom, given, hgiven⟩ | ⟨arc, harc, hover, hfirst, hgiven⟩
  · obtain ⟨hsame, hcount⟩ := giveAll_eq_ok hgiven
    refine .inl ⟨?_, given, hgiven, hsame, ?_⟩
    · intro p hp
      by_contra hover
      obtain ⟨arc, harc, rfl⟩ := hn.exists_outputArc hp (Nat.not_lt.mp hover)
      exact hover ((harcs arc harc).2 ▸ hroom arc harc)
    · intro p
      rw [hcount, movedAt_arcsAlong hn.places_le]
  · obtain ⟨hp, hweight⟩ := harcs arc harc
    refine .inr ⟨arc.place, ⟨⟨hp, hweight ▸ hover⟩, ?_⟩, hgiven⟩
    rintro p ⟨hp, hover⟩
    obtain ⟨arc', harc', rfl⟩ := hn.exists_outputArc hp hover
    by_contra hlt
    have := hfirst arc' harc' (Nat.not_le.mp hlt)
    rw [(harcs arc' harc').2] at this
    omega

/-- An enabled transition fires, or a place has no room. -/
theorem enabled_outcome (hn : n.WellFormed) (hsize : n.numPlaces ≤ m.size)
    (ht : t.index < n.numTransitions) (henabled : n.EnabledAt m t.index) :
    ∃ outcome, (n.fire m t).run = .ok outcome ∧ FiringOutcome n m t outcome := by
  obtain ⟨taken, htaken, hsame, hcount⟩ := hn.exists_taken hsize ht henabled
  have htest := hn.isEnabled_eq hsize ht
  rw [decide_eq_true henabled] at htest
  rw [fire_of_enabled htest ht htaken]
  have hafter (p : ℕ) (hp : p < n.numPlaces) :
      taken.count p + (n.outputAt p t.index).toNat = n.tokensAfter m t.index p := by
    have := hcount p
    rw [if_pos hp] at this
    rw [tokensAfter]
    omega
  have hoverfull : {p | p < n.numPlaces ∧
      UInt64.size ≤ taken.count p + (n.outputAt p t.index).toNat} = n.overfull m t.index := by
    ext p
    exact and_congr_right fun hp => by rw [hafter p hp]
  rcases hn.give_cases (m := taken) (hsame ▸ hsize) ht with
    ⟨hroom, given, hgiven, hsame', hcount'⟩ | ⟨p, hleast, hgiven⟩
  · refine ⟨_, hgiven, .fired given ht henabled ?_ (hsame'.trans hsame) ?_ ?_⟩
    · rw [← hoverfull, Set.eq_empty_iff_forall_notMem]
      rintro p ⟨hp, hover⟩
      exact (hroom p hp).not_ge hover
    · intro p hp
      rw [hcount', if_pos hp, hafter p hp]
    · intro p hp
      rw [hcount', hcount, if_neg hp.not_gt, if_neg hp.not_gt]
  · exact ⟨_, hgiven, .overflow p ht henabled (hoverfull ▸ hleast)⟩

theorem fire_outcome (hn : n.WellFormed) (hsize : n.numPlaces ≤ m.size) (t : TransitionId) :
    ∃ outcome, (n.fire m t).run = .ok outcome ∧ FiringOutcome n m t outcome := by
  by_cases ht : t.index < n.numTransitions
  · by_cases henabled : n.EnabledAt m t.index
    · exact hn.enabled_outcome hsize ht henabled
    · refine ⟨_, ?_, .notEnabled ht henabled⟩
      have htest := hn.isEnabled_eq hsize ht
      rw [decide_eq_false henabled] at htest
      simp only [fire, ht, if_true]
      rw [run_bind_of_ok (run_liftM_of_ok htest)]
      rfl
  · refine ⟨_, ?_, .outOfRange (Nat.not_lt.mp ht)⟩
    simp only [fire, ht, if_false]
    rfl

end Net.WellFormed

/-- Each answer is given exactly in its case. -/
structure FiringLaw (n : Net) (m : Marking) (t : TransitionId)
    (outcome : Except FireError Marking) : Prop where
  outOfRange_iff : outcome = .error (.outOfRange t) ↔ n.numTransitions ≤ t.index
  notEnabled_iff : outcome = .error (.notEnabled t) ↔
    t.index < n.numTransitions ∧ ∃ p < n.numPlaces, n.BlockedAt m t.index p
  overflow_iff : ∀ p, outcome = .error (.overflow t p) ↔
    t.index < n.numTransitions ∧ n.EnabledAt m t.index ∧ IsLeast (n.overfull m t.index) p.index
  fired : t.index < n.numTransitions → n.EnabledAt m t.index → n.overfull m t.index = ∅ →
    ∃ m', outcome = .ok m' ∧ m'.size = m.size ∧
      (∀ p < n.numPlaces, m'.count p = n.tokensAfter m t.index p) ∧
      ∀ p, n.numPlaces ≤ p → m'.count p = m.count p

theorem FiringOutcome.law {n : Net} {m : Marking} {t : TransitionId}
    {outcome : Except FireError Marking} (h : FiringOutcome n m t outcome) :
    FiringLaw n m t outcome := by
  have hblocked : (∃ p < n.numPlaces, n.BlockedAt m t.index p) ↔ ¬ n.EnabledAt m t.index := by
    simp [Net.EnabledAt]
  cases h with
  | outOfRange ht =>
    have hlt := Nat.not_lt.mpr ht
    constructor <;> simp [ht, hlt]
  | notEnabled ht henabled =>
    have hle := Nat.not_le.mpr ht
    constructor <;> simp [ht, hle, hblocked, henabled]
  | overflow p ht henabled hleast =>
    have hle := Nat.not_le.mpr ht
    constructor
    case overflow_iff =>
      intro q
      simp only [Except.error.injEq, FireError.overflow.injEq, true_and, ht, henabled]
      constructor
      · rintro rfl
        exact hleast
      · intro hq
        exact Id.ext_index (hleast.unique hq)
    case fired =>
      intro _ _ hempty
      exact absurd hleast.1 (hempty ▸ Set.notMem_empty _)
    all_goals simp [ht, hle, hblocked, henabled]
  | fired m' ht henabled hroom hsize hcount hrest =>
    have hle := Nat.not_le.mpr ht
    constructor
    case fired => exact fun _ _ _ => ⟨m', rfl, hsize, hcount, hrest⟩
    all_goals simp [ht, hle, hblocked, henabled, hroom, IsLeast]

section

variable {kind : Element} {k : ℕ}

theorem mem_ids_iff (hk : k ≤ UInt32.size) {i : Id kind} :
    i ∈ (List.range k).map idAt ↔ i.index < k := by
  rw [List.mem_map]
  constructor
  · rintro ⟨j, hj, rfl⟩
    have hj := List.mem_range.mp hj
    rwa [index_idAt kind (hj.trans_le hk)]
  · intro hi
    exact ⟨i.index, List.mem_range.mpr hi, idAt_index i⟩

theorem ascending_ids (hk : k ≤ UInt32.size) :
    ((List.range k).map idAt : List (Id kind)).Pairwise (· < ·) := by
  rw [List.pairwise_map]
  refine List.pairwise_lt_range.imp_of_mem fun {i j} hi hj hlt => ?_
  have hi := List.mem_range.mp hi
  have hj := List.mem_range.mp hj
  rwa [Id.lt_iff_index_lt, index_idAt kind (hi.trans_le hk), index_idAt kind (hj.trans_le hk)]

end

/-- The transition is missing or not enabled, so that no token is moved. -/
def Untried (outcome : Except FireError Marking) : Prop :=
  ∃ t, outcome = .error (.outOfRange t) ∨ outcome = .error (.notEnabled t)

theorem FiringOutcome.untried_iff {n : Net} {m : Marking} {t : TransitionId}
    {outcome : Except FireError Marking} (h : FiringOutcome n m t outcome) :
    Untried outcome ↔ ¬ (t.index < n.numTransitions ∧ n.EnabledAt m t.index) := by
  cases h with
  | outOfRange ht => simp [Untried, Nat.not_lt.mpr ht]
  | notEnabled ht henabled => simp [Untried, henabled]
  | overflow p ht henabled hleast => simp [Untried, ht, henabled]
  | fired m' ht henabled => simp [Untried, ht, henabled]

/-- On a well-formed net and a marking of all its places each firing answers, and each answer is
given exactly in its case. The tokens of an enabled transition are there, so that its first loop
always comes to its end. The enabled transitions are listed in order; they are the ones that are
not refused. -/
theorem firing_answers (n : Net) (hn : n.WellFormed) (m : Marking)
    (hsize : n.numPlaces ≤ m.size) :
    (∀ t : TransitionId, ∃ outcome, (n.fire m t).run = .ok outcome ∧ FiringLaw n m t outcome) ∧
    (∀ t : TransitionId, t.index < n.numTransitions → n.EnabledAt m t.index →
      (∀ p < n.numPlaces, (n.takenAt p t.index).toNat ≤ m.count p) ∧ ∃ taken,
        (((n.preset t).filter fun arc => !arc.inhibitor).foldlM (Net.takeAlong t) m).run =
          .ok (.ok taken)) ∧
    ∃ ts, n.enabledTransitions m = .ok ts ∧ ts.Pairwise (· < ·) ∧ ∀ t : TransitionId,
      t ∈ ts ↔ t.index < n.numTransitions ∧
        ∃ outcome, (n.fire m t).run = .ok outcome ∧ ¬ Untried outcome := by
  refine ⟨?answers, ?taken, _, hn.enabledTransitions_eq hsize, ?ascending, ?members⟩
  case answers =>
    intro t
    obtain ⟨outcome, hfire, houtcome⟩ := hn.fire_outcome hsize t
    exact ⟨outcome, hfire, houtcome.law⟩
  case taken =>
    intro t ht henabled
    obtain ⟨taken, htaken, -⟩ := hn.exists_taken hsize ht henabled
    exact ⟨fun p hp => henabled.takenAt_le hp, taken, htaken⟩
  case ascending => exact (ascending_ids hn.transitions_le).filter _
  case members =>
    intro t
    obtain ⟨outcome, hfire, houtcome⟩ := hn.fire_outcome hsize t
    rw [List.mem_filter, mem_ids_iff hn.transitions_le, decide_eq_true_iff]
    refine and_congr_right fun ht => ?_
    simp [hfire, houtcome.untried_iff, ht]

/-- A turnstile that takes a ticket, closes its lock by one step and counts one passenger more. It
is stuck when the lock is closed by two steps. -/
def turnstile : Net where
  places := ⟨#[⟨"ticket", 1⟩, ⟨"lock", 0⟩, ⟨"counter", 1⟩]⟩
  transitions := ⟨#[⟨"pass"⟩]⟩
  pre := ⟨⟨#[#[1], #[2], #[1]]⟩, 1⟩
  post := ⟨⟨#[#[0], #[1], #[2]]⟩, 1⟩
  inhibitor := ⟨⟨#[#[false], #[true], #[false]]⟩, 1⟩

/-- A counter that is full, and a place that the turnstile does not have. -/
def lastPassenger : Marking := .ofList [1, 1, 0xffffffffffffffff, 7]

theorem firing_answers_turnstile :
    turnstile.WellFormed ∧ turnstile.numPlaces ≤ lastPassenger.size ∧
    (turnstile.fire lastPassenger ⟨0⟩).run = .ok (.error (.overflow ⟨0⟩ ⟨2⟩)) := by
  have hn : turnstile.WellFormed := by decide
  have hsize : turnstile.numPlaces ≤ lastPassenger.size := by decide
  obtain ⟨outcome, hfire, hlaw⟩ := (firing_answers turnstile hn _ hsize).1 ⟨0⟩
  have hleast : IsLeast (turnstile.overfull lastPassenger 0) 2 := by
    refine ⟨⟨by decide, by decide⟩, ?_⟩
    rintro p ⟨-, hover⟩
    by_contra hlt
    have hroom : ∀ p < 2, ¬ UInt64.size ≤ turnstile.tokensAfter lastPassenger 0 p := by decide
    exact hroom p (Nat.not_le.mp hlt) hover
  have houtcome := (hlaw.overflow_iff ⟨2⟩).mpr ⟨by decide, by decide, hleast⟩
  exact ⟨hn, hsize, hfire.trans (congrArg Except.ok houtcome)⟩

end PetriAnalysis
