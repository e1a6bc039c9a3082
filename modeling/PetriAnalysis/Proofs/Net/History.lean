import Mathlib.Data.List.DropRight
import Mathlib.Data.List.Induction
import PetriAnalysis.Proofs.Net.Construction

/-!
# What a history of calls means for an arc

The calls that construct a net come in any order. What becomes of an arc is told by the calls on
this arc alone. The weight of an output arc is the one that it was last set to, with all that has
been added since. On the input side the last call that has an effect tells whether there is an
inhibitor arc; what an ordinary arc takes is again a sum, which starts anew at each inhibitor arc.
Places and transitions are numbered in the order in which they are added.

## Main definitions

* `tally reset? added calls` — a sum that some calls reset.
* `Edit.outputReset?`, `Edit.outputAdded` — calls that reset or raise an output weight.
* `Edit.inputReset?`, `Edit.inputAdded` — the same for what an ordinary arc takes.
* `lastInput? p t edits` — the last call that has an effect on the input side.
* `ArcHistory edits n p t` — an arc of a net against the calls in a history.
* `ElementsNumbered edits n` — the places and transitions against the calls in a history.
-/

namespace PetriAnalysis

/-! ## Sums that are reset -/

section

variable {κ : Type} {reset? : κ → Option ℕ} {added : κ → ℕ}

/-- What the last reset has left, with all that the calls after it add. -/
def tally (reset? : κ → Option ℕ) (added : κ → ℕ) (calls : List κ) : ℕ :=
  (calls.reverse.findSome? reset?).getD 0 +
    ((calls.rtakeWhile fun call => (reset? call).isNone).map added).sum

theorem tally_concat (calls : List κ) (call : κ) : tally reset? added (calls ++ [call]) =
    (reset? call).getD (tally reset? added calls + added call) := by
  rw [tally, tally, List.rtakeWhile_concat, List.reverse_append]
  cases h : reset? call with
  | none => simp [h, Nat.add_assoc]
  | some k => simp [h]

end

/-! ## The calls that bear on an arc -/

namespace Edit

/-- The arc that a call is about. -/
@[simp] def arc? : Edit → Option (PlaceId × TransitionId)
  | .addPlace _ | .addTransition _ => none
  | .addInputArc p t _ | .addOutputArc p t _ | .addInhibitorArc p t _ | .setInputWeight p t _
  | .setOutputWeight p t _ => some (p, t)

/-- The call is given a zero that it ignores. -/
def Ignored : Edit → Prop
  | .addInputArc _ _ w | .addOutputArc _ _ w | .addInhibitorArc _ _ w => w = 0
  | .addPlace _ | .addTransition _ | .setInputWeight .. | .setOutputWeight .. => False

variable (p : PlaceId) (t : TransitionId)

/-- The weight that a call sets the arc from `t` to `p` to. -/
@[simp] def outputReset? : Edit → Option ℕ
  | .setOutputWeight q u w => if q = p ∧ u = t then some w.toNat else none
  | _ => none

/-- The weight that a call adds to the arc from `t` to `p`. -/
@[simp] def outputAdded : Edit → ℕ
  | .addOutputArc q u w => if q = p ∧ u = t then w.toNat else 0
  | _ => 0

/-- What a call makes `t` take from `p`, whatever it took before. An inhibitor arc takes nothing. -/
@[simp] def inputReset? : Edit → Option ℕ
  | .setInputWeight q u w => if q = p ∧ u = t then some w.toNat else none
  | .addInhibitorArc q u threshold => if q = p ∧ u = t ∧ threshold ≠ 0 then some 0 else none
  | _ => none

/-- The weight that a call adds to the arc from `p` to `t`. -/
@[simp] def inputAdded : Edit → ℕ
  | .addInputArc q u w => if q = p ∧ u = t then w.toNat else 0
  | _ => 0

/-- Tells whether a call has an effect on the arc from `p` to `t`. -/
@[simp] def actsOnInput : Edit → Bool
  | .addInputArc q u w | .addInhibitorArc q u w => q = p ∧ u = t ∧ w ≠ 0
  | .setInputWeight q u _ => q = p ∧ u = t
  | _ => false

/-- The threshold that a call puts on an arc. -/
@[simp] def threshold? : Edit → Option Weight
  | .addInhibitorArc _ _ threshold => some threshold
  | _ => none

/-- The place that a call adds. -/
@[simp] def place? : Edit → Option Place
  | .addPlace place => some place
  | _ => none

/-- The transition that a call adds. -/
@[simp] def transition? : Edit → Option Transition
  | .addTransition transition => some transition
  | _ => none

end Edit

/-- The last call that has an effect on the arc from `p` to `t`. -/
def lastInput? (p : PlaceId) (t : TransitionId) (edits : List Edit) : Option Edit :=
  edits.reverse.find? (Edit.actsOnInput p t)

theorem lastInput?_concat (p : PlaceId) (t : TransitionId) (edits : List Edit) (edit : Edit) :
    lastInput? p t (edits ++ [edit]) =
      if edit.actsOnInput p t then some edit else lastInput? p t edits := by
  rw [lastInput?, List.reverse_append, List.reverse_singleton, List.singleton_append,
    List.find?_cons]
  cases edit.actsOnInput p t <;> rfl

/-! ## What one call does to an arc -/

/-- What a net holds for a place and a transition: the weight of the arc from the transition, the
tokens that the transition takes, and the threshold of an inhibitor arc. -/
@[ext] structure ArcState where
  output : ℕ
  taken : ℕ
  threshold : Option Weight

/-- What a call makes of an arc. -/
def Edit.onArc (p : PlaceId) (t : TransitionId) (edit : Edit) (arc : ArcState) : ArcState where
  output := (edit.outputReset? p t).getD (arc.output + edit.outputAdded p t)
  taken := (edit.inputReset? p t).getD (arc.taken + edit.inputAdded p t)
  threshold := if edit.actsOnInput p t then edit.threshold? else arc.threshold

/-- What a history of calls makes of an arc that has no weight before. -/
def arcAfter (p : PlaceId) (t : TransitionId) (edits : List Edit) : ArcState where
  output := tally (Edit.outputReset? p t) (Edit.outputAdded p t) edits
  taken := tally (Edit.inputReset? p t) (Edit.inputAdded p t) edits
  threshold := (lastInput? p t edits).bind Edit.threshold?

theorem arcAfter_concat (p : PlaceId) (t : TransitionId) (edits : List Edit) (edit : Edit) :
    arcAfter p t (edits ++ [edit]) = edit.onArc p t (arcAfter p t edits) := by
  ext1
  case output => exact tally_concat edits edit
  case taken => exact tally_concat edits edit
  case threshold =>
    simp only [arcAfter, Edit.onArc, lastInput?_concat]
    split_ifs <;> rfl

namespace Net

/-- The arcs between a place and a transition. -/
def arcAt (n : Net) (p : PlaceId) (t : TransitionId) : ArcState where
  output := (n.outputAt p.index t.index).toNat
  taken := (n.takenAt p.index t.index).toNat
  threshold := if n.inhibitorAt p.index t.index then some (n.inputAt p.index t.index) else none

variable {n n' : Net} {p q : PlaceId} {t u : TransitionId} {w : Weight}

theorem arcAt_of_same (hinput : ∀ q u, n'.inputAt q u = n.inputAt q u)
    (houtput : ∀ q u, n'.outputAt q u = n.outputAt q u)
    (hinhibitor : ∀ q u, n'.inhibitorAt q u = n.inhibitorAt q u) (p : PlaceId) (t : TransitionId) :
    n'.arcAt p t = n.arcAt p t := by
  simp only [arcAt, takenAt, hinput, houtput, hinhibitor]

theorem WellFormed.arcAt_addPlace (hn : n.WellFormed) {place : Place}
    (h : Net.addPlace place n = .ok q n') (p : PlaceId) (t : TransitionId) :
    n'.arcAt p t = n.arcAt p t := by
  obtain ⟨-, ⟨⟨_, hpre⟩, ⟨_, hpost⟩, ⟨_, hinhibitor⟩, -, -⟩⟩ := addPlace_eq_ok h
  exact arcAt_of_same (hn.pre_shaped.pushPlace hpre).2 (hn.post_shaped.pushPlace hpost).2
    (hn.inhibitor_shaped.pushPlace hinhibitor).2 p t

theorem WellFormed.arcAt_addTransition (hn : n.WellFormed) {transition : Transition}
    (h : Net.addTransition transition n = .ok u n') (p : PlaceId) (t : TransitionId) :
    n'.arcAt p t = n.arcAt p t := by
  obtain ⟨-, ⟨⟨_, hpre⟩, ⟨_, hpost⟩, ⟨_, hinhibitor⟩, -, -⟩⟩ := addTransition_eq_ok h
  exact arcAt_of_same (hn.pre_shaped.pushTransition hpre).2
    (hn.post_shaped.pushTransition hpost).2 (hn.inhibitor_shaped.pushTransition hinhibitor).2 p t

theorem same_arc_iff : q.index = p.index ∧ u.index = t.index ↔ q = p ∧ u = t := by
  constructor
  · rintro ⟨hp, ht⟩
    exact ⟨Id.ext_index hp, Id.ext_index ht⟩
  · rintro ⟨rfl, rfl⟩
    exact ⟨rfl, rfl⟩

theorem getD_cell?_set {α : Type} {m m' : Incidence α} {x y : α} (h : m.set q u x = .ok m')
    (p : PlaceId) (t : TransitionId) : (m'.cell? p.index t.index).getD y =
      if q = p ∧ u = t then x else (m.cell? p.index t.index).getD y := by
  rw [Incidence.cell?_set h]
  simp only [same_arc_iff]
  split_ifs <;> rfl

theorem OutputWritten.arcAt_eq (h : n.OutputWritten q u w n') (p : PlaceId) (t : TransitionId) :
    n'.arcAt p t =
      if q = p ∧ u = t then { n.arcAt p t with output := w.toNat } else n.arcAt p t := by
  simp only [arcAt, takenAt, outputAt, inputAt, inhibitorAt, h.pre_eq, h.inhibitor_eq,
    getD_cell?_set h.post_set]
  by_cases hsame : q = p ∧ u = t
  · simp only [if_pos hsame]
    rfl
  · simp only [if_neg hsame]
    rfl

theorem InputWritten.arcAt_eq {flag : Bool} (h : n.InputWritten q u w flag n') (p : PlaceId)
    (t : TransitionId) : n'.arcAt p t =
      if q = p ∧ u = t then ⟨(n.arcAt p t).output, if flag then 0 else w.toNat,
        if flag then some w else none⟩
      else n.arcAt p t := by
  simp only [arcAt, takenAt, outputAt, inputAt, inhibitorAt, h.post_eq,
    getD_cell?_set h.pre_set, getD_cell?_set h.inhibitor_set]
  by_cases hsame : q = p ∧ u = t
  · simp only [if_pos hsame]
    cases flag <;> rfl
  · simp only [if_neg hsame]
    rfl

/-- The weight that a call raises is what is taken, also where there is an inhibitor arc. -/
theorem takenAt_of_reads {replaces : Bool} {before : Weight}
    (hflag : n.isInhibitor p t = .ok replaces) (hbefore : n.pre.get p t = .ok before) :
    n.takenAt p.index t.index = if replaces then 0 else before := by
  rw [takenAt, inhibitorAt, inputAt, Incidence.get_eq_ok_iff.mp hflag,
    Incidence.get_eq_ok_iff.mp hbefore]
  rfl

end Net

/-- A call does to each arc what it says, and nothing to the others. -/
theorem Edit.arcAt_apply {n n' : Net} {edit : Edit} (hn : n.WellFormed)
    (h : edit.apply n = .ok () n') (p : PlaceId) (t : TransitionId) :
    n'.arcAt p t = edit.onArc p t (n.arcAt p t) := by
  cases edit with
  | addPlace place =>
    obtain ⟨_, _, hadd, hreturn⟩ := update_bind_eq_ok_iff.mp h
    obtain ⟨-, rfl⟩ := update_pure_eq_ok_iff.mp hreturn
    exact hn.arcAt_addPlace hadd p t
  | addTransition transition =>
    obtain ⟨_, _, hadd, hreturn⟩ := update_bind_eq_ok_iff.mp h
    obtain ⟨-, rfl⟩ := update_pure_eq_ok_iff.mp hreturn
    exact hn.arcAt_addTransition hadd p t
  | addInputArc q u w =>
    rcases Net.addInputArc_eq_ok h with
      ⟨rfl, rfl⟩ | ⟨hw, replaces, before, sum, hflag, hbefore, hsum, hwritten⟩
    · simp [onArc]
    · rw [hwritten.arcAt_eq]
      by_cases hsame : q = p ∧ u = t
      · obtain ⟨rfl, rfl⟩ := hsame
        have htaken : (n.arcAt q u).taken + w.toNat = sum.toNat := by
          rw [Net.arcAt, Net.takenAt_of_reads hflag hbefore]
          exact Weight.add?_eq_some_iff.mp hsum
        simp [onArc, hw, htaken]
      · simp [onArc, ← and_assoc, hsame]
  | addOutputArc q u w =>
    rcases Net.addOutputArc_eq_ok h with ⟨rfl, rfl⟩ | ⟨-, before, sum, hbefore, hsum, hwritten⟩
    · simp [onArc]
    · rw [hwritten.arcAt_eq]
      by_cases hsame : q = p ∧ u = t
      · obtain ⟨rfl, rfl⟩ := hsame
        have houtput : (n.arcAt q u).output + w.toNat = sum.toNat := by
          rw [Net.arcAt, Net.outputAt, Incidence.get_eq_ok_iff.mp hbefore]
          exact Weight.add?_eq_some_iff.mp hsum
        simp [onArc, houtput]
      · simp [onArc, hsame]
  | addInhibitorArc q u threshold =>
    rcases Net.addInhibitorArc_eq_ok h with ⟨rfl, rfl⟩ | ⟨hthreshold, hwritten⟩
    · simp [onArc]
    · rw [hwritten.arcAt_eq]
      by_cases hsame : q = p ∧ u = t
      · simp [onArc, hsame, hthreshold]
      · simp [onArc, ← and_assoc, hsame]
  | setInputWeight q u w =>
    rw [(Net.setInputWeight_eq_ok h).arcAt_eq]
    by_cases hsame : q = p ∧ u = t <;> simp [onArc, hsame]
  | setOutputWeight q u w =>
    rw [(Net.setOutputWeight_eq_ok h).arcAt_eq]
    by_cases hsame : q = p ∧ u = t <;> simp [onArc, hsame]

/-- A call about something else changes nothing. -/
theorem Edit.onArc_of_ne {edit : Edit} {p : PlaceId} {t : TransitionId}
    (h : edit.arc? ≠ some (p, t)) (arc : ArcState) : edit.onArc p t arc = arc := by
  cases edit with
  | addPlace _ => rfl
  | addTransition _ => rfl
  | addInputArc q u w | addOutputArc q u w | addInhibitorArc q u w | setInputWeight q u w
  | setOutputWeight q u w =>
    have hother : ¬(q = p ∧ u = t) := by simpa using h
    simp [onArc, ← and_assoc, hother]

/-- A zero is ignored before the identifiers are looked at. -/
theorem Edit.Ignored.apply_eq {edit : Edit} (h : edit.Ignored) (n : Net) :
    edit.apply n = .ok () n := by
  cases edit with
  | addPlace _ | addTransition _ | setInputWeight _ _ _ | setOutputWeight _ _ _ => exact h.elim
  | addInputArc q u w | addOutputArc q u w | addInhibitorArc q u w =>
    obtain rfl : w = 0 := h
    rfl

/-! ## What one call does to the elements -/

section

variable {kind : Element} {α : Type} {v v' : Family kind α} {xs : List α}

@[simp] theorem Family.length_toList (v : Family kind α) : v.toList.length = v.size :=
  Array.length_toList

/-- Elements are never taken away. -/
theorem size_le_of_toList_eq (h : v'.toList = v.toList ++ xs) : v.size ≤ v'.size := by
  rw [← Family.length_toList v', h, List.length_append, Family.length_toList]
  exact Nat.le_add_right _ _

/-- The number of the next element is the number of those before it. -/
theorem index_of_toList_eq {i : Id kind} (h : v.toList = xs) (hi : Id.ofIndex v.size = .ok i) :
    i.index = xs.length := by
  rw [Id.index_of_ofIndex hi, ← h, Family.length_toList]

end

namespace Edit

variable {n n' : Net} {edit : Edit}

theorem elements_apply (h : edit.apply n = .ok () n') :
    n'.places.toList = n.places.toList ++ edit.place?.toList ∧
      n'.transitions.toList = n.transitions.toList ++ edit.transition?.toList := by
  have hwritten : n'.places = n.places → n'.transitions = n.transitions →
      n'.places.toList = n.places.toList ++ [] ∧
        n'.transitions.toList = n.transitions.toList ++ [] := by
    intro hplaces htransitions
    simp [hplaces, htransitions]
  cases edit with
  | addPlace place =>
    obtain ⟨_, _, hadd, hreturn⟩ := update_bind_eq_ok_iff.mp h
    obtain ⟨-, rfl⟩ := update_pure_eq_ok_iff.mp hreturn
    obtain ⟨-, hmatrices⟩ := Net.addPlace_eq_ok hadd
    simp [hmatrices.places_eq, hmatrices.transitions_eq, Family.toList]
  | addTransition transition =>
    obtain ⟨_, _, hadd, hreturn⟩ := update_bind_eq_ok_iff.mp h
    obtain ⟨-, rfl⟩ := update_pure_eq_ok_iff.mp hreturn
    obtain ⟨-, hmatrices⟩ := Net.addTransition_eq_ok hadd
    simp [hmatrices.places_eq, hmatrices.transitions_eq, Family.toList]
  | addInputArc p t w =>
    rcases Net.addInputArc_eq_ok h with ⟨-, rfl⟩ | ⟨-, _, _, _, -, -, -, hinput⟩
    · exact hwritten rfl rfl
    · exact hwritten hinput.places_eq hinput.transitions_eq
  | addOutputArc p t w =>
    rcases Net.addOutputArc_eq_ok h with ⟨-, rfl⟩ | ⟨-, _, _, -, -, houtput⟩
    · exact hwritten rfl rfl
    · exact hwritten houtput.places_eq houtput.transitions_eq
  | addInhibitorArc p t threshold =>
    rcases Net.addInhibitorArc_eq_ok h with ⟨-, rfl⟩ | ⟨-, hinput⟩
    · exact hwritten rfl rfl
    · exact hwritten hinput.places_eq hinput.transitions_eq
  | setInputWeight p t w =>
    have hinput := Net.setInputWeight_eq_ok h
    exact hwritten hinput.places_eq hinput.transitions_eq
  | setOutputWeight p t w =>
    have houtput := Net.setOutputWeight_eq_ok h
    exact hwritten houtput.places_eq houtput.transitions_eq

end Edit

/-! ## Histories from the net without elements -/

namespace Net

variable {n n' : Net} {edits before after : List Edit}

theorem construct_append_iff : construct (before ++ after) n = .ok () n' ↔
    ∃ n₁, construct before n = .ok () n₁ ∧ construct after n₁ = .ok () n' := by
  rw [construct, List.forM_eq_forM, List.forM_append, update_bind_eq_ok_iff]
  constructor
  · rintro ⟨_, n₁, hbefore, hafter⟩
    exact ⟨n₁, hbefore, hafter⟩
  · rintro ⟨n₁, hbefore, hafter⟩
    exact ⟨(), n₁, hbefore, hafter⟩

theorem construct_singleton {edit : Edit} : construct [edit] n = edit.apply n := by
  simp [construct]

/-- The arcs of a net are what the calls have made of them. -/
theorem arcAt_construct (h : construct edits .empty = .ok () n) (p : PlaceId) (t : TransitionId) :
    n.arcAt p t = arcAfter p t edits := by
  -- from the last call on, since a reset makes what came before it void
  induction edits using List.reverseRecOn generalizing n with
  | nil =>
    obtain ⟨-, rfl⟩ := update_pure_eq_ok_iff.mp h
    rfl
  | append_singleton edits edit ih =>
    obtain ⟨n₁, hbefore, hlast⟩ := construct_append_iff.mp h
    rw [construct_singleton] at hlast
    rw [Edit.arcAt_apply (wellFormed_empty.construct hbefore) hlast, ih hbefore, arcAfter_concat]

/-- The elements of a net are those that the calls have added, in the same order. -/
theorem elements_construct (h : construct edits .empty = .ok () n) :
    n.places.toList = edits.filterMap Edit.place? ∧
      n.transitions.toList = edits.filterMap Edit.transition? := by
  induction edits using List.reverseRecOn generalizing n with
  | nil =>
    obtain ⟨-, rfl⟩ := update_pure_eq_ok_iff.mp h
    exact ⟨rfl, rfl⟩
  | append_singleton edits edit ih =>
    obtain ⟨n₁, hbefore, hlast⟩ := construct_append_iff.mp h
    rw [construct_singleton] at hlast
    obtain ⟨hplaces, htransitions⟩ := Edit.elements_apply hlast
    rw [(ih hbefore).1] at hplaces
    rw [(ih hbefore).2] at htransitions
    rw [hplaces, htransitions, List.filterMap_append, List.filterMap_append]
    cases edit <;> exact ⟨rfl, rfl⟩

/-- What the first place after those of `before` starts with. -/
theorem tokens_initialMarking {place : Place} {p : PlaceId}
    (h : construct (before ++ .addPlace place :: after) .empty = .ok () n)
    (hp : p.index = (before.filterMap Edit.place?).length) :
    n.initialMarking.tokens p = .ok place.tokens := by
  have hplaces := (elements_construct h).1
  have hcall : (Edit.addPlace place).place? = some place := rfl
  rw [List.filterMap_append, List.filterMap_cons_some hcall] at hplaces
  have hplace : n.places.data[p.index]? = some place := by
    rw [← Array.getElem?_toList, hp]
    change n.places.toList[_]? = _
    rw [hplaces, List.getElem?_append_right le_rfl, Nat.sub_self]
    rfl
  change fetch (n.places.data.map Place.tokens) p.index = _
  rw [fetch_eq_ok_iff, Array.getElem?_map, hplace]
  rfl

end Net

/-! ## Main theorem -/

/-- What the calls in a history have made of the arcs between a place and a transition. The
history is one that leads from the net without elements to `n`. -/
structure ArcHistory (edits : List Edit) (n : Net) (p : PlaceId) (t : TransitionId) : Prop where
  output : ∃ w, n.post.get p t = .ok w ∧
    w.toNat = tally (Edit.outputReset? p t) (Edit.outputAdded p t) edits
  inhibiting : ∀ threshold, lastInput? p t edits = some (.addInhibitorArc p t threshold) →
    0 < threshold ∧ n.isInhibitor p t = .ok true ∧ n.pre.get p t = .ok threshold ∧
      n.inWeight p t = .ok 0
  ordinary : (∀ threshold, lastInput? p t edits ≠ some (.addInhibitorArc p t threshold)) →
    n.isInhibitor p t = .ok false ∧ ∃ w, n.pre.get p t = .ok w ∧ n.inWeight p t = .ok w ∧
      w.toNat = tally (Edit.inputReset? p t) (Edit.inputAdded p t) edits

/-- Two nets have the same arcs between a place and a transition. -/
structure SameArc (n n' : Net) (p : PlaceId) (t : TransitionId) : Prop where
  pre_eq : n'.pre.get p t = n.pre.get p t
  post_eq : n'.post.get p t = n.post.get p t
  inhibitor_eq : n'.isInhibitor p t = n.isInhibitor p t

/-- The places and transitions of a net have the numbers in which they were added, and each place
starts with the tokens that it was added with. -/
structure ElementsNumbered (edits : List Edit) (n : Net) : Prop where
  numPlaces_eq : n.numPlaces = (edits.filterMap Edit.place?).length
  numTransitions_eq : n.numTransitions = (edits.filterMap Edit.transition?).length
  place : ∀ before place after, edits = before ++ .addPlace place :: after →
    ∃ n₀ p n₁, Net.construct before .empty = .ok () n₀ ∧ Net.addPlace place n₀ = .ok p n₁ ∧
      Net.construct after n₁ = .ok () n ∧ p.index = (before.filterMap Edit.place?).length ∧
      n.initialMarking.tokens p = .ok place.tokens
  transition : ∀ before transition after, edits = before ++ .addTransition transition :: after →
    ∃ n₀ t n₁, Net.construct before .empty = .ok () n₀ ∧
      Net.addTransition transition n₀ = .ok t n₁ ∧ Net.construct after n₁ = .ok () n ∧
      t.index = (before.filterMap Edit.transition?).length

/-- The last call with an effect puts a threshold on the arc only as an inhibitor arc. -/
theorem lastInput?_of_threshold {p : PlaceId} {t : TransitionId} {edits : List Edit}
    {threshold : Weight} (h : (lastInput? p t edits).bind Edit.threshold? = some threshold) :
    lastInput? p t edits = some (.addInhibitorArc p t threshold) := by
  obtain ⟨edit, hlast, hthreshold⟩ := Option.bind_eq_some_iff.mp h
  have hacts : edit.actsOnInput p t := List.find?_some hlast
  cases edit with
  | addInhibitorArc q u w =>
    obtain ⟨rfl, rfl, -⟩ : q = p ∧ u = t ∧ w ≠ 0 := of_decide_eq_true hacts
    obtain rfl : w = threshold := Option.some.inj hthreshold
    exact hlast
  | _ => cases hthreshold

namespace Net

variable {n n' : Net} {edits : List Edit} {p : PlaceId} {t : TransitionId}

theorem arcHistory (h : construct edits .empty = .ok () n) (hp : p.index < n.numPlaces)
    (ht : t.index < n.numTransitions) : ArcHistory edits n p t := by
  have hn := wellFormed_empty.construct h
  have harc := arcAt_construct h p t
  have hthreshold : (if n.inhibitorAt p.index t.index then some (n.inputAt p.index t.index)
      else none) = (lastInput? p t edits).bind Edit.threshold? := congrArg ArcState.threshold harc
  constructor
  case output =>
    refine ⟨_, hn.outWeight_eq hp ht, ?_⟩
    exact congrArg ArcState.output harc
  case inhibiting =>
    intro threshold hlast
    have hsome : (lastInput? p t edits).bind Edit.threshold? = some threshold := by
      rw [hlast]
      rfl
    obtain ⟨hflag, hinput⟩ := Option.ite_none_right_eq_some.mp (hthreshold.trans hsome)
    have hinput : n.inputAt p.index t.index = threshold := Option.some.inj hinput
    refine ⟨?_, ?_, ?_, ?_⟩
    · exact UInt64.pos_iff_ne_zero.mpr (hinput ▸ hn.inputAt_ne_zero hflag)
    · rw [hn.isInhibitor_eq hp ht, hflag]
    · rw [hn.get_pre hp ht, hinput]
    · rw [hn.inWeight_eq hp ht, takenAt, if_pos hflag]
  case ordinary =>
    intro hlast
    -- a flag would be the mark of a last call that adds an inhibitor arc
    have hflag : n.inhibitorAt p.index t.index = false := by
      by_contra hflag
      rw [Bool.not_eq_false] at hflag
      rw [if_pos hflag] at hthreshold
      exact hlast _ (lastInput?_of_threshold hthreshold.symm)
    have htaken : n.takenAt p.index t.index = n.inputAt p.index t.index := by
      rw [takenAt, hflag]
      rfl
    refine ⟨by rw [hn.isInhibitor_eq hp ht, hflag], _, hn.get_pre hp ht, ?_, ?_⟩
    · rw [hn.inWeight_eq hp ht, htaken]
    · rw [← htaken]
      exact congrArg ArcState.taken harc

/-- What a net holds for an arc tells all three cells. -/
theorem cells_of_arcAt_eq (h : n'.arcAt p t = n.arcAt p t) :
    n'.inputAt p.index t.index = n.inputAt p.index t.index ∧
      n'.outputAt p.index t.index = n.outputAt p.index t.index ∧
      n'.inhibitorAt p.index t.index = n.inhibitorAt p.index t.index := by
  have houtput := UInt64.toNat_inj.mp (congrArg ArcState.output h)
  have htaken := UInt64.toNat_inj.mp (congrArg ArcState.taken h)
  have hthreshold := congrArg ArcState.threshold h
  simp only [arcAt, takenAt] at houtput htaken hthreshold
  cases hflag : n.inhibitorAt p.index t.index <;>
    cases hflag' : n'.inhibitorAt p.index t.index <;> simp_all

theorem sameArc (hn : n.WellFormed) {edit : Edit} (hp : p.index < n.numPlaces)
    (ht : t.index < n.numTransitions) (hother : edit.arc? ≠ some (p, t))
    (h : edit.apply n = .ok () n') : SameArc n n' p t := by
  have hn' := hn.edit h
  have hp' := hp.trans_le (size_le_of_toList_eq (Edit.elements_apply h).1)
  have ht' := ht.trans_le (size_le_of_toList_eq (Edit.elements_apply h).2)
  have harc := Edit.arcAt_apply hn h p t
  rw [Edit.onArc_of_ne hother] at harc
  obtain ⟨hinput, houtput, hinhibitor⟩ := cells_of_arcAt_eq harc
  constructor
  case pre_eq => rw [hn'.get_pre hp' ht', hn.get_pre hp ht, hinput]
  case post_eq =>
    have := (hn'.outWeight_eq hp' ht').trans (congrArg Except.ok houtput)
    exact this.trans (hn.outWeight_eq hp ht).symm
  case inhibitor_eq => rw [hn'.isInhibitor_eq hp' ht', hn.isInhibitor_eq hp ht, hinhibitor]

theorem elementsNumbered (h : construct edits .empty = .ok () n) : ElementsNumbered edits n := by
  obtain ⟨hplaces, htransitions⟩ := elements_construct h
  constructor
  case numPlaces_eq => rw [Net.numPlaces, ← Family.length_toList, hplaces]
  case numTransitions_eq => rw [Net.numTransitions, ← Family.length_toList, htransitions]
  case place =>
    rintro before place after rfl
    obtain ⟨n₀, hbefore, hrest⟩ := construct_append_iff.mp h
    obtain ⟨_, n₁, hcall, hafter⟩ := update_bind_eq_ok_iff.mp hrest
    obtain ⟨p, _, hadd, hreturn⟩ := update_bind_eq_ok_iff.mp hcall
    obtain ⟨-, rfl⟩ := update_pure_eq_ok_iff.mp hreturn
    have hp := index_of_toList_eq (elements_construct hbefore).1 (addPlace_eq_ok hadd).1
    exact ⟨n₀, p, _, hbefore, hadd, hafter, hp, tokens_initialMarking h hp⟩
  case transition =>
    rintro before transition after rfl
    obtain ⟨n₀, hbefore, hrest⟩ := construct_append_iff.mp h
    obtain ⟨_, n₁, hcall, hafter⟩ := update_bind_eq_ok_iff.mp hrest
    obtain ⟨t, _, hadd, hreturn⟩ := update_bind_eq_ok_iff.mp hcall
    obtain ⟨-, rfl⟩ := update_pure_eq_ok_iff.mp hreturn
    have ht := index_of_toList_eq (elements_construct hbefore).2 (addTransition_eq_ok hadd).1
    exact ⟨n₀, t, _, hbefore, hadd, hafter, ht⟩

end Net

/-- A net that has been constructed without a fault holds for each place and transition what the
calls on this arc say. Calls about something else leave the arc as it is, zeros are ignored, and
places and transitions are numbered in the order in which they come. -/
theorem construction_history (edits : List Edit) (n : Net)
    (h : Net.construct edits .empty = .ok () n) :
    (∀ p t, p.index < n.numPlaces → t.index < n.numTransitions → ArcHistory edits n p t ∧
      ∀ (edit : Edit) (n' : Net), edit.arc? ≠ some (p, t) → edit.apply n = .ok () n' →
        SameArc n n' p t) ∧
    (∀ edit : Edit, edit.Ignored → edit.apply n = .ok () n) ∧
    ElementsNumbered edits n := by
  have hn := Net.wellFormed_empty.construct h
  refine ⟨?_, fun edit hignored => hignored.apply_eq n, Net.elementsNumbered h⟩
  intro p t hp ht
  exact ⟨Net.arcHistory h hp ht, fun edit n' hother hedit => Net.sameArc hn hp ht hother hedit⟩

/-- The gate has been told last to inhibit `pass` by two locks, and to sell one ticket and one more
at a time. -/
theorem construction_history_gate : Net.construct gateEdits .empty = .ok () gate ∧
    (gate.isInhibitor ⟨1⟩ ⟨0⟩ = .ok true ∧ gate.pre.get ⟨1⟩ ⟨0⟩ = .ok 2 ∧
      gate.inWeight ⟨1⟩ ⟨0⟩ = .ok 0) ∧
    (∃ w, gate.post.get ⟨0⟩ ⟨1⟩ = .ok w ∧ w.toNat = 1 + 1) ∧
    gate.initialMarking.tokens ⟨1⟩ = .ok 0 := by
  have hedits : Net.construct gateEdits .empty = .ok () gate := by cbv
  obtain ⟨harcs, -, helements⟩ := construction_history gateEdits gate hedits
  have hlock := (harcs ⟨1⟩ ⟨0⟩ (by decide) (by decide)).1
  have hticket := (harcs ⟨0⟩ ⟨1⟩ (by decide) (by decide)).1
  refine ⟨hedits, (hlock.inhibiting 2 (by rfl)).2, hticket.output, ?_⟩
  obtain ⟨_, p, _, -, -, -, hp, htokens⟩ := helements.place (gateEdits.take 3) _ _ rfl
  obtain rfl : p = ⟨1⟩ := Id.ext_index hp
  exact htokens

end PetriAnalysis
