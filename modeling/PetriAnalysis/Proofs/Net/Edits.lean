import PetriAnalysis.Proofs.Net.WellFormed

/-!
# Calls on a net that do not fault

A call that adds an element extends all three matrices, and no weight and no flag changes by that.
A call on an arc writes the cells of this arc, or does nothing at all when it is given a zero. Each
of these facts is stated for a call that does not fault, as the net that it leaves.

## Main definitions

* `Net.MatricesUpdated` — a net whose matrices are extended.
* `Net.InputWritten`, `Net.OutputWritten` — a net in which one arc is written.
* `Edit`, `Edit.apply`, `Net.construct` — the calls, and a history of calls.
-/

namespace PetriAnalysis

/-! ## Updates that answer -/

section

variable {σ τ α β : Type} {s s' : σ}

theorem update_bind_eq_ok_iff {x : Update σ α} {f : α → Update σ β} {b : β} :
    (x >>= f) s = .ok b s' ↔ ∃ a s₁, x s = .ok a s₁ ∧ f a s₁ = .ok b s' := by
  change EStateM.bind x f s = _ ↔ _
  rw [EStateM.bind]
  cases x s <;> simp

@[simp] theorem update_pure_eq_ok_iff {a b : α} :
    (pure a : Update σ α) s = .ok b s' ↔ a = b ∧ s = s' := by
  change EStateM.Result.ok a s = _ ↔ _
  simp

theorem focus_eq_ok_iff {part : σ → τ} {replace : σ → τ → σ} {act : Update τ α} {a : α} :
    focus part replace act s = .ok a s' ↔ ∃ t, act (part s) = .ok a t ∧ replace s t = s' := by
  rw [focus]
  cases act (part s) <;> simp

@[simp] theorem whole_eq_ok_iff {change : σ → Except Fault σ} {u : Unit} :
    Update.whole change s = .ok u s' ↔ change s = .ok s' := by
  rw [Update.whole]
  cases change s <;> simp

theorem inspect_bind_eq_ok_iff {look : σ → Except Fault α} {f : α → Update σ β} {b : β} :
    (Update.inspect look >>= f) s = .ok b s' ↔ ∃ a, look s = .ok a ∧ f a s = .ok b s' := by
  rw [update_bind_eq_ok_iff]
  simp only [Update.inspect]
  cases look s <;> simp

theorem lift_bind_eq_ok_iff {r : Except Fault α} {f : α → Update σ β} {b : β} :
    (Update.lift r >>= f) s = .ok b s' ↔ ∃ a, r = .ok a ∧ f a s = .ok b s' :=
  inspect_bind_eq_ok_iff

end

theorem push_eq_ok_iff {kind : Element} {α : Type} {x : α} {v v' : Family kind α} {i : Id kind} :
    Family.push x v = .ok i v' ↔ Id.ofIndex v.size = .ok i ∧ ⟨v.data.push x⟩ = v' := by
  rw [Family.push]
  cases (Id.ofIndex v.size : Except Fault (Id kind)) <;> simp

theorem lt_of_ofIndex {kind : Element} {k : ℕ} {i : Id kind} (h : Id.ofIndex k = .ok i) :
    k < UInt32.size :=
  Id.index_of_ofIndex h ▸ i.index_lt

/-! ## Growing and writing matrices -/

section

variable {α : Type} {row : Array α} {x : α}

/-- A value appended to a row is not told from a missing one that counts as it. -/
theorem getD_push (t : ℕ) : ((row.push x)[t]?).getD x = (row[t]?).getD x := by
  rw [Array.getElem?_push]
  split_ifs with ht
  · simp [ht]
  · rfl

theorem getD_replicate (length t : ℕ) : ((Array.replicate length x)[t]?).getD x = x := by
  rw [Array.getElem?_replicate]
  split_ifs <;> rfl

end

namespace Incidence

variable {α : Type} {m m' : Incidence α} {places transitions : ℕ} {p : PlaceId} {t : TransitionId}
  {x : α}

theorem shaped_filled (x : α) : (filled 0 0 x).Shaped 0 0 :=
  ⟨rfl, rfl, by simp [Rectangular, filled]⟩

/-- Cells lie within the matrix. -/
theorem Shaped.lt_of_cell? (h : m.Shaped places transitions) {q u : ℕ}
    (hcell : m.cell? q u = some x) : q < places ∧ u < transitions := by
  obtain ⟨row, hrow, hx⟩ := Option.bind_eq_some_iff.mp hcell
  obtain ⟨hq, rfl⟩ := Array.getElem?_eq_some_iff.mp hrow
  obtain ⟨hu, -⟩ := Array.getElem?_eq_some_iff.mp hx
  refine ⟨Nat.lt_of_lt_of_eq hq h.numPlaces_eq, ?_⟩
  rwa [h.rectangular _ (Array.getElem_mem hq), h.numTransitions_eq] at hu

/-- A new row with the value that a missing cell counts as changes no value. -/
theorem Shaped.pushPlace (h : m.Shaped places transitions) (hpush : m.pushPlace x = .ok p m') :
    m'.Shaped (places + 1) transitions ∧
      ∀ q u, (m'.cell? q u).getD x = (m.cell? q u).getD x := by
  obtain ⟨rows, hrows, rfl⟩ := focus_eq_ok_iff.mp hpush
  obtain ⟨-, rfl⟩ := push_eq_ok_iff.mp hrows
  have hsize : m.rows.data.size = places := h.numPlaces_eq
  refine ⟨⟨?_, h.numTransitions_eq, ?_⟩, ?_⟩
  · change (m.rows.data.push _).size = _
    rw [Array.size_push, hsize]
  · intro row hrow
    rcases Array.mem_push.mp hrow with hold | rfl
    · exact h.rectangular row hold
    · exact Array.size_replicate
  · intro q u
    simp only [cell?, Array.getElem?_push]
    by_cases hq : q = m.rows.data.size
    · simp [hq, getD_replicate]
    · rw [if_neg hq]

/-- A new column with the value that a missing cell counts as changes no value. -/
theorem Shaped.pushTransition (h : m.Shaped places transitions)
    (hpush : m.pushTransition x = .ok t m') :
    m'.Shaped places (transitions + 1) ∧
      ∀ q u, (m'.cell? q u).getD x = (m.cell? q u).getD x := by
  rw [Incidence.pushTransition] at hpush
  split at hpush
  · cases hpush
  · next width hwidth =>
    have hwidth : m.numTransitions + 1 = width.toNat := Weight.add?_eq_some_iff.mp hwidth
    split at hpush
    · cases hpush
      refine ⟨⟨?_, ?_, ?_⟩, ?_⟩
      · exact (Family.size_map _ _).trans h.numPlaces_eq
      · rw [← h.numTransitions_eq, hwidth, numTransitions]
      · intro row hrow
        obtain ⟨row, hold, rfl⟩ := Array.mem_map.mp hrow
        rw [Array.size_push, h.rectangular row hold, hwidth, numTransitions]
      · intro q u
        simp only [cell?, Family.map, Array.getElem?_map]
        cases m.rows.data[q]? with
        | none => rfl
        | some row => exact getD_push u
    · cases hpush

/-- What a write is made of. -/
theorem set_eq_ok (hset : m.set p t x = .ok m') :
    ∃ row, m.rows.data[p.index]? = some row ∧ t.index < row.size ∧
      m' = { m with
        rows := ⟨m.rows.data.setIfInBounds p.index (row.setIfInBounds t.index x)⟩ } := by
  obtain ⟨row, hrow, hset⟩ := bind_eq_ok_iff.mp hset
  obtain ⟨row', hrow', hset⟩ := bind_eq_ok_iff.mp hset
  obtain ⟨rows, hrows, hset⟩ := bind_eq_ok_iff.mp hset
  obtain ⟨data, hdata, rfl⟩ := map_eq_ok_iff.mp hrows
  obtain ⟨ht, rfl⟩ := store_eq_ok_iff.mp hrow'
  obtain ⟨-, rfl⟩ := store_eq_ok_iff.mp hdata
  cases hset
  exact ⟨row, fetch_eq_ok_iff.mp hrow, ht, rfl⟩

theorem Shaped.set (h : m.Shaped places transitions) (hset : m.set p t x = .ok m') :
    m'.Shaped places transitions := by
  obtain ⟨row, hrow, -, rfl⟩ := set_eq_ok hset
  refine ⟨?_, h.numTransitions_eq, ?_⟩
  · exact Array.size_setIfInBounds.trans h.numPlaces_eq
  · intro row' hrow'
    rcases Array.mem_or_eq_of_mem_setIfInBounds hrow' with hold | rfl
    · exact h.rectangular row' hold
    · rw [Array.size_setIfInBounds]
      exact h.rectangular row (Array.mem_of_getElem? hrow)

/-- A write changes one cell. -/
theorem cell?_set (hset : m.set p t x = .ok m') (q u : ℕ) :
    m'.cell? q u = if p.index = q ∧ t.index = u then some x else m.cell? q u := by
  obtain ⟨row, hrow, ht, rfl⟩ := set_eq_ok hset
  have hp := (Array.getElem?_eq_some_iff.mp hrow).1
  simp only [cell?, Array.getElem?_setIfInBounds, hp, if_true]
  by_cases hq : p.index = q
  · subst hq
    rw [if_pos rfl, hrow, Option.bind_some, Option.bind_some, Array.getElem?_setIfInBounds]
    simp [ht]
  · simp [hq]

end Incidence

/-! ## Nets in which an element is added or an arc is written -/

namespace Net

/-- The net `n'` is `n` with other contents of the cell that the ordinary and the inhibitor arc
from `p` to `t` share. -/
structure InputWritten (n : Net) (p : PlaceId) (t : TransitionId) (w : Weight) (flag : Bool)
    (n' : Net) : Prop where
  pre_set : n.pre.set p t w = .ok n'.pre
  inhibitor_set : n.inhibitor.set p t flag = .ok n'.inhibitor
  places_eq : n'.places = n.places
  transitions_eq : n'.transitions = n.transitions
  post_eq : n'.post = n.post

/-- The net `n'` is `n` with another weight of the arc from `t` to `p`. -/
structure OutputWritten (n : Net) (p : PlaceId) (t : TransitionId) (w : Weight) (n' : Net) :
    Prop where
  post_set : n.post.set p t w = .ok n'.post
  places_eq : n'.places = n.places
  transitions_eq : n'.transitions = n.transitions
  pre_eq : n'.pre = n.pre
  inhibitor_eq : n'.inhibitor = n.inhibitor

variable {n n' : Net} {p : PlaceId} {t : TransitionId} {w : Weight}

theorem writePre_eq_ok {u : Unit} (h : writePre p t w n = .ok u n') :
    ∃ pre, n.pre.set p t w = .ok pre ∧ { n with pre } = n' := by
  simpa [writePre, onPre, focus_eq_ok_iff] using h

theorem writePost_eq_ok {u : Unit} (h : writePost p t w n = .ok u n') :
    ∃ post, n.post.set p t w = .ok post ∧ { n with post } = n' := by
  simpa [writePost, onPost, focus_eq_ok_iff] using h

theorem writeInhibitor_eq_ok {u : Unit} {flag : Bool} (h : writeInhibitor p t flag n = .ok u n') :
    ∃ inhibitor, n.inhibitor.set p t flag = .ok inhibitor ∧ { n with inhibitor } = n' := by
  simpa [writeInhibitor, onInhibitor, focus_eq_ok_iff] using h

theorem setInputWeight_eq_ok (h : setInputWeight p t w n = .ok () n') :
    n.InputWritten p t w false n' := by
  obtain ⟨_, n₁, hfirst, hsecond⟩ := update_bind_eq_ok_iff.mp h
  obtain ⟨pre, hpre, rfl⟩ := writePre_eq_ok hfirst
  obtain ⟨inhibitor, hinhibitor, rfl⟩ := writeInhibitor_eq_ok hsecond
  exact ⟨hpre, hinhibitor, rfl, rfl, rfl⟩

theorem setOutputWeight_eq_ok (h : setOutputWeight p t w n = .ok () n') :
    n.OutputWritten p t w n' := by
  obtain ⟨post, hpost, rfl⟩ := writePost_eq_ok h
  exact ⟨hpost, rfl, rfl, rfl, rfl⟩

theorem increase_eq_ok_iff {before sum : Weight} :
    increase w before = .ok sum ↔ Weight.add? before w = some sum := by
  rw [increase]
  cases Weight.add? before w <;> simp

/-- What is added to an ordinary arc is added to its weight, and to zero where there was an
inhibitor arc. -/
theorem addInputArc_eq_ok (h : addInputArc p t w n = .ok () n') :
    w = 0 ∧ n = n' ∨ w ≠ 0 ∧ ∃ replaces before sum, n.isInhibitor p t = .ok replaces ∧
      n.pre.get p t = .ok before ∧
      Weight.add? (if replaces then 0 else before) w = some sum ∧
      n.InputWritten p t sum false n' := by
  rw [addInputArc] at h
  by_cases hw : w = 0
  · rw [if_pos hw, update_pure_eq_ok_iff] at h
    exact Or.inl ⟨hw, h.2⟩
  · rw [if_neg hw, inspect_bind_eq_ok_iff] at h
    obtain ⟨replaces, hreplaces, h⟩ := h
    obtain ⟨_, n₁, hcleared, h⟩ := update_bind_eq_ok_iff.mp h
    obtain ⟨inhibitor, hinhibitor, rfl⟩ := writeInhibitor_eq_ok hcleared
    obtain ⟨before, hbefore, h⟩ := inspect_bind_eq_ok_iff.mp h
    obtain ⟨sum, hsum, h⟩ := lift_bind_eq_ok_iff.mp h
    obtain ⟨pre, hpre, rfl⟩ := writePre_eq_ok h
    exact Or.inr ⟨hw, replaces, before, sum, hreplaces, hbefore, increase_eq_ok_iff.mp hsum,
      hpre, hinhibitor, rfl, rfl, rfl⟩

theorem addOutputArc_eq_ok (h : addOutputArc p t w n = .ok () n') :
    w = 0 ∧ n = n' ∨ w ≠ 0 ∧ ∃ before sum, n.post.get p t = .ok before ∧
      Weight.add? before w = some sum ∧ n.OutputWritten p t sum n' := by
  rw [addOutputArc] at h
  by_cases hw : w = 0
  · rw [if_pos hw, update_pure_eq_ok_iff] at h
    exact Or.inl ⟨hw, h.2⟩
  · rw [if_neg hw, inspect_bind_eq_ok_iff] at h
    obtain ⟨before, hbefore, h⟩ := h
    obtain ⟨sum, hsum, h⟩ := lift_bind_eq_ok_iff.mp h
    obtain ⟨post, hpost, rfl⟩ := writePost_eq_ok h
    exact Or.inr ⟨hw, before, sum, hbefore, increase_eq_ok_iff.mp hsum, hpost, rfl, rfl, rfl, rfl⟩

theorem addInhibitorArc_eq_ok (h : addInhibitorArc p t w n = .ok () n') :
    w = 0 ∧ n = n' ∨ w ≠ 0 ∧ n.InputWritten p t w true n' := by
  rw [addInhibitorArc] at h
  by_cases hw : w = 0
  · rw [if_pos hw, update_pure_eq_ok_iff] at h
    exact Or.inl ⟨hw, h.2⟩
  · rw [if_neg hw] at h
    obtain ⟨_, n₁, hfirst, hsecond⟩ := update_bind_eq_ok_iff.mp h
    obtain ⟨pre, hpre, rfl⟩ := writePre_eq_ok hfirst
    obtain ⟨inhibitor, hinhibitor, rfl⟩ := writeInhibitor_eq_ok hsecond
    exact Or.inr ⟨hw, hpre, hinhibitor, rfl, rfl, rfl⟩

/-- The three matrices are updated one after the other, the first two alike. -/
structure MatricesUpdated {kind : Element} (n : Net)
    (onWeights : Update (Incidence Weight) (Id kind))
    (onFlags : Update (Incidence Bool) (Id kind)) (n' : Net) : Prop where
  pre : ∃ i, onWeights n.pre = .ok i n'.pre
  post : ∃ i, onWeights n.post = .ok i n'.post
  inhibitor : ∃ i, onFlags n.inhibitor = .ok i n'.inhibitor
  places_eq : n'.places = n.places
  transitions_eq : n'.transitions = n.transitions

theorem matricesUpdated_of_eq_ok {kind : Element} {onWeights : Update (Incidence Weight) (Id kind)}
    {onFlags : Update (Incidence Bool) (Id kind)} {a b : Id kind}
    (h : (do
      let _ ← onPre onWeights
      let _ ← onPost onWeights
      let _ ← onInhibitor onFlags
      return a) n = .ok b n') : a = b ∧ n.MatricesUpdated onWeights onFlags n' := by
  obtain ⟨_, _, hpre, h⟩ := update_bind_eq_ok_iff.mp h
  obtain ⟨pre, hpre', rfl⟩ := focus_eq_ok_iff.mp hpre
  obtain ⟨_, _, hpost, h⟩ := update_bind_eq_ok_iff.mp h
  obtain ⟨post, hpost', rfl⟩ := focus_eq_ok_iff.mp hpost
  obtain ⟨_, _, hinhibitor, h⟩ := update_bind_eq_ok_iff.mp h
  obtain ⟨inhibitor, hinhibitor', rfl⟩ := focus_eq_ok_iff.mp hinhibitor
  obtain ⟨rfl, rfl⟩ := update_pure_eq_ok_iff.mp h
  exact ⟨rfl, ⟨_, hpre'⟩, ⟨_, hpost'⟩, ⟨_, hinhibitor'⟩, rfl, rfl⟩

/-- A new place comes with a row in each matrix. -/
theorem addPlace_eq_ok {place : Place} (h : addPlace place n = .ok p n') :
    Id.ofIndex n.numPlaces = .ok p ∧
      { n with places := ⟨n.places.data.push place⟩ }.MatricesUpdated
        (Incidence.pushPlace 0) (Incidence.pushPlace false) n' := by
  obtain ⟨_, _, hplaces, h⟩ := update_bind_eq_ok_iff.mp h
  obtain ⟨places, hpush, rfl⟩ := focus_eq_ok_iff.mp hplaces
  obtain ⟨hid, rfl⟩ := push_eq_ok_iff.mp hpush
  obtain ⟨rfl, hmatrices⟩ := matricesUpdated_of_eq_ok h
  exact ⟨hid, hmatrices⟩

/-- A new transition comes with a column in each matrix. -/
theorem addTransition_eq_ok {transition : Transition} (h : addTransition transition n = .ok t n') :
    Id.ofIndex n.numTransitions = .ok t ∧
      { n with transitions := ⟨n.transitions.data.push transition⟩ }.MatricesUpdated
        (Incidence.pushTransition 0) (Incidence.pushTransition false) n' := by
  obtain ⟨_, _, htransitions, h⟩ := update_bind_eq_ok_iff.mp h
  obtain ⟨transitions, hpush, rfl⟩ := focus_eq_ok_iff.mp htransitions
  obtain ⟨hid, rfl⟩ := push_eq_ok_iff.mp hpush
  obtain ⟨rfl, hmatrices⟩ := matricesUpdated_of_eq_ok h
  exact ⟨hid, hmatrices⟩

end Net

/-! ## Histories -/

/-- The calls that construct a net. -/
inductive Edit where
  | addPlace (place : Place)
  | addTransition (transition : Transition)
  | addInputArc (p : PlaceId) (t : TransitionId) (w : Weight)
  | addOutputArc (p : PlaceId) (t : TransitionId) (w : Weight)
  | addInhibitorArc (p : PlaceId) (t : TransitionId) (threshold : Weight)
  | setInputWeight (p : PlaceId) (t : TransitionId) (w : Weight)
  | setOutputWeight (p : PlaceId) (t : TransitionId) (w : Weight)

/-- Makes a call. -/
def Edit.apply : Edit → Update Net Unit
  | .addPlace place => do let _ ← Net.addPlace place
  | .addTransition transition => do let _ ← Net.addTransition transition
  | .addInputArc p t w => Net.addInputArc p t w
  | .addOutputArc p t w => Net.addOutputArc p t w
  | .addInhibitorArc p t threshold => Net.addInhibitorArc p t threshold
  | .setInputWeight p t w => Net.setInputWeight p t w
  | .setOutputWeight p t w => Net.setOutputWeight p t w

namespace Net

/-- Makes calls one after the other, up to the first one that faults. -/
def construct (edits : List Edit) : Update Net Unit := edits.forM Edit.apply

end Net

end PetriAnalysis
