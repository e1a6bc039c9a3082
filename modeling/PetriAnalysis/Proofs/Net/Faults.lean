import PetriAnalysis.Proofs.Net.Edits

/-!
# Calls on an arc that fault

A call on an arc faults if the net lacks the place or the transition, unless the call is given a
zero that it ignores, and if a sum of weights leaves the range of weights. It writes two matrices
one after the other, and an update keeps what it has written before a fault. Still a call that
faults leaves the net as it was: the matrices have the same shape, so that the first access settles
whether there is a cell, and a sum that is out of range stands in a cell that had no flag to clear.

## Main definitions

* `FaultsIff act s P` — the update faults exactly if `P`, and then changes nothing.
* `Net.Lacks n p t` — the net has no such place or no such transition.
* `Edit.OnArc`, `Edit.Outside`, `Edit.Exceeds` — calls on arcs and their two causes of a fault.
-/

namespace PetriAnalysis

/-- The update faults exactly if `P` holds, and then it leaves the value as it was. -/
structure FaultsIff {σ α : Type} (act : Update σ α) (s : σ) (P : Prop) : Prop where
  faults : P → ∃ e, act s = .error e s
  answers : ¬ P → ∃ a s', act s = .ok a s'

section

variable {σ α β : Type} {act : Update σ α} {f : α → Update σ β} {s s' : σ} {P Q : Prop}

namespace FaultsIff

theorem exists_error_iff (h : FaultsIff act s P) : (∃ e s', act s = .error e s') ↔ P := by
  constructor
  · rintro ⟨e, s', herror⟩
    by_contra hP
    obtain ⟨a, s'', hok⟩ := h.answers hP
    simp [hok] at herror
  · intro hP
    obtain ⟨e, herror⟩ := h.faults hP
    exact ⟨e, s, herror⟩

theorem unchanged (h : FaultsIff act s P) {e : Fault} (herror : act s = .error e s') : s' = s := by
  obtain ⟨e', herror'⟩ := h.faults (h.exists_error_iff.mp ⟨e, s', herror⟩)
  rw [herror'] at herror
  injection herror with _ hs
  exact hs.symm

theorem congr (h : FaultsIff act s P) (hPQ : P ↔ Q) : FaultsIff act s Q :=
  propext hPQ ▸ h

theorem pure (a : α) : FaultsIff (Pure.pure a : Update σ α) s False where
  faults h := h.elim
  answers _ := ⟨a, s, rfl⟩

end FaultsIff

theorem update_bind_of_ok {a : α} (h : act s = .ok a s') : (act >>= f) s = f a s' := by
  change EStateM.bind act f s = _
  rw [EStateM.bind, h]

theorem update_bind_of_error {e : Fault} (h : act s = .error e s') :
    (act >>= f) s = .error e s' := by
  change EStateM.bind act f s = _
  rw [EStateM.bind, h]

theorem inspect_of_ok {look : σ → Except Fault α} {a : α} (h : look s = .ok a) :
    Update.inspect look s = .ok a s := by
  rw [Update.inspect, h]

namespace FaultsIff

/-- What comes after a step that changes nothing settles whether there is a fault. -/
theorem bind_idle {a : α} (hidle : act s = .ok a s) (h : FaultsIff (f a) s P) :
    FaultsIff (act >>= f) s P where
  faults hP := by
    obtain ⟨e, herror⟩ := h.faults hP
    exact ⟨e, (update_bind_of_ok hidle).trans herror⟩
  answers hP := by
    obtain ⟨b, s', hok⟩ := h.answers hP
    exact ⟨b, s', (update_bind_of_ok hidle).trans hok⟩

theorem inspect_bind {look : σ → Except Fault α} {a : α} (hlook : look s = .ok a)
    (h : FaultsIff (f a) s P) : FaultsIff (Update.inspect look >>= f) s P :=
  bind_idle (inspect_of_ok hlook) h

theorem inspect_bind_error {look : σ → Except Fault α} {e : Fault} (hlook : look s = .error e)
    (hP : P) : FaultsIff (Update.inspect look >>= f) s P where
  faults _ := by
    refine ⟨e, update_bind_of_error ?_⟩
    rw [Update.inspect, hlook]
  answers h := absurd hP h

end FaultsIff

end

/-! ## Cells that are missing -/

theorem setIfInBounds_of_getElem? {α : Type} {xs : Array α} {i : ℕ} {x : α}
    (h : xs[i]? = some x) : xs.setIfInBounds i x = xs := by
  refine Array.ext_getElem? ?_
  intro j
  rw [Array.getElem?_setIfInBounds]
  split_ifs with hj hi
  · rw [← hj, h]
  · exact absurd (Array.getElem?_eq_some_iff.mp h).1 hi
  · rfl

namespace Incidence

variable {α : Type} {m m' : Incidence α} {places transitions : ℕ} {p : PlaceId} {t : TransitionId}
  {x : α}

theorem Shaped.exists_set (h : m.Shaped places transitions) (hp : p.index < places)
    (ht : t.index < transitions) (x : α) : ∃ m', m.set p t x = .ok m' := by
  have hrow : p.index < m.rows.data.size := hp.trans_eq h.numPlaces_eq.symm
  have hcell : t.index < m.rows.data[p.index].size := by
    rw [h.rectangular _ (Array.getElem_mem hrow), h.numTransitions_eq]
    exact ht
  rw [Incidence.set, Family.get, fetch_of_lt hrow, ok_bind, store_of_lt hcell, ok_bind, Family.set,
    store_of_lt hrow]
  exact ⟨_, rfl⟩

theorem Shaped.get_error (h : m.Shaped places transitions)
    (hcell : ¬ (p.index < places ∧ t.index < transitions)) : ∃ e, m.get p t = .error e := by
  cases hget : m.get p t with
  | error e => exact ⟨e, rfl⟩
  | ok x => exact absurd (h.lt_of_cell? (get_eq_ok_iff.mp hget)) hcell

theorem Shaped.set_error (h : m.Shaped places transitions)
    (hcell : ¬ (p.index < places ∧ t.index < transitions)) (x : α) :
    ∃ e, m.set p t x = .error e := by
  cases hset : m.set p t x with
  | error e => exact ⟨e, rfl⟩
  | ok m' =>
    have hx := cell?_set hset p.index t.index
    rw [if_pos ⟨rfl, rfl⟩] at hx
    exact absurd ((h.set hset).lt_of_cell? hx) hcell

/-- Writing the value that a cell has changes nothing. -/
theorem eq_of_set_of_get (hset : m.set p t x = .ok m') (hget : m.get p t = .ok x) : m' = m := by
  obtain ⟨row, hrow, -, rfl⟩ := set_eq_ok hset
  have hcell := get_eq_ok_iff.mp hget
  rw [cell?, hrow, Option.bind_some] at hcell
  rw [setIfInBounds_of_getElem? hcell, setIfInBounds_of_getElem? hrow]

end Incidence

/-! ## Calls on an arc -/

namespace Net

/-- The net has no such place or no such transition. -/
def Lacks (n : Net) (p : PlaceId) (t : TransitionId) : Prop :=
  n.numPlaces ≤ p.index ∨ n.numTransitions ≤ t.index

variable {n : Net} {p : PlaceId} {t : TransitionId} {w : Weight}

theorem not_lacks_iff : ¬ n.Lacks p t ↔ p.index < n.numPlaces ∧ t.index < n.numTransitions := by
  simp [Lacks]

theorem writePre_of_ok {pre : Incidence Weight} (h : n.pre.set p t w = .ok pre) :
    writePre p t w n = .ok () { n with pre } := by
  rw [writePre, onPre, focus, Update.whole, h]

theorem writePre_of_error {e : Fault} (h : n.pre.set p t w = .error e) :
    writePre p t w n = .error e n := by
  rw [writePre, onPre, focus, Update.whole, h]

theorem writePost_of_ok {post : Incidence Weight} (h : n.post.set p t w = .ok post) :
    writePost p t w n = .ok () { n with post } := by
  rw [writePost, onPost, focus, Update.whole, h]

theorem writePost_of_error {e : Fault} (h : n.post.set p t w = .error e) :
    writePost p t w n = .error e n := by
  rw [writePost, onPost, focus, Update.whole, h]

theorem writeInhibitor_of_ok {flag : Bool} {inhibitor : Incidence Bool}
    (h : n.inhibitor.set p t flag = .ok inhibitor) :
    writeInhibitor p t flag n = .ok () { n with inhibitor } := by
  rw [writeInhibitor, onInhibitor, focus, Update.whole, h]

theorem increase_zero (w : Weight) : increase w 0 = .ok w := by
  simp [increase, Weight.add?, UInt64.toNat_lt_size]

/-- A sum is written if it is a weight. -/
theorem increase_faultsIff {before : Weight} {write : Weight → Update Net Unit}
    (hwrite : ∀ sum, ∃ n', write sum n = .ok () n') :
    FaultsIff (do let sum ← Update.lift (increase w before); write sum) n
      (UInt64.size ≤ before.toNat + w.toNat) := by
  by_cases hroom : before.toNat + w.toNat < UInt64.size
  case pos =>
    have hsum : increase w before = .ok (before + w) := by simp [increase, Weight.add?, hroom]
    refine FaultsIff.inspect_bind hsum ⟨fun hover => absurd hover hroom.not_ge, fun _ => ?_⟩
    exact ⟨(), hwrite (before + w)⟩
  case neg =>
    have hover := Nat.not_lt.mp hroom
    have hsum : increase w before = .error .sumOverflow := by
      rw [increase, Weight.add?_eq_none_iff.mpr hover]
    exact FaultsIff.inspect_bind_error hsum hover

namespace WellFormed

/-- A weight and a flag are written both or not at all. -/
theorem writeInput_faultsIff (hn : n.WellFormed) (w : Weight) (flag : Bool) :
    FaultsIff (do writePre p t w; writeInhibitor p t flag) n (n.Lacks p t) where
  faults h := by
    obtain ⟨e, herror⟩ := hn.pre_shaped.set_error (fun hcell => not_lacks_iff.mpr hcell h) w
    exact ⟨e, update_bind_of_error (writePre_of_error herror)⟩
  answers h := by
    obtain ⟨hp, ht⟩ := not_lacks_iff.mp h
    obtain ⟨pre, hpre⟩ := hn.pre_shaped.exists_set hp ht w
    obtain ⟨inhibitor, hinhibitor⟩ := hn.inhibitor_shaped.exists_set hp ht flag
    refine ⟨(), { n with pre, inhibitor }, ?_⟩
    rw [update_bind_of_ok (writePre_of_ok hpre)]
    exact writeInhibitor_of_ok hinhibitor

theorem setOutputWeight_faultsIff (hn : n.WellFormed) (w : Weight) :
    FaultsIff (setOutputWeight p t w) n (n.Lacks p t) where
  faults h := by
    obtain ⟨e, herror⟩ := hn.post_shaped.set_error (fun hcell => not_lacks_iff.mpr hcell h) w
    exact ⟨e, writePost_of_error herror⟩
  answers h := by
    obtain ⟨hp, ht⟩ := not_lacks_iff.mp h
    obtain ⟨post, hpost⟩ := hn.post_shaped.exists_set hp ht w
    exact ⟨(), _, writePost_of_ok hpost⟩

theorem addInhibitorArc_faultsIff (hn : n.WellFormed) (threshold : Weight) :
    FaultsIff (addInhibitorArc p t threshold) n (threshold ≠ 0 ∧ n.Lacks p t) := by
  rw [addInhibitorArc]
  by_cases hzero : threshold = 0
  · simpa [hzero] using FaultsIff.pure ()
  · simpa [hzero] using hn.writeInput_faultsIff threshold true

theorem addOutputArc_faultsIff (hn : n.WellFormed) (w : Weight) :
    FaultsIff (addOutputArc p t w) n (w ≠ 0 ∧ n.Lacks p t ∨
      UInt64.size ≤ (n.outputAt p.index t.index).toNat + w.toNat) := by
  rw [addOutputArc]
  by_cases hzero : w = 0
  · have hroom := UInt64.toNat_lt_size (n.outputAt p.index t.index)
    rw [if_pos hzero]
    exact (FaultsIff.pure ()).congr (by simp [hzero, hroom])
  rw [if_neg hzero]
  by_cases hlacks : n.Lacks p t
  case pos =>
    obtain ⟨e, herror⟩ := hn.post_shaped.get_error fun hcell => not_lacks_iff.mpr hcell hlacks
    exact FaultsIff.inspect_bind_error herror (.inl ⟨hzero, hlacks⟩)
  case neg =>
    obtain ⟨hp, ht⟩ := not_lacks_iff.mp hlacks
    have hwrite (sum : Weight) : ∃ n', writePost p t sum n = .ok () n' := by
      obtain ⟨post, hpost⟩ := hn.post_shaped.exists_set hp ht sum
      exact ⟨_, writePost_of_ok hpost⟩
    refine FaultsIff.inspect_bind (hn.outWeight_eq hp ht) ?_
    exact (increase_faultsIff hwrite).congr (by simp [hlacks])

/-- Only an ordinary arc can become too heavy, and its flag has nothing to be cleared. -/
theorem addInputArc_faultsIff (hn : n.WellFormed) (w : Weight) :
    FaultsIff (addInputArc p t w) n (w ≠ 0 ∧ n.Lacks p t ∨
      n.inhibitorAt p.index t.index = false ∧
        UInt64.size ≤ (n.inputAt p.index t.index).toNat + w.toNat) := by
  rw [addInputArc]
  by_cases hzero : w = 0
  · have hroom := UInt64.toNat_lt_size (n.inputAt p.index t.index)
    rw [if_pos hzero]
    exact (FaultsIff.pure ()).congr (by simp [hzero, hroom])
  rw [if_neg hzero]
  by_cases hlacks : n.Lacks p t
  case pos =>
    obtain ⟨e, herror⟩ := hn.inhibitor_shaped.get_error fun hcell => not_lacks_iff.mpr hcell hlacks
    exact FaultsIff.inspect_bind_error herror (.inl ⟨hzero, hlacks⟩)
  case neg =>
    obtain ⟨hp, ht⟩ := not_lacks_iff.mp hlacks
    have hflag := hn.isInhibitor_eq hp ht
    obtain ⟨inhibitor, hinhibitor⟩ := hn.inhibitor_shaped.exists_set hp ht false
    refine FaultsIff.inspect_bind hflag ?_
    cases hcell : n.inhibitorAt p.index t.index
    case false =>
      -- the flag is written over itself
      rw [hcell] at hflag
      have hidle := writeInhibitor_of_ok hinhibitor
      rw [Incidence.eq_of_set_of_get hinhibitor hflag] at hidle
      have hwrite (sum : Weight) : ∃ n', writePre p t sum n = .ok () n' := by
        obtain ⟨pre, hpre⟩ := hn.pre_shaped.exists_set hp ht sum
        exact ⟨_, writePre_of_ok hpre⟩
      refine FaultsIff.bind_idle hidle (FaultsIff.inspect_bind (hn.get_pre hp ht) ?_)
      exact (increase_faultsIff hwrite).congr (by simp [hlacks])
    case true =>
      refine ⟨by simp [hlacks], fun _ => ?_⟩
      obtain ⟨pre, hpre⟩ := hn.pre_shaped.exists_set hp ht w
      refine ⟨(), { n with pre, inhibitor }, ?_⟩
      refine update_bind_eq_ok_iff.mpr ⟨(), _, writeInhibitor_of_ok hinhibitor, ?_⟩
      refine inspect_bind_eq_ok_iff.mpr ⟨_, hn.get_pre hp ht, ?_⟩
      exact lift_bind_eq_ok_iff.mpr ⟨w, increase_zero w, writePre_of_ok hpre⟩

end WellFormed

end Net

/-! ## All calls on arcs -/

namespace Edit

/-- The calls on an arc. The others add an element. -/
def OnArc : Edit → Prop
  | .addPlace _ | .addTransition _ => False
  | .addInputArc .. | .addOutputArc .. | .addInhibitorArc .. | .setInputWeight ..
  | .setOutputWeight .. => True

/-- The net lacks the place or the transition of a call that is not ignored. -/
def Outside (n : Net) : Edit → Prop
  | .addPlace _ | .addTransition _ => False
  | .addInputArc p t w | .addOutputArc p t w | .addInhibitorArc p t w => w ≠ 0 ∧ n.Lacks p t
  | .setInputWeight p t _ | .setOutputWeight p t _ => n.Lacks p t

/-- The weight that a call adds makes an ordinary arc too heavy. -/
def Exceeds (n : Net) : Edit → Prop
  | .addInputArc p t w => n.inhibitorAt p.index t.index = false ∧
      UInt64.size ≤ (n.inputAt p.index t.index).toNat + w.toNat
  | .addOutputArc p t w => UInt64.size ≤ (n.outputAt p.index t.index).toNat + w.toNat
  | .addPlace _ | .addTransition _ | .addInhibitorArc .. | .setInputWeight ..
  | .setOutputWeight .. => False

theorem faultsIff {n : Net} (hn : n.WellFormed) {edit : Edit} (hedit : edit.OnArc) :
    FaultsIff edit.apply n (edit.Outside n ∨ edit.Exceeds n) := by
  cases edit with
  | addPlace place => exact hedit.elim
  | addTransition transition => exact hedit.elim
  | addInputArc p t w => exact hn.addInputArc_faultsIff w
  | addOutputArc p t w => exact hn.addOutputArc_faultsIff w
  | addInhibitorArc p t w =>
    exact (hn.addInhibitorArc_faultsIff w).congr (by simp [Outside, Exceeds])
  | setInputWeight p t w =>
    exact (hn.writeInput_faultsIff w false).congr (by simp [Outside, Exceeds])
  | setOutputWeight p t w =>
    exact (hn.setOutputWeight_faultsIff w).congr (by simp [Outside, Exceeds])

end Edit

/-- A call on an arc of a well-formed net faults exactly if it lies outside of the net or makes an
ordinary arc too heavy, and whenever it faults the net is as it was. An inhibitor arc can always
be turned into an ordinary one. -/
theorem arc_call_faults (n : Net) (hn : n.WellFormed) :
    (∀ edit : Edit, edit.OnArc →
      ((∃ e n', edit.apply n = .error e n') ↔ edit.Outside n ∨ edit.Exceeds n) ∧
      ∀ e n', edit.apply n = .error e n' → n' = n) ∧
    ∀ (p : PlaceId) (t : TransitionId) (w : Weight), n.isInhibitor p t = .ok true →
      ∃ n', Net.addInputArc p t w n = .ok () n' := by
  constructor
  · intro edit hedit
    have h := Edit.faultsIff hn hedit
    exact ⟨h.exists_error_iff, fun e n' => h.unchanged⟩
  · intro p t w hinhibitor
    have hcell := Incidence.get_eq_ok_iff.mp hinhibitor
    obtain ⟨hp, ht⟩ := hn.inhibitor_shaped.lt_of_cell? hcell
    have hflag : n.inhibitorAt p.index t.index = true := by
      rw [Net.inhibitorAt, hcell, Option.getD_some]
    obtain ⟨_, n', hok⟩ := (hn.addInputArc_faultsIff (p := p) (t := t) w).answers (by
      simp [Net.not_lacks_iff.mpr ⟨hp, ht⟩, hflag])
    exact ⟨n', hok⟩

/-- A crate that is filled at once: the arc into it has the largest weight. -/
def crate : Net where
  places := ⟨#[⟨"crate", 0⟩, ⟨"seal", 0⟩]⟩
  transitions := ⟨#[⟨"pack"⟩]⟩
  pre := ⟨⟨#[#[0xffffffffffffffff], #[0xffffffffffffffff]]⟩, 1⟩
  post := ⟨⟨#[#[0], #[1]]⟩, 1⟩
  inhibitor := ⟨⟨#[#[false], #[true]]⟩, 1⟩

theorem arc_call_faults_crate : crate.WellFormed ∧
    (∃ e n', (Edit.addInputArc ⟨0⟩ ⟨0⟩ 1).apply crate = .error e n' ∧ n' = crate) ∧
    (∃ e n', (Edit.setInputWeight ⟨0⟩ ⟨1⟩ 0).apply crate = .error e n' ∧ n' = crate) ∧
    ∃ n', Net.addInputArc ⟨1⟩ ⟨0⟩ 1 crate = .ok () n' := by
  have hn : crate.WellFormed := by decide
  obtain ⟨hcalls, hinhibitor⟩ := arc_call_faults crate hn
  refine ⟨hn, ?_, ?_, hinhibitor ⟨1⟩ ⟨0⟩ 1 (by decide)⟩
  · obtain ⟨hfaults, hunchanged⟩ := hcalls (.addInputArc ⟨0⟩ ⟨0⟩ 1) trivial
    obtain ⟨e, n', herror⟩ := hfaults.mpr (.inr ⟨by decide, by decide⟩)
    exact ⟨e, n', herror, hunchanged e n' herror⟩
  · obtain ⟨hfaults, hunchanged⟩ := hcalls (.setInputWeight ⟨0⟩ ⟨1⟩ 0) trivial
    obtain ⟨e, n', herror⟩ := hfaults.mpr (.inl (.inr (by decide)))
    exact ⟨e, n', herror, hunchanged e n' herror⟩

end PetriAnalysis
