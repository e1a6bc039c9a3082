import PetriAnalysis.Proofs.Lp.Entries
import PetriAnalysis.Proofs.Relaxation.Effect
import PetriAnalysis.Proofs.Relaxation.Pacing

/-!
# Constructions that do not fault

A net may fault when it is read, and a backend when rows or columns are appended. Where all
observations of a net exist, a fault of a construction is one of the backend. There is none if the
backend numbers its rows and columns one after the other: a program has at most twice as many rows
as there are identifiers, so 64 bits suffice. A backend may still refuse every change.

## Main definitions

* `Observable net`, `Readable net` — identifiers, arc weights and lists of arcs exist.
* `Orderly L` — a backend that numbers rows and columns one after the other.
* `AppendFault L e` — a fault of a backend.
* `FaultsWithin F Q x` — an outcome with a fault in `F`, with a value in `Q`, or with neither.
-/

namespace PetriAnalysis

variable {N L α β : Type}

/-- Identifiers and arc weights exist for all places and transitions. -/
structure Observable [PetriNet N] (net : N) : Prop where
  places_le : PetriNet.numPlaces net ≤ UInt32.size
  transitions_le : PetriNet.numTransitions net ≤ UInt32.size
  outWeight : ∀ (t : TransitionId) (p : PlaceId), t.index < PetriNet.numTransitions net →
    p.index < PetriNet.numPlaces net → ∃ w, PetriNet.outWeight net t p = .ok w
  inWeight : ∀ (t : TransitionId) (p : PlaceId), t.index < PetriNet.numTransitions net →
    p.index < PetriNet.numPlaces net → ∃ w, PetriNet.inWeight net p t = .ok w

/-- The arcs of all transitions can be listed, too. -/
structure Readable [PetriNet N] (net : N) : Prop extends Observable net where
  arcs : ∀ t : TransitionId, t.index < PetriNet.numTransitions net →
    ∃ pre post, PetriNet.preset net t = .ofList pre ∧ PetriNet.postset net t = .ofList post

variable (L) in
/-- New programs are empty, what is appended is numbered on as long as 64 bits suffice, and other
changes append nothing. -/
structure Orderly [LinearProgram L] : Prop where
  create : ∀ n (lp : L), LinearProgram.create n = some lp →
    LinearProgram.numRows lp = 0 ∧ LinearProgram.numCols lp = 0
  addCols : ∀ count (lp : L), LinearProgram.numCols lp + count < UInt64.size →
    ∃ lp', LinearProgram.addCols count lp = .ok (LinearProgram.numCols lp) lp' ∧
      LinearProgram.numRows lp' = LinearProgram.numRows lp
  addRows : ∀ count (lp : L), LinearProgram.numRows lp + count < UInt64.size →
    ∃ lp', LinearProgram.addRows count lp = .ok (LinearProgram.numRows lp) lp' ∧
      LinearProgram.numRows lp' = LinearProgram.numRows lp + count
  setColumn : ∀ col rows values (lp lp' : L),
    LinearProgram.setColumn col rows values lp = .ok () lp' →
      LinearProgram.numRows lp' = LinearProgram.numRows lp
  setRowBound : ∀ row b (lp lp' : L), LinearProgram.setRowBound row b lp = .ok () lp' →
    LinearProgram.numRows lp' = LinearProgram.numRows lp

theorem orderly_sparseLp : Orderly SparseLp where
  create := by
    rintro n lp ⟨rfl⟩
    exact ⟨rfl, rfl⟩
  addCols count lp h := by
    refine ⟨{ lp with
      columns := SparseLp.resize lp.columns (lp.numCols + count) ∅
      colBounds := SparseLp.resize lp.colBounds (lp.numCols + count) (.lower 0) }, ?_, rfl⟩
    have hsum : sizeSum lp.numCols count = .ok (lp.numCols + count) := sizeSum_of_lt h
    change SparseLp.addCols count lp = _
    rw [SparseLp.addCols, hsum]
    rfl
  addRows count lp h := by
    refine ⟨_, SparseLp.addRows_of_lt h, ?_⟩
    change (lp.rowBounds ++ Array.replicate count Bound.free).size = _
    rw [Array.size_append, Array.size_replicate]
    rfl
  setColumn col rows values lp lp' h :=
    congrArg Array.size (SparseLp.setColumn_eq_ok h).rowBounds_eq
  setRowBound row b lp lp' h := (SparseLp.setRowBound_eq_ok h).numRows_eq

theorem ofIndex_of_lt (kind : Element) {n : ℕ} (h : n < UInt32.size) :
    ∃ i : Id kind, Id.ofIndex n = .ok i := by
  rw [Id.ofIndex, if_pos h]
  exact ⟨_, rfl⟩

/-! ## Outcomes with certain faults -/

/-- An outcome whose fault, if it is one, satisfies `F`, and whose value, if it has one, satisfies
`Q`. -/
def FaultsWithin (F : Fault → Prop) (Q : α → Prop) : Except BuildError α → Prop
  | .ok a => Q a
  | .error (.abort _) => True
  | .error (.fault e) => F e

namespace FaultsWithin

variable {F : Fault → Prop} {Q : α → Prop} {R : β → Prop}

theorem bind {x : Except BuildError α} {f : α → Except BuildError β} (h : FaultsWithin F Q x)
    (hf : ∀ a, Q a → FaultsWithin F R (f a)) : FaultsWithin F R (x >>= f) := by
  match x with
  | .ok a => exact hf a h
  | .error (.abort _) => trivial
  | .error (.fault _) => exact h

theorem foldlM {l : List α} {f : β → α → Except BuildError β} {b : β} (hb : R b)
    (hf : ∀ a ∈ l, ∀ b, R b → FaultsWithin F R (f b a)) : FaultsWithin F R (l.foldlM f b) := by
  induction l generalizing b with
  | nil => exact hb
  | cons a l ih =>
    obtain ⟨hfirst, hrest⟩ := List.forall_mem_cons.mp hf
    rw [List.foldlM_cons]
    exact (hfirst b hb).bind fun b' hb' => ih hb' hrest

theorem observed_bind {x : Except Fault α} {f : α → Except BuildError β} {a : α} (h : x = .ok a)
    (hf : FaultsWithin F R (f a)) : FaultsWithin F R (observed x >>= f) := by
  rw [h]
  exact hf

theorem of_sizeSum {a b : ℕ} (h : UInt64.size ≤ a + b → F .sumOverflow) :
    FaultsWithin F (fun _ => True) (observed (sizeSum a b)) := by
  rw [sizeSum]
  split_ifs with hsum
  · trivial
  · exact h (Nat.not_lt.mp hsum)

theorem of_changed {lp : L} {act : LpUpdate L Unit} {Q : L → Prop}
    (h : ∀ lp', act lp = .ok () lp' → Q lp') : FaultsWithin F Q (changed lp act) := by
  rw [changed]
  split
  · next lp' hact => exact h lp' hact
  · trivial

theorem of_appended {lp : L} {act : Update L ℕ} {Q : ℕ × L → Prop}
    (hok : ∀ first lp', act lp = .ok first lp' → Q (first, lp'))
    (herror : ∀ e lp', act lp = .error e lp' → F e) : FaultsWithin F Q (appended lp act) := by
  rw [appended]
  split
  · next first lp' hact => exact hok first lp' hact
  · next e lp' hact => exact herror e lp' hact

theorem of_appended_eq {lp lp' : L} {act : Update L ℕ} {first : ℕ} {Q : ℕ × L → Prop}
    (h : act lp = .ok first lp') (hQ : Q (first, lp')) : FaultsWithin F Q (appended lp act) := by
  rw [appended, h]
  exact hQ

end FaultsWithin

/-! ## The steps -/

section

variable [PetriNet N] [LinearProgram L] {net : N} {marking : List Weight} {lp : L}
  {F : Fault → Prop} {Q : L → Prop}

/-- In an observable net the entries of a second row can be computed. -/
theorem Observable.exists_effects (h : Observable net) {place : PlaceId}
    (hplace : place.index < PetriNet.numPlaces net) :
    ∃ es, (List.range (PetriNet.numTransitions net)).mapM (netEffect? net place) = .ok es := by
  refine exists_mapM ?_
  intro t ht
  have ht := List.mem_range.mp ht
  obtain ⟨transition, htransition⟩ := ofIndex_of_lt .transition
    (Nat.lt_of_lt_of_le ht h.transitions_le)
  obtain rfl := Id.index_of_ofIndex htransition
  obtain ⟨out, hout⟩ := h.outWeight transition place ht hplace
  obtain ⟨into, hinto⟩ := h.inWeight transition place ht hplace
  exact ⟨_, bind_eq_ok_iff.mpr ⟨transition, htransition, bind_eq_ok_iff.mpr ⟨out, hout,
    bind_eq_ok_iff.mpr ⟨into, hinto, rfl⟩⟩⟩⟩

theorem Readable.fillColumn_within (h : Readable net) {t : ℕ}
    (ht : t < PetriNet.numTransitions net)
    (hset : ∀ col rows values lp',
      LinearProgram.setColumn col rows values lp = .ok () lp' → Q lp') :
    FaultsWithin F Q (fillColumn net lp t) := by
  obtain ⟨transition, htransition⟩ := ofIndex_of_lt .transition
    (Nat.lt_of_lt_of_le ht h.transitions_le)
  obtain ⟨pre, post, hpre, hpost⟩ :=
    h.arcs transition (Id.index_of_ofIndex htransition ▸ ht)
  have heffects : (effectColumn net transition).toExcept = .ok (mergeArcs pre post) := by
    rw [effectColumn, hpre, hpost, effects_ofList, Walk.toExcept_ofList]
  refine .observed_bind htransition (.observed_bind heffects ?_)
  exact .of_changed fun lp' => hset _ _ _ lp'

theorem boundStateRow_within {entry : Weight × ℕ} (hp : entry.2 < UInt32.size)
    (hset : ∀ row b lp', LinearProgram.setRowBound row b lp = .ok () lp' → Q lp') :
    FaultsWithin F Q (boundStateRow lp entry) := by
  obtain ⟨place, hplace⟩ := ofIndex_of_lt .place hp
  refine .observed_bind hplace ?_
  exact .of_changed fun lp' => hset _ _ lp'

theorem Observable.fillEffectRow_within (h : Observable net) {first p : ℕ}
    (hp : p < PetriNet.numPlaces net) (hsum : UInt64.size ≤ first + p → F .sumOverflow) :
    FaultsWithin F (fun _ => True) (fillEffectRow net first lp p) := by
  obtain ⟨place, hplace⟩ := ofIndex_of_lt .place (Nat.lt_of_lt_of_le hp h.places_le)
  obtain ⟨es, hes⟩ := h.exists_effects (Id.index_of_ofIndex hplace ▸ hp)
  refine .observed_bind hplace (.observed_bind hes ?_)
  refine (FaultsWithin.of_sizeSum hsum).bind fun row _ => ?_
  refine .bind (.of_changed fun _ _ => trivial) fun lp' (_ : True) => ?_
  exact .of_changed fun _ _ => trivial

/-- Once the marking covers the places, a construction starts from a blank program. -/
theorem begun_within {allocated : Option L} (hlength : marking.length = PetriNet.numPlaces net)
    (hblank : ∀ lp, allocated = some lp →
      FaultsWithin F Q (blank (PetriNet.numPlaces net) (PetriNet.numTransitions net) lp)) :
    FaultsWithin F Q (begun net marking allocated) := by
  simp only [begun, if_pos hlength]
  cases allocated with
  | none => trivial
  | some lp => exact hblank lp rfl

/-! ## The whole construction -/

/-- Where everything can be read, the steps of a construction fault only in appending rows and
columns; `Q` is what holds of the program between the two times that rows are appended. -/
theorem Readable.untimed_within (h : Readable net) {allocated : Option L}
    (hblank : ∀ lp, allocated = some lp →
      FaultsWithin F Q (blank (PetriNet.numPlaces net) (PetriNet.numTransitions net) lp))
    (hsetColumn : ∀ col rows values lp lp', Q lp →
      LinearProgram.setColumn col rows values lp = .ok () lp' → Q lp')
    (hsetRowBound : ∀ row b lp lp', Q lp →
      LinearProgram.setRowBound row b lp = .ok () lp' → Q lp')
    (hrows : ∀ lp, Q lp → FaultsWithin F
      (fun added => ∀ p < PetriNet.numPlaces net, UInt64.size ≤ added.1 + p → F .sumOverflow)
      (appended lp (LinearProgram.addRows (PetriNet.numPlaces net)))) :
    FaultsWithin F (fun _ => True) (untimed net marking allocated) := by
  by_cases hlength : marking.length = PetriNet.numPlaces net
  · refine (begun_within hlength hblank).bind fun lp hlp => ?_
    have hcolumns : FaultsWithin F Q
        ((List.range (PetriNet.numTransitions net)).foldlM (fillColumn net) lp) := by
      refine .foldlM hlp ?_
      intro t ht lp hlp
      exact h.fillColumn_within (List.mem_range.mp ht)
        fun _ _ _ lp' => hsetColumn _ _ _ lp lp' hlp
    refine hcolumns.bind fun lp hlp => ?_
    have hstateRows : FaultsWithin F Q (marking.zipIdx.foldlM boundStateRow lp) := by
      refine .foldlM hlp ?_
      intro entry hentry lp hlp
      have hp : entry.2 < PetriNet.numPlaces net := hlength ▸ List.snd_lt_of_mem_zipIdx hentry
      exact boundStateRow_within (Nat.lt_of_lt_of_le hp h.places_le)
        fun _ _ lp' => hsetRowBound _ _ lp lp' hlp
    refine hstateRows.bind fun lp hlp => ?_
    refine (hrows lp hlp).bind fun added hadded => .foldlM trivial ?_
    intro p hp lp _
    have hp := List.mem_range.mp hp
    exact h.toObservable.fillEffectRow_within hp (hadded p hp)
  · have hbegun : begun net marking allocated =
        .error (.abort (.markingLength (PetriNet.numPlaces net) marking.length)) := by
      simp only [begun, if_neg hlength]
    rw [untimed, hbegun]
    trivial

variable (L) in
/-- The faults of a backend: it faults in appending, or it numbers new rows beyond 64 bits. -/
inductive AppendFault : Fault → Prop where
  | cols (e : Fault) (count : ℕ) (lp lp' : L) (h : LinearProgram.addCols count lp = .error e lp') :
    AppendFault e
  | rows (e : Fault) (count : ℕ) (lp lp' : L) (h : LinearProgram.addRows count lp = .error e lp') :
    AppendFault e
  | numbers (count first : ℕ) (lp lp' : L) (h : LinearProgram.addRows count lp = .ok first lp')
      (hsum : UInt64.size ≤ first + count) : AppendFault .sumOverflow

/-- Twice the number of identifiers is far below what 64 bits hold. -/
theorem Observable.rows_lt (h : Observable net) :
    2 * PetriNet.numPlaces net + 1 < UInt64.size := by
  have hplaces := h.places_le
  simp only [UInt32.size, UInt64.size] at hplaces ⊢
  omega

theorem Observable.cols_lt (h : Observable net) :
    PetriNet.numTransitions net + 1 < UInt64.size := by
  have htransitions := h.transitions_le
  simp only [UInt32.size, UInt64.size] at htransitions ⊢
  omega

/-- Where everything can be read, it is the backend that faults if the steps of a construction
do. -/
theorem Readable.appendFault (h : Readable net) {allocated : Option L} {e : Fault}
    (hfault : untimed net marking allocated = .error (.fault e)) : AppendFault L e := by
  suffices FaultsWithin (AppendFault L) (fun _ => True) (untimed net marking allocated) by
    rwa [hfault] at this
  have hrows := h.rows_lt
  refine h.untimed_within (Q := fun _ => True) ?_ (fun _ _ _ _ _ _ _ => trivial)
    (fun _ _ _ _ _ _ => trivial) ?_
  · intro lp _
    refine .observed_bind (sizeSum_of_lt h.cols_lt) ?_
    refine .bind (.of_appended (fun _ _ _ => trivial) fun e lp' => .cols e _ lp lp')
      fun added (_ : True) => ?_
    refine .observed_bind (sizeSum_of_lt (by omega)) ?_
    exact .bind (.of_appended (fun _ _ _ => trivial) fun e lp' => .rows e _ added.2 lp')
      fun _ (_ : True) => trivial
  · intro lp _
    refine .of_appended ?_ fun e lp' => .rows e _ lp lp'
    intro first lp' hadd p hp hsum
    exact .numbers _ first lp lp' hadd (by omega)

/-- Where everything can be read and the backend is orderly, the steps of a construction do not
fault. -/
theorem Readable.untimed_ne_fault (h : Readable net) (hL : Orderly L) (marking : List Weight)
    (n : ℕ) (e : Fault) :
    untimed net marking (LinearProgram.create n : Option L) ≠ .error (.fault e) := by
  intro hfault
  suffices FaultsWithin (fun _ => False) (fun _ => True)
      (untimed net marking (LinearProgram.create n : Option L)) by rwa [hfault] at this
  have hrows := h.rows_lt
  have hcols := h.cols_lt
  refine h.untimed_within
    (Q := fun lp => LinearProgram.numRows lp = PetriNet.numPlaces net + 1) ?_ ?_ ?_ ?_
  · intro lp hcreate
    obtain ⟨hnumRows, hnumCols⟩ := hL.create n lp hcreate
    obtain ⟨lp₁, hadd, hnumRows₁⟩ := hL.addCols (PetriNet.numTransitions net + 1) lp (by omega)
    obtain ⟨lp₂, hadd', hnumRows₂⟩ := hL.addRows (PetriNet.numPlaces net + 1) lp₁ (by omega)
    refine .observed_bind (sizeSum_of_lt hcols) (.bind (.of_appended_eq hadd rfl) ?_)
    rintro _ rfl
    refine .observed_bind (sizeSum_of_lt (by omega)) (.bind (.of_appended_eq hadd' rfl) ?_)
    rintro _ rfl
    change LinearProgram.numRows lp₂ = _
    omega
  · intro col rows values lp lp' hlp hset
    exact (hL.setColumn _ _ _ lp lp' hset).trans hlp
  · intro row b lp lp' hlp hset
    exact (hL.setRowBound _ _ lp lp' hset).trans hlp
  · intro lp hlp
    obtain ⟨lp', hadd, -⟩ := hL.addRows (PetriNet.numPlaces net) lp (by omega)
    refine .of_appended_eq hadd ?_
    intro p hp hsum
    change UInt64.size ≤ LinearProgram.numRows lp + p at hsum
    omega

end

end PetriAnalysis
