import PetriAnalysis.Proofs.Lp.Bounds
import PetriAnalysis.Proofs.Lp.Entries
import PetriAnalysis.Proofs.Relaxation.Effect
import PetriAnalysis.Proofs.Relaxation.Pacing

/-!
# What a completed construction contains

The stages of a construction write disjoint parts of a sparse program: the columns of the
transitions, the bounds of the first rows, and the second rows with their bounds. So every entry
and every bound of the result is traced back to the one step that wrote it.

## Main definitions

* `ColumnOf net t es` — the effects that the arcs of a transition amount to.
* `ColumnsFilled`, `RowsBounded`, `EffectRowsFilled` — what holds after some steps of a stage.
* `Contents net marking lp` — the entries and bounds of a completed construction.
-/

namespace PetriAnalysis

open SparseLp

variable {N : Type} [PetriNet N]

/-- The effects of the transition number `t`, which is given by lists of arcs that mention no
place twice and none beyond the net. -/
structure ColumnOf (net : N) (t : ℕ) (pre post : List ArcEntry) : Prop where
  preset_eq : ∃ transition : TransitionId, Id.ofIndex t = .ok transition ∧
    PetriNet.preset net transition = .ofList pre ∧ PetriNet.postset net transition = .ofList post
  nodup : (mentioned (mergeArcs pre post)).Nodup
  lt_places : ∀ p ∈ mentioned (mergeArcs pre post), p.index < PetriNet.numPlaces net

/-- Effects as entries of a linear program. -/
def entriesOf (es : List (PlaceId × Float)) : List (ℕ × Float) :=
  es.map fun e => (e.1.lpIndex, e.2)

theorem zip_entries (es : List (PlaceId × Float)) :
    (es.map fun e => e.1.lpIndex).zip (es.map Prod.snd) = entriesOf es := by
  rw [List.zip_map']
  rfl

theorem lpIndex_injective : Function.Injective (Id.lpIndex : PlaceId → ℕ) := by
  intro p q h
  exact Id.ext_index (Nat.succ_injective h)

theorem map_lpIndex (es : List (PlaceId × Float)) :
    (es.map fun e => e.1.lpIndex) = (mentioned es).map Id.lpIndex := by
  rw [List.map_map]
  rfl

/-- A column has entries only in the rows of places. -/
theorem ColumnOf.lookup_eq_none {net : N} {t : ℕ} {pre post : List ArcEntry}
    (h : ColumnOf net t pre post) {r : ℕ} (hr : r = 0 ∨ PetriNet.numPlaces net < r) :
    (entriesOf (mergeArcs pre post)).lookup r = none := by
  rw [lookup_eq_none_iff_notMem, entriesOf, List.map_map]
  intro hmem
  obtain ⟨e, he, rfl⟩ := List.mem_map.mp hmem
  have hlt := h.lt_places e.1 (List.mem_map_of_mem he)
  have hindex : e.1.lpIndex = e.1.index + 1 := rfl
  dsimp only [Function.comp_apply] at hr
  omega

variable {net : N} {lp lp' lp₀ : SparseLp}

/-! ## The columns -/

/-- What a step of the first stage does. -/
theorem fillColumn_eq_ok {t : ℕ} (hrows : lp.numRows = PetriNet.numPlaces net + 1)
    (h : fillColumn net lp t = .ok lp') : ∃ pre post, ColumnOf net t pre post ∧
      ColumnSet lp (t + 1) ((mergeArcs pre post).map fun e => e.1.lpIndex)
        ((mergeArcs pre post).map Prod.snd) lp' := by
  obtain ⟨transition, htransition, h⟩ := bind_eq_ok_iff.mp h
  obtain ⟨es, hes, h⟩ := bind_eq_ok_iff.mp h
  obtain ⟨pre, post, hpre, hpost, rfl⟩ := lists_of_effects (observed_eq_ok_iff.mp hes)
  have htransition := observed_eq_ok_iff.mp htransition
  have hset := setColumn_eq_ok (changed_eq_ok_iff.mp h)
  have hindex : transition.lpIndex = t + 1 := congrArg (· + 1) (Id.index_of_ofIndex htransition)
  rw [hindex] at hset
  refine ⟨pre, post, ⟨⟨transition, htransition, hpre, hpost⟩, ?_, ?_⟩, hset⟩
  · have hnodup := hset.given.nodup
    rw [map_lpIndex] at hnodup
    exact hnodup.of_map
  · intro p hp
    have hlt := hset.given.lt_bound p.lpIndex (map_lpIndex _ ▸ List.mem_map_of_mem hp)
    rw [hrows] at hlt
    exact Nat.lt_of_succ_lt_succ hlt

/-- A transition whose arcs mention no place twice and none beyond the net has its column. -/
theorem ColumnOf.exists_fillColumn {t : ℕ} {pre post : List ArcEntry}
    (h : ColumnOf net t pre post) (hcol : t + 1 < lp.numCols)
    (hrows : lp.numRows = PetriNet.numPlaces net + 1) : ∃ lp', fillColumn net lp t = .ok lp' := by
  obtain ⟨⟨transition, htransition, hpre, hpost⟩, hnodup, hlt⟩ := h
  have hindex : transition.lpIndex = t + 1 := congrArg (· + 1) (Id.index_of_ofIndex htransition)
  have hgiven : WellGiven lp.numRows ((mergeArcs pre post).map fun e => e.1.lpIndex)
      ((mergeArcs pre post).map Prod.snd) := by
    refine ⟨by rw [List.length_map, List.length_map], ?_, ?_⟩
    · rw [map_lpIndex]
      exact hnodup.map lpIndex_injective
    · intro i hi
      rw [map_lpIndex] at hi
      obtain ⟨p, hp, rfl⟩ := List.mem_map.mp hi
      rw [hrows]
      exact Nat.succ_lt_succ (hlt p hp)
  obtain ⟨lp', hset⟩ := exists_setColumn hcol hgiven
  refine ⟨lp', bind_eq_ok_iff.mpr ⟨transition, observed_eq_ok_iff.mpr htransition, ?_⟩⟩
  refine bind_eq_ok_iff.mpr ⟨mergeArcs pre post, ?_, ?_⟩
  · rw [effectColumn, hpre, hpost, effects_ofList, Walk.toExcept_ofList]
    rfl
  · rw [hindex]
    exact changed_eq_ok_iff.mpr hset

/-- The first `k` transitions have their columns. -/
structure ColumnsFilled (net : N) (lp₀ : SparseLp) (k : ℕ) (lp : SparseLp) : Prop where
  numCols_eq : lp.numCols = lp₀.numCols
  colBounds_eq : lp.colBounds = lp₀.colBounds
  rowBounds_eq : lp.rowBounds = lp₀.rowBounds
  filled : ∀ t < k, ∃ pre post, ColumnOf net t pre post ∧
    ∀ r, lp.stored? r (t + 1) = (entriesOf (mergeArcs pre post)).lookup r
  rest : ∀ c, c = 0 ∨ k < c → ∀ r, lp.stored? r c = lp₀.stored? r c

theorem columnsFilled_zero (net : N) (lp₀ : SparseLp) : ColumnsFilled net lp₀ 0 lp₀ :=
  ⟨rfl, rfl, rfl, fun _ h => absurd h (Nat.not_lt_zero _), fun _ _ _ => rfl⟩

theorem ColumnsFilled.numRows_eq {k : ℕ} (h : ColumnsFilled net lp₀ k lp) :
    lp.numRows = lp₀.numRows := congrArg Array.size h.rowBounds_eq

theorem ColumnsFilled.step {k n t : ℕ} (h : ColumnsFilled net lp₀ k lp)
    (hrows : lp₀.numRows = PetriNet.numPlaces net + 1) (ht : (List.range n)[k]? = some t)
    (hfill : fillColumn net lp t = .ok lp') : ColumnsFilled net lp₀ (k + 1) lp' := by
  obtain ⟨-, rfl⟩ := eq_of_getElem?_range ht
  obtain ⟨pre, post, hcolumn, hset⟩ := fillColumn_eq_ok (h.numRows_eq.trans hrows) hfill
  have hentry := hset.stored?_eq
  rw [zip_entries] at hentry
  refine ⟨hset.numCols_eq.trans h.numCols_eq, hset.colBounds_eq.trans h.colBounds_eq,
    hset.rowBounds_eq.trans h.rowBounds_eq, ?_, ?_⟩
  · intro t ht
    rcases Nat.lt_succ_iff_lt_or_eq.mp ht with ht | rfl
    · obtain ⟨pre', post', hcolumn', hentry'⟩ := h.filled t ht
      refine ⟨pre', post', hcolumn', ?_⟩
      intro r
      rw [hentry, if_neg (by omega), hentry']
    · exact ⟨pre, post, hcolumn, fun r => by rw [hentry, if_pos rfl]⟩
  · intro c hc r
    rw [hentry, if_neg (by omega), h.rest c (by omega)]

theorem columnsFilled_run (hrows : lp₀.numRows = PetriNet.numPlaces net + 1)
    (h : (List.range (PetriNet.numTransitions net)).foldlM (fillColumn net) lp₀ = .ok lp) :
    ColumnsFilled net lp₀ (PetriNet.numTransitions net) lp := by
  have hrun := foldlM_induct (ColumnsFilled net lp₀) (columnsFilled_zero net lp₀)
    (fun _ _ _ _ ht hfilled hfill => hfilled.step hrows ht hfill) h
  rwa [List.length_range] at hrun

/-! ## The bounds of the first rows -/

/-- The first `k` places have the bounds of their first rows. -/
structure RowsBounded (marking : List Weight) (lp₀ : SparseLp) (k : ℕ) (lp : SparseLp) :
    Prop where
  columns_eq : lp.columns = lp₀.columns
  colBounds_eq : lp.colBounds = lp₀.colBounds
  numRows_eq : lp.numRows = lp₀.numRows
  bounded : ∀ p < k, ∀ w, marking[p]? = some w →
    lp.rowBound? (p + 1) = some (.lower (0 - w.toFloat))
  rest : ∀ r, r = 0 ∨ k < r → lp.rowBound? r = lp₀.rowBound? r

theorem rowsBounded_zero (marking : List Weight) (lp₀ : SparseLp) :
    RowsBounded marking lp₀ 0 lp₀ :=
  ⟨rfl, rfl, rfl, fun _ h => absurd h (Nat.not_lt_zero _), fun _ _ => rfl⟩

theorem getElem?_zipIdx_eq {marking : List Weight} {k : ℕ} {entry : Weight × ℕ}
    (h : marking.zipIdx[k]? = some entry) : marking[k]? = some entry.1 ∧ entry.2 = k := by
  rw [List.getElem?_zipIdx, Option.map_eq_some_iff] at h
  obtain ⟨w, hw, rfl⟩ := h
  exact ⟨hw, Nat.zero_add k⟩

theorem RowsBounded.step {marking : List Weight} {k : ℕ} {entry : Weight × ℕ}
    (h : RowsBounded marking lp₀ k lp) (hentry : marking.zipIdx[k]? = some entry)
    (hbound : boundStateRow lp entry = .ok lp') : RowsBounded marking lp₀ (k + 1) lp' := by
  obtain ⟨hweight, hk⟩ := getElem?_zipIdx_eq hentry
  obtain ⟨place, hplace, hbound⟩ := bind_eq_ok_iff.mp hbound
  have hindex : place.lpIndex = k + 1 :=
    congrArg (· + 1) ((Id.index_of_ofIndex (observed_eq_ok_iff.mp hplace)).trans hk)
  have hset := setRowBound_eq_ok (changed_eq_ok_iff.mp hbound)
  rw [hindex] at hset
  refine ⟨hset.columns_eq.trans h.columns_eq, hset.colBounds_eq.trans h.colBounds_eq,
    hset.numRows_eq.trans h.numRows_eq, ?_, ?_⟩
  · intro p hp w hw
    rcases Nat.lt_succ_iff_lt_or_eq.mp hp with hp | rfl
    · rw [hset.rowBound?_eq, if_neg (by omega), h.bounded p hp w hw]
    · rw [hset.rowBound?_eq, if_pos rfl]
      rw [hweight] at hw
      rw [Option.some.inj hw]
  · intro r hr
    rw [hset.rowBound?_eq, if_neg (by omega), h.rest r (by omega)]

theorem rowsBounded_run {marking : List Weight}
    (h : marking.zipIdx.foldlM boundStateRow lp₀ = .ok lp) :
    RowsBounded marking lp₀ marking.length lp := by
  have hrun := foldlM_induct (RowsBounded marking lp₀) (rowsBounded_zero marking lp₀)
    (fun _ _ _ _ hentry hbounded hbound => hbounded.step hentry hbound) h
  rwa [List.length_zipIdx] at hrun

/-- A place that has an identifier gets its bound. -/
theorem exists_boundStateRow {entry : Weight × ℕ} {place : PlaceId}
    (hplace : Id.ofIndex entry.2 = .ok place) (hrow : entry.2 + 1 < lp.numRows) :
    ∃ lp', boundStateRow lp entry = .ok lp' := by
  obtain ⟨w, p⟩ := entry
  have hindex : place.lpIndex = p + 1 := congrArg (· + 1) (Id.index_of_ofIndex hplace)
  obtain ⟨lp', hset⟩ := exists_setRowBound hrow (Bound.valid_lower (Double.toRat?_neg_toFloat w))
  refine ⟨lp', bind_eq_ok_iff.mpr ⟨place, observed_eq_ok_iff.mpr hplace, ?_⟩⟩
  rw [hindex]
  exact changed_eq_ok_iff.mpr hset

/-! ## The second rows -/

/-- The entry of the transition number `t` in the second row of the place number `p`. -/
def EffectOf (net : N) (p t : ℕ) (e : Option (ℕ × Float)) : Prop :=
  ∃ place : PlaceId, Id.ofIndex p = .ok place ∧ netEffect? net place t = .ok e

/-- An entry, if there is one, stands under the column of the transition number `t`. -/
def UnderColumn (t : ℕ) (e : Option (ℕ × Float)) : Prop :=
  ∀ x ∈ e, x.1 = t + 1

theorem EffectOf.underColumn {p t : ℕ} {e : Option (ℕ × Float)} (h : EffectOf net p t e) :
    UnderColumn t e := by
  obtain ⟨place, -, h⟩ := h
  obtain ⟨transition, htransition, h⟩ := bind_eq_ok_iff.mp h
  obtain ⟨out, -, h⟩ := bind_eq_ok_iff.mp h
  obtain ⟨into, -, h⟩ := bind_eq_ok_iff.mp h
  obtain rfl := Except.ok.inj h
  intro x hx
  split_ifs at hx
  · cases hx
  · cases hx
    exact congrArg (· + 1) (Id.index_of_ofIndex htransition)

section

variable {ts : List ℕ} {es : List (Option (ℕ × Float))}

theorem exists_of_mem_columns (h : List.Forall₂ UnderColumn ts es) :
    ∀ c ∈ (es.filterMap id).map Prod.fst, ∃ t ∈ ts, c = t + 1 := by
  induction h with
  | nil => simp
  | @cons t e ts es hkey h ih =>
    intro c hc
    cases e with
    | none =>
      obtain ⟨t', ht', heq⟩ := ih c hc
      exact ⟨t', List.mem_cons_of_mem t ht', heq⟩
    | some x =>
      rcases List.mem_cons.mp hc with rfl | hc
      · exact ⟨t, List.mem_cons_self, hkey x rfl⟩
      · obtain ⟨t', ht', heq⟩ := ih c hc
        exact ⟨t', List.mem_cons_of_mem t ht', heq⟩

theorem notMem_columns (h : List.Forall₂ UnderColumn ts es) {t : ℕ} (hnew : t ∉ ts) :
    t + 1 ∉ (es.filterMap id).map Prod.fst := by
  intro hmem
  obtain ⟨t', ht', heq⟩ := exists_of_mem_columns h _ hmem
  exact hnew (Nat.succ_injective heq ▸ ht')

theorem nodup_columns (h : List.Forall₂ UnderColumn ts es) (hnodup : ts.Nodup) :
    ((es.filterMap id).map Prod.fst).Nodup := by
  induction h with
  | nil => exact List.nodup_nil
  | @cons t e ts es hkey h ih =>
    obtain ⟨hnew, hrest⟩ := List.nodup_cons.mp hnodup
    cases e with
    | none => exact ih hrest
    | some x =>
      refine List.nodup_cons.mpr ⟨?_, ih hrest⟩
      rw [hkey x rfl]
      exact notMem_columns h hnew

/-- The entries of a row, at most one for each transition, are found under their columns. -/
theorem lookup_entries (h : List.Forall₂ UnderColumn ts es) (hnodup : ts.Nodup) {k t : ℕ}
    {e : Option (ℕ × Float)} (ht : ts[k]? = some t) (he : es[k]? = some e) :
    (es.filterMap id).lookup (t + 1) = e.map Prod.snd := by
  induction h generalizing k with
  | nil => cases ht
  | @cons t' e' ts es hkey h ih =>
    obtain ⟨hnew, hrest⟩ := List.nodup_cons.mp hnodup
    cases k with
    | zero =>
      cases ht
      cases he
      cases e with
      | none => exact lookup_eq_none_iff_notMem.mpr (notMem_columns h hnew)
      | some x =>
        obtain ⟨c, v⟩ := x
        obtain rfl : c = t + 1 := hkey (c, v) rfl
        exact List.lookup_cons_self
    | succ k =>
      rw [List.getElem?_cons_succ] at ht he
      cases e' with
      | none => exact ih hrest ht he
      | some x =>
        obtain ⟨c, v⟩ := x
        obtain rfl : c = t' + 1 := hkey (c, v) rfl
        have hne : t + 1 ≠ t' + 1 := fun heq =>
          hnew (Nat.succ_injective heq ▸ List.mem_of_getElem? ht)
        change List.lookup (t + 1) ((t' + 1, v) :: es.filterMap id) = _
        rw [List.lookup_cons, beq_false_of_ne hne]
        exact ih hrest ht he

end

/-- What a step of the last stage does. -/
theorem fillEffectRow_eq_ok {first p : ℕ}
    (h : fillEffectRow net first lp p = .ok lp') : ∃ es lp₁,
      List.Forall₂ (EffectOf net p) (List.range (PetriNet.numTransitions net)) es ∧
      RowSet lp (first + p) ((es.filterMap id).map Prod.fst) ((es.filterMap id).map Prod.snd) lp₁ ∧
      RowBoundSet lp₁ (first + p) (.lower 0) lp' := by
  obtain ⟨place, hplace, h⟩ := bind_eq_ok_iff.mp h
  obtain ⟨es, hes, h⟩ := bind_eq_ok_iff.mp h
  obtain ⟨row, hsum, h⟩ := bind_eq_ok_iff.mp h
  obtain ⟨lp₁, hrow, hbound⟩ := bind_eq_ok_iff.mp h
  obtain rfl := eq_of_sizeSum (observed_eq_ok_iff.mp hsum)
  have hplace := observed_eq_ok_iff.mp hplace
  have heffects := mapM_eq_ok_iff.mp (observed_eq_ok_iff.mp hes)
  refine ⟨es, lp₁, heffects.imp fun t e he => ⟨place, hplace, he⟩, ?_, ?_⟩
  · exact setRow_eq_ok (changed_eq_ok_iff.mp hrow)
  · exact setRowBound_eq_ok (changed_eq_ok_iff.mp hbound)

/-- A place whose arc weights can be looked up gets its second row. -/
theorem exists_fillEffectRow {first p : ℕ} {place : PlaceId} {es : List (Option (ℕ × Float))}
    (hplace : Id.ofIndex p = .ok place)
    (hes : (List.range (PetriNet.numTransitions net)).mapM (netEffect? net place) = .ok es)
    (hcols : lp.numCols = PetriNet.numTransitions net + 1) (hrow : first + p < lp.numRows)
    (hsum : first + p < UInt64.size) : ∃ lp', fillEffectRow net first lp p = .ok lp' := by
  have heffects : List.Forall₂ (EffectOf net p) (List.range (PetriNet.numTransitions net)) es :=
    (mapM_eq_ok_iff.mp hes).imp fun t e he => ⟨place, hplace, he⟩
  have hunder := heffects.imp fun t e he => he.underColumn
  have hgiven : WellGiven lp.numCols ((es.filterMap id).map Prod.fst)
      ((es.filterMap id).map Prod.snd) := by
    refine ⟨by rw [List.length_map, List.length_map], nodup_columns hunder List.nodup_range, ?_⟩
    intro c hc
    obtain ⟨t, ht, rfl⟩ := exists_of_mem_columns hunder c hc
    rw [hcols]
    exact Nat.succ_lt_succ (List.mem_range.mp ht)
  obtain ⟨lp₁, hset⟩ := exists_setRow hrow hgiven
  have hrow' : first + p < lp₁.numRows :=
    lt_of_lt_of_eq hrow (congrArg Array.size (setRow_eq_ok hset).rowBounds_eq).symm
  obtain ⟨lp', hbound⟩ := exists_setRowBound hrow' (Bound.valid_lower Double.toRat?_zero)
  exact ⟨lp', bind_eq_ok_iff.mpr ⟨place, observed_eq_ok_iff.mpr hplace,
    bind_eq_ok_iff.mpr ⟨es, observed_eq_ok_iff.mpr hes,
      bind_eq_ok_iff.mpr ⟨first + p, observed_eq_ok_iff.mpr (sizeSum_of_lt hsum),
        bind_eq_ok_iff.mpr ⟨lp₁, changed_eq_ok_iff.mpr hset, changed_eq_ok_iff.mpr hbound⟩⟩⟩⟩⟩

/-- The first `k` places have their second rows. -/
structure EffectRowsFilled (net : N) (lp₀ : SparseLp) (first k : ℕ) (lp : SparseLp) : Prop where
  numCols_eq : lp.numCols = lp₀.numCols
  colBounds_eq : lp.colBounds = lp₀.colBounds
  numRows_eq : lp.numRows = lp₀.numRows
  filled : ∀ p < k, ∀ t < PetriNet.numTransitions net, ∃ e, EffectOf net p t e ∧
    lp.stored? (first + p) (t + 1) = e.map Prod.snd
  outside : ∀ p < k, ∀ c, c = 0 ∨ PetriNet.numTransitions net < c →
    lp.stored? (first + p) c = none
  bounded : ∀ p < k, lp.rowBound? (first + p) = some (.lower 0)
  rest : ∀ r, r < first ∨ first + k ≤ r →
    lp.rowBound? r = lp₀.rowBound? r ∧ ∀ c, lp.stored? r c = lp₀.stored? r c

theorem effectRowsFilled_zero (net : N) (lp₀ : SparseLp) (first : ℕ) :
    EffectRowsFilled net lp₀ first 0 lp₀ :=
  ⟨rfl, rfl, rfl, fun _ h => absurd h (Nat.not_lt_zero _), fun _ h => absurd h (Nat.not_lt_zero _),
    fun _ h => absurd h (Nat.not_lt_zero _), fun _ _ => ⟨rfl, fun _ => rfl⟩⟩

theorem stored?_congr {lp lp' : SparseLp} (h : lp'.columns = lp.columns) (r c : ℕ) :
    lp'.stored? r c = lp.stored? r c := by
  simp only [stored?]
  rw [h]

theorem rowBound?_congr {lp lp' : SparseLp} (h : lp'.rowBounds = lp.rowBounds) (r : ℕ) :
    lp'.rowBound? r = lp.rowBound? r := by
  simp only [rowBound?]
  rw [h]

theorem EffectRowsFilled.step {first k n p : ℕ} (h : EffectRowsFilled net lp₀ first k lp)
    (hp : (List.range n)[k]? = some p) (hfill : fillEffectRow net first lp p = .ok lp') :
    EffectRowsFilled net lp₀ first (k + 1) lp' := by
  obtain rfl := (eq_of_getElem?_range hp).2.symm
  obtain ⟨es, lp₁, heffects, hrow, hbound⟩ := fillEffectRow_eq_ok hfill
  have hunder := heffects.imp fun t e he => he.underColumn
  have hentry (r c : ℕ) : lp'.stored? r c =
      if r = first + k then (es.filterMap id).lookup c else lp.stored? r c := by
    rw [stored?_congr hbound.columns_eq, hrow.stored?_eq, List.zip_map']
    simp
  have hrowBound (r : ℕ) : lp'.rowBound? r =
      if r = first + k then some (.lower 0) else lp.rowBound? r := by
    rw [hbound.rowBound?_eq, rowBound?_congr hrow.rowBounds_eq]
  refine ⟨?_, ?_, ?_, ?_, ?_, ?_, ?_⟩
  · calc lp'.numCols = lp₁.numCols := congrArg Array.size hbound.columns_eq
      _ = lp.numCols := hrow.numCols_eq
      _ = lp₀.numCols := h.numCols_eq
  · rw [hbound.colBounds_eq, hrow.colBounds_eq, h.colBounds_eq]
  · calc lp'.numRows = lp₁.numRows := hbound.numRows_eq
      _ = lp.numRows := congrArg Array.size hrow.rowBounds_eq
      _ = lp₀.numRows := h.numRows_eq
  · intro p hp t ht
    rcases Nat.lt_succ_iff_lt_or_eq.mp hp with hp | rfl
    · obtain ⟨e, he, hvalue⟩ := h.filled p hp t ht
      exact ⟨e, he, by rw [hentry, if_neg (by omega), hvalue]⟩
    · obtain ⟨e, he, heffect⟩ := exists_of_forall₂ heffects (List.getElem?_range ht)
      refine ⟨e, heffect, ?_⟩
      rw [hentry, if_pos rfl, lookup_entries hunder List.nodup_range (List.getElem?_range ht) he]
  · intro p hp c hc
    rcases Nat.lt_succ_iff_lt_or_eq.mp hp with hp | rfl
    · rw [hentry, if_neg (by omega), h.outside p hp c hc]
    · rw [hentry, if_pos rfl, lookup_eq_none_iff_notMem]
      intro hmem
      obtain ⟨t, ht, rfl⟩ := exists_of_mem_columns hunder c hmem
      have := List.mem_range.mp ht
      omega
  · intro p hp
    rcases Nat.lt_succ_iff_lt_or_eq.mp hp with hp | rfl
    · rw [hrowBound, if_neg (by omega), h.bounded p hp]
    · rw [hrowBound, if_pos rfl]
  · intro r hr
    have hne : r ≠ first + k := by omega
    obtain ⟨hbefore, hentries⟩ := h.rest r (by omega)
    refine ⟨by rw [hrowBound, if_neg hne, hbefore], fun c => by rw [hentry, if_neg hne, hentries]⟩

theorem effectRowsFilled_run {first n : ℕ}
    (h : (List.range n).foldlM (fillEffectRow net first) lp₀ = .ok lp) :
    EffectRowsFilled net lp₀ first n lp := by
  have hrun := foldlM_induct (EffectRowsFilled net lp₀ first) (effectRowsFilled_zero net lp₀ first)
    (fun _ _ _ _ hp hfilled hfill => hfilled.step hp hfill) h
  rwa [List.length_range] at hrun

/-! ## The whole construction -/

/-- A program with further columns. -/
def withCols (lp : SparseLp) (count : ℕ) : SparseLp :=
  { lp with
    columns := lp.columns ++ Array.replicate count ∅
    colBounds := lp.colBounds ++ Array.replicate count (.lower 0) }

/-- A program with further rows. -/
def withRows (lp : SparseLp) (count : ℕ) : SparseLp :=
  { lp with rowBounds := lp.rowBounds ++ Array.replicate count .free }

theorem eq_of_addCols {count first : ℕ} (hsize : lp.colBounds.size = lp.numCols)
    (h : LinearProgram.addCols count lp = .ok first lp') : lp' = withCols lp count := by
  change addCols count lp = _ at h
  rcases Nat.lt_or_ge (lp.numCols + count) UInt64.size with hlt | hle
  · rw [addCols_of_lt hsize hlt] at h
    exact (EStateM.Result.ok.inj h).2.symm
  · rw [addCols_of_le hle] at h
    cases h

theorem eq_of_addRows {count first : ℕ} (h : LinearProgram.addRows count lp = .ok first lp') :
    first = lp.numRows ∧ lp' = withRows lp count := by
  change addRows count lp = _ at h
  rcases Nat.lt_or_ge (lp.numRows + count) UInt64.size with hlt | hle
  · rw [addRows_of_lt hlt] at h
    obtain ⟨rfl, rfl⟩ := EStateM.Result.ok.inj h
    exact ⟨rfl, rfl⟩
  · rw [addRows_of_le hle] at h
    cases h

@[simp] theorem numRows_withRows (lp : SparseLp) (count : ℕ) :
    (withRows lp count).numRows = lp.numRows + count := by
  simp [withRows, numRows]

@[simp] theorem stored?_withRows (lp : SparseLp) (count r c : ℕ) :
    (withRows lp count).stored? r c = lp.stored? r c := rfl

theorem rowBound?_withRows (lp : SparseLp) (count : ℕ) {r : ℕ} (hr : r < lp.numRows) :
    (withRows lp count).rowBound? r = lp.rowBound? r :=
  Array.getElem?_append_left hr

/-- The program with the rows and columns that the first two stages fill. -/
def blankProgram (places transitions : ℕ) : SparseLp :=
  withRows (withCols .empty (transitions + 1)) (places + 1)

/-- The program that the stages start from. -/
theorem eq_of_begun {marking : List Weight} (h : begun net marking (some .empty) = .ok lp) :
    lp = blankProgram (PetriNet.numPlaces net) (PetriNet.numTransitions net) := by
  have hlength := length_of_begun h
  rw [begun, if_pos hlength] at h
  obtain ⟨cols, hcols, h⟩ := bind_eq_ok_iff.mp h
  obtain ⟨⟨first, lp₁⟩, hadd, h⟩ := bind_eq_ok_iff.mp h
  obtain ⟨rows, hrows, h⟩ := bind_eq_ok_iff.mp h
  obtain ⟨⟨first', lp₂⟩, hadd', h⟩ := bind_eq_ok_iff.mp h
  obtain rfl := eq_of_sizeSum (observed_eq_ok_iff.mp hcols)
  obtain rfl := eq_of_addCols rfl (appended_eq_ok_iff.mp hadd)
  obtain rfl := eq_of_sizeSum (observed_eq_ok_iff.mp hrows)
  obtain ⟨-, rfl⟩ := eq_of_addRows (appended_eq_ok_iff.mp hadd')
  exact (Except.ok.inj h).symm

/-- A blank program has free rows, and columns without entries. -/
structure Blank (places transitions : ℕ) (lp : SparseLp) : Prop where
  numCols_eq : lp.numCols = transitions + 1
  numRows_eq : lp.numRows = places + 1
  stored?_eq : ∀ r c, lp.stored? r c = none
  colBound?_eq : ∀ c ≤ transitions, lp.colBound? c = some (.lower 0)
  rowBound?_eq : ∀ r ≤ places, lp.rowBound? r = some .free

theorem blank_spec (places transitions : ℕ) :
    Blank places transitions (blankProgram places transitions) := by
  have hblank : blankProgram places transitions =
      ⟨#[] ++ Array.replicate (transitions + 1) ∅,
        #[] ++ Array.replicate (transitions + 1) (.lower 0),
        #[] ++ Array.replicate (places + 1) .free⟩ := rfl
  simp only [Array.empty_append] at hblank
  rw [hblank]
  refine ⟨by simp [numCols], by simp [numRows], ?_, ?_, ?_⟩
  · intro r c
    rw [stored?, Array.getElem?_replicate]
    split_ifs
    · exact Std.ExtTreeMap.getElem?_empty
    · rfl
  · intro c hc
    rw [colBound?, Array.getElem?_replicate, if_pos (Nat.lt_succ_of_le hc)]
  · intro r hr
    rw [rowBound?, Array.getElem?_replicate, if_pos (Nat.lt_succ_of_le hr)]

/-- The programs after the stages of a completed construction. -/
structure Stages (net : N) (marking : List Weight) (lp₁ lp₂ lp : SparseLp) : Prop where
  covered : marking.length = PetriNet.numPlaces net
  columns : ColumnsFilled net
    (blankProgram (PetriNet.numPlaces net) (PetriNet.numTransitions net))
    (PetriNet.numTransitions net) lp₁
  rows : RowsBounded marking lp₁ (PetriNet.numPlaces net) lp₂
  effects : EffectRowsFilled net (withRows lp₂ (PetriNet.numPlaces net))
    (PetriNet.numPlaces net + 1) (PetriNet.numPlaces net) lp

theorem exists_stages {marking : List Weight} (h : untimed net marking (some .empty) = .ok lp) :
    ∃ lp₁ lp₂, Stages net marking lp₁ lp₂ lp := by
  obtain ⟨lp₀, hbegun, hrest⟩ := bind_eq_ok_iff.mp h
  obtain rfl := eq_of_begun hbegun
  obtain ⟨lp₁, hcolumns, hrest'⟩ := bind_eq_ok_iff.mp hrest
  obtain ⟨lp₂, hrows, heffects⟩ := bind_eq_ok_iff.mp hrest'
  obtain ⟨⟨first, lp₃⟩, hadd, heffects⟩ := bind_eq_ok_iff.mp heffects
  obtain ⟨rfl, rfl⟩ := eq_of_addRows (appended_eq_ok_iff.mp hadd)
  have hlength := length_of_begun hbegun
  have hblank := blank_spec (PetriNet.numPlaces net) (PetriNet.numTransitions net)
  have hfirst := columnsFilled_run hblank.numRows_eq hcolumns
  have hsecond := rowsBounded_run hrows
  have hrun := effectRowsFilled_run heffects
  rw [hsecond.numRows_eq, hfirst.numRows_eq, hblank.numRows_eq] at hrun
  exact ⟨lp₁, lp₂, hlength, hfirst, hlength ▸ hsecond, hrun⟩

section

variable {marking : List Weight} {lp₁ lp₂ : SparseLp}

theorem Stages.numCols_eq (h : Stages net marking lp₁ lp₂ lp) :
    lp.numCols = PetriNet.numTransitions net + 1 := calc
  lp.numCols = lp₂.numCols := h.effects.numCols_eq
  _ = lp₁.numCols := congrArg Array.size h.rows.columns_eq
  _ = PetriNet.numTransitions net + 1 := h.columns.numCols_eq.trans (blank_spec _ _).numCols_eq

theorem Stages.numRows_second (h : Stages net marking lp₁ lp₂ lp) :
    lp₂.numRows = PetriNet.numPlaces net + 1 := by
  rw [h.rows.numRows_eq, h.columns.numRows_eq, (blank_spec _ _).numRows_eq]

theorem Stages.numRows_eq (h : Stages net marking lp₁ lp₂ lp) :
    lp.numRows = 2 * PetriNet.numPlaces net + 1 := by
  rw [h.effects.numRows_eq, numRows_withRows, h.numRows_second]
  omega

theorem Stages.colBounds_eq (h : Stages net marking lp₁ lp₂ lp) : lp.colBounds =
    (blankProgram (PetriNet.numPlaces net) (PetriNet.numTransitions net)).colBounds := calc
  lp.colBounds = lp₂.colBounds := h.effects.colBounds_eq
  _ = lp₁.colBounds := h.rows.colBounds_eq
  _ = _ := h.columns.colBounds_eq

/-- The last stage leaves the first rows as they are. -/
theorem Stages.rowBound?_eq (h : Stages net marking lp₁ lp₂ lp) {r : ℕ}
    (hr : r < PetriNet.numPlaces net + 1) : lp.rowBound? r = lp₂.rowBound? r := by
  rw [(h.effects.rest r (Or.inl hr)).1, rowBound?_withRows lp₂ _ (h.numRows_second ▸ hr)]

/-- Outside the second rows the entries are those of the columns. -/
theorem Stages.stored?_eq (h : Stages net marking lp₁ lp₂ lp) {r : ℕ}
    (hr : r < PetriNet.numPlaces net + 1 ∨ 2 * PetriNet.numPlaces net < r) (c : ℕ) :
    lp.stored? r c = lp₁.stored? r c := by
  rw [(h.effects.rest r (by omega)).2, stored?_withRows, stored?_congr h.rows.columns_eq]

theorem Stages.outside (h : Stages net marking lp₁ lp₂ lp) {r c : ℕ}
    (hrc : c = 0 ∨ PetriNet.numTransitions net < c ∨ 2 * PetriNet.numPlaces net < r) :
    lp.stored? r c = none := by
  by_cases hblock : r < PetriNet.numPlaces net + 1 ∨ 2 * PetriNet.numPlaces net < r
  · rw [h.stored?_eq hblock c]
    by_cases hc : c = 0 ∨ PetriNet.numTransitions net < c
    · rw [h.columns.rest c hc, (blank_spec _ _).stored?_eq]
    · obtain ⟨t, rfl⟩ : ∃ t, c = t + 1 := Nat.exists_eq_succ_of_ne_zero (by omega)
      obtain ⟨pre, post, hcolumn, hvalues⟩ := h.columns.filled t (by omega)
      rw [hvalues, hcolumn.lookup_eq_none (by omega)]
  · have hrow := h.effects.outside (r - (PetriNet.numPlaces net + 1)) (by omega) c (by omega)
    rwa [Nat.add_sub_cancel' (by omega)] at hrow

end

/-- The entries and bounds of a completed construction. -/
structure Contents (net : N) (marking : List Weight) (lp : SparseLp) : Prop where
  covered : marking.length = PetriNet.numPlaces net
  numCols_eq : lp.numCols = PetriNet.numTransitions net + 1
  numRows_eq : lp.numRows = 2 * PetriNet.numPlaces net + 1
  colBound : ∀ c ≤ PetriNet.numTransitions net, lp.colBound? c = some (.lower 0)
  freeRow : lp.rowBound? 0 = some .free
  stateBound : ∀ (p : ℕ) (w : Weight), marking[p]? = some w →
    lp.rowBound? (p + 1) = some (.lower (0 - w.toFloat))
  effectBound : ∀ p < PetriNet.numPlaces net,
    lp.rowBound? (PetriNet.numPlaces net + 1 + p) = some (.lower 0)
  stateEntry : ∀ t < PetriNet.numTransitions net, ∃ pre post, ColumnOf net t pre post ∧
    ∀ r ≤ PetriNet.numPlaces net,
      lp.stored? r (t + 1) = (entriesOf (mergeArcs pre post)).lookup r
  effectEntry : ∀ p < PetriNet.numPlaces net, ∀ t < PetriNet.numTransitions net,
    ∃ e, EffectOf net p t e ∧
      lp.stored? (PetriNet.numPlaces net + 1 + p) (t + 1) = e.map Prod.snd
  outside : ∀ r c, c = 0 ∨ PetriNet.numTransitions net < c ∨ 2 * PetriNet.numPlaces net < r →
    lp.stored? r c = none

theorem contents_of_untimed {marking : List Weight}
    (h : untimed net marking (some .empty) = .ok lp) : Contents net marking lp := by
  obtain ⟨lp₁, lp₂, hstages⟩ := exists_stages h
  have hblank := blank_spec (PetriNet.numPlaces net) (PetriNet.numTransitions net)
  constructor
  case covered => exact hstages.covered
  case numCols_eq => exact hstages.numCols_eq
  case numRows_eq => exact hstages.numRows_eq
  case colBound =>
    intro c hc
    rw [← hblank.colBound?_eq c hc, colBound?, hstages.colBounds_eq]
    rfl
  case freeRow =>
    rw [hstages.rowBound?_eq (by omega), hstages.rows.rest 0 (Or.inl rfl),
      rowBound?_congr hstages.columns.rowBounds_eq, hblank.rowBound?_eq 0 (by omega)]
  case stateBound =>
    intro p w hw
    have hp : p < PetriNet.numPlaces net :=
      hstages.covered ▸ (List.getElem?_eq_some_iff.mp hw).1
    rw [hstages.rowBound?_eq (by omega), hstages.rows.bounded p hp w hw]
  case effectBound => exact hstages.effects.bounded
  case stateEntry =>
    intro t ht
    obtain ⟨pre, post, hcolumn, hvalues⟩ := hstages.columns.filled t ht
    refine ⟨pre, post, hcolumn, ?_⟩
    intro r hr
    rw [hstages.stored?_eq (by omega), hvalues]
  case effectEntry => exact hstages.effects.filled
  case outside =>
    intro r c hrc
    exact hstages.outside hrc

end PetriAnalysis
