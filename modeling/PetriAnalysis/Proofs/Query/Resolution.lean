import PetriAnalysis.Proofs.Names.Positions
import PetriAnalysis.Proofs.Net.WellFormed
import PetriAnalysis.Proofs.Relaxation.Columns
import PetriAnalysis.Query.Context

/-!
# Names of the elements of a net

In the context of a net each name resolves to the first element of its kind that has it. Repeated
names move no index: the later elements keep their numbers, the counts are those of the net, and
each repetition leads to one warning. So a name that resolves to `i` belongs to row `i + 1`, or to
column `i + 1`, of the base program.

## Main definitions

* `Net.names` — the names of a kind, by position.
* `FirstAt names name i` — the position where a name occurs first.
* `NamesResolved net c` — what a context answers about the names of a net.
* `NamesLabel net c marking lp` — resolved names as rows and columns of a base program.
-/

namespace PetriAnalysis

namespace Net

/-- The names of the elements of a kind, by position. -/
def names (net : Net) : Element → List String
  | .place => net.places.toList.map Place.name
  | .transition => net.transitions.toList.map Transition.name

/-- The number of elements of a kind. -/
def numOf (net : Net) : Element → ℕ
  | .place => PetriNet.numPlaces net
  | .transition => PetriNet.numTransitions net

/-- The name of an element. -/
def nameOf (net : Net) : (kind : Element) → Id kind → Except Fault String
  | .place => PetriNet.placeName net
  | .transition => PetriNet.transitionName net

end Net

/-- The name occurs at this position, and nowhere before it. -/
def FirstAt (names : List String) (name : String) (i : ℕ) : Prop :=
  names[i]? = some name ∧ ∀ j < i, names[j]? ≠ some name

instance (names : List String) (name : String) (i : ℕ) : Decidable (FirstAt names name i) :=
  inferInstanceAs (Decidable (_ ∧ _))

theorem idxOf?_eq_some_iff_firstAt {names : List String} {name : String} {i : ℕ} :
    names.idxOf? name = some i ↔ FirstAt names name i := by
  rw [List.idxOf?_eq_some_iff, FirstAt]
  constructor
  · rintro ⟨hi, hname, hfirst⟩
    refine ⟨List.getElem?_eq_some_iff.mpr ⟨hi, hname⟩, ?_⟩
    intro j hj h
    exact hfirst j hj (List.getElem?_eq_some_iff.mp h).2
  · rintro ⟨hname, hfirst⟩
    obtain ⟨hi, hname⟩ := List.getElem?_eq_some_iff.mp hname
    refine ⟨hi, hname, ?_⟩
    intro j hj h
    exact hfirst j hj (List.getElem?_eq_some_iff.mpr ⟨Nat.lt_trans hj hi, h⟩)

/-! ## Looking up names -/

theorem Resolution.found_inj {i j : UInt32} : found i = found j ↔ i = j := by
  simp [found, UInt32.toNat_inj]

theorem Resolution.found_ne_notFound (i : UInt32) : found i ≠ notFound := by
  simp [found, notFound]

namespace AnalysisContext

variable {c : AnalysisContext} {name : String} {kind : Element} {i : UInt32}

theorem resolve_eq_found_iff :
    c.resolve name kind = .found i ↔ (c.namesOf kind).get? name = some i := by
  rw [resolve]
  cases (c.namesOf kind).get? name with
  | some index => simp [Resolution.found_inj]
  | none => simp [(Resolution.found_ne_notFound i).symm]

theorem resolve_eq_notFound_iff :
    c.resolve name kind = .notFound ↔ (c.namesOf kind).get? name = none := by
  rw [resolve]
  cases (c.namesOf kind).get? name with
  | some index => simp [Resolution.found_ne_notFound]
  | none => simp

/-- A result tells the number of the name. -/
theorem index?_resolve (c : AnalysisContext) (name : String) (kind : Element) :
    (c.resolve name kind).index? = (c.namesOf kind).get? name := by
  rw [resolve]
  cases (c.namesOf kind).get? name with
  | some index => exact Resolution.index?_found index
  | none => rfl

end AnalysisContext

/-! ## The context of a net -/

theorem traverse_of_forall₂ {α β : Type} {f : α → Except Fault β} {as : List α} {bs : List β}
    (h : List.Forall₂ (fun a b => f a = .ok b) as bs) :
    (Walk.ofList as).traverse f = .ofList bs := by
  induction h with
  | nil => rfl
  | cons hab h ih => rw [Walk.ofList_cons, Walk.traverse, hab, ih, Walk.ofList_cons]

namespace Net

variable {net : Net} {kind : Element} {name : String}

theorem length_names (net : Net) (kind : Element) : (net.names kind).length = net.numOf kind := by
  cases kind <;> exact List.length_map _

theorem nameOf_eq_ok {e : Id kind} (h : (net.names kind)[e.index]? = some name) :
    net.nameOf kind e = .ok name := by
  cases kind with
  | place =>
    rw [names, List.getElem?_map, Option.map_eq_some_iff] at h
    obtain ⟨place, hplace, rfl⟩ := h
    have hget : net.places.get e = .ok place :=
      fetch_eq_ok_iff.mpr (Array.getElem?_toList.symm.trans hplace)
    exact congrArg (Except.map Place.name) hget
  | transition =>
    rw [names, List.getElem?_map, Option.map_eq_some_iff] at h
    obtain ⟨transition, htransition, rfl⟩ := h
    have hget : net.transitions.get e = .ok transition :=
      fetch_eq_ok_iff.mpr (Array.getElem?_toList.symm.trans htransition)
    exact congrArg (Except.map Transition.name) hget

/-- All names of a kind can be read if its elements have identifiers. -/
theorem walk_nameOf (h : net.numOf kind ≤ UInt32.size) :
    ((Walk.ofList (List.range (net.numOf kind))).traverse fun i => do
      net.nameOf kind (← Id.ofIndex i)) = .ofList (net.names kind) := by
  refine traverse_of_forall₂ (List.forall₂_iff_get.mpr ⟨?_, ?_⟩)
  · rw [List.length_range, length_names]
  · intro i hrange hi
    have hsize : i < UInt32.size := Nat.lt_of_lt_of_le (by rwa [length_names] at hi) h
    rw [List.get_eq_getElem, List.get_eq_getElem, List.getElem_range, ofIndex_eq_idAt hsize,
      ok_bind]
    exact nameOf_eq_ok (by rw [index_idAt _ hsize, List.getElem?_eq_getElem hi])

theorem ofNet_eq (h : ∀ kind, net.numOf kind ≤ UInt32.size) :
    AnalysisContext.ofNet net =
      AnalysisContext.ofNames (.ofList (net.names .place)) (.ofList (net.names .transition)) :=
  congrArg₂ AnalysisContext.ofNames (walk_nameOf (h .place)) (walk_nameOf (h .transition))

end Net

/-- The context resolves the names of the net to the elements that have them first. -/
structure NamesResolved (net : Net) (c : AnalysisContext) : Prop where
  found_iff : ∀ kind name (i : UInt32),
    c.resolve name kind = .found i ↔ FirstAt (net.names kind) name i.toNat
  notFound_iff : ∀ kind name, c.resolve name kind = .notFound ↔ name ∉ net.names kind
  /-- A name that is found is the name of the element with the number found. -/
  nameOf : ∀ kind name i, c.resolve name kind = .found i → net.nameOf kind ⟨i⟩ = .ok name
  index?_iff : ∀ kind name i,
    (c.resolve name kind).index? = some i ↔ c.resolve name kind = .found i
  require_ok_iff : ∀ kind name i, c.require name kind = .ok i ↔ c.resolve name kind = .found i
  require_error_iff : ∀ kind name e, c.require name kind = .error e ↔
    c.resolve name kind = .notFound ∧ e = .unresolved name kind
  placeCount_eq : c.placeCount = PetriNet.numPlaces net
  transitionCount_eq : c.transitionCount = PetriNet.numTransitions net

/-- A resolved name belongs to the row or the column of the base program after the one with its
number. -/
structure NamesLabel (net : Net) (c : AnalysisContext) (marking : List Weight) (lp : SparseLp) :
    Prop where
  /-- The row of a place is bounded by what the place holds. -/
  row : ∀ name (i : UInt32) w, c.resolve name .place = .found i → marking[i.toNat]? = some w →
    lp.rowBound? (i.toNat + 1) = some (.lower (0 - w.toFloat))
  /-- The column of a transition has an entry in the row of a place if an arc connects the two, and
  this is what the transition gives to the place minus what it takes. -/
  entry : ∀ place transition (i j : UInt32), c.resolve place .place = .found i →
    c.resolve transition .transition = .found j →
    ∃ (p : PlaceId) (t : TransitionId) (pre post : List ArcEntry),
      net.nameOf .place p = .ok place ∧ p.lpIndex = i.toNat + 1 ∧
      net.nameOf .transition t = .ok transition ∧ t.lpIndex = j.toNat + 1 ∧
      PetriNet.preset net t = .ofList pre ∧ PetriNet.postset net t = .ofList post ∧
      lp.stored? (i.toNat + 1) (j.toNat + 1) =
        if p ∈ placesOf pre ∨ p ∈ placesOf post then some (netAmount pre post p) else none

section

variable {net : Net}

/-- What a net without too many elements resolves. -/
theorem Net.exists_namesResolved (h : ∀ kind, net.numOf kind < UInt32.size) :
    ∃ c, AnalysisContext.ofNet net =
        .ok (c, repetitions (net.names .place) ++ repetitions (net.names .transition)) ∧
      NamesResolved net c := by
  have hlength (kind : Element) : (net.names kind).length < UInt32.size :=
    net.length_names kind ▸ h kind
  obtain ⟨places, hplaces, hplacesOf⟩ := NameRegistry.exists_positional (hlength .place)
  obtain ⟨transitions, htransitions, htransitionsOf⟩ :=
    NameRegistry.exists_positional (hlength .transition)
  generalize hc : (⟨places.registry, transitions.registry, places.count, transitions.count,
    .empty, []⟩ : AnalysisContext) = c
  have hget (kind : Element) (name : String) :
      (c.namesOf kind).number? name = (net.names kind).idxOf? name := by
    rw [← hc]
    cases kind with
    | place => exact hplacesOf.number?_eq name
    | transition => exact htransitionsOf.number?_eq name
  have hfound (kind : Element) (name : String) (i : UInt32) :
      c.resolve name kind = .found i ↔ FirstAt (net.names kind) name i.toNat := by
    rw [AnalysisContext.resolve_eq_found_iff, ← NameRegistry.number?_eq_some_iff, hget,
      idxOf?_eq_some_iff_firstAt]
  refine ⟨c, ?_, ?_⟩
  · rw [Net.ofNet_eq fun kind => Nat.le_of_lt (h kind), AnalysisContext.ofNames, hplaces, ok_bind,
      htransitions, ok_bind, hplacesOf.warnings_eq, htransitionsOf.warnings_eq, hc]
    rfl
  constructor
  case found_iff => exact hfound
  case notFound_iff =>
    intro kind name
    rw [AnalysisContext.resolve_eq_notFound_iff, ← NameRegistry.number?_eq_none_iff, hget,
      List.idxOf?_eq_none_iff]
  case nameOf =>
    intro kind name i hi
    exact nameOf_eq_ok ((hfound kind name i).mp hi).1
  case index?_iff =>
    intro kind name i
    rw [AnalysisContext.index?_resolve, AnalysisContext.resolve_eq_found_iff]
  case require_ok_iff =>
    intro kind name i
    rw [AnalysisContext.resolve_eq_found_iff, AnalysisContext.require,
      AnalysisContext.index?_resolve]
    cases (c.namesOf kind).get? name <;> simp
  case require_error_iff =>
    intro kind name e
    rw [AnalysisContext.resolve_eq_notFound_iff, AnalysisContext.require,
      AnalysisContext.index?_resolve]
    cases (c.namesOf kind).get? name <;> simp [eq_comm]
  case placeCount_eq =>
    rw [← hc]
    exact hplacesOf.count_eq.trans (net.length_names .place)
  case transitionCount_eq =>
    rw [← hc]
    exact htransitionsOf.count_eq.trans (net.length_names .transition)

/-- The number that a name resolves to is that of an element of the net. -/
theorem NamesResolved.lt_numOf {c : AnalysisContext} (h : NamesResolved net c) {kind : Element}
    {name : String} {i : UInt32} (hi : c.resolve name kind = .found i) :
    i.toNat < net.numOf kind := by
  obtain ⟨hname, -⟩ := (h.found_iff kind name i).mp hi
  exact net.length_names kind ▸ (List.getElem?_eq_some_iff.mp hname).1

theorem NamesResolved.namesLabel {c : AnalysisContext} (h : NamesResolved net c)
    {marking : List Weight} {lp : SparseLp} (hlp : Answered net marking lp) :
    NamesLabel net c marking lp := by
  have hcontents := contents_of_untimed (answered_iff_untimed.mp hlp)
  refine ⟨fun name i w _ hw => hcontents.stateBound i.toNat w hw, ?_⟩
  intro place transition i j hplace htransition
  obtain ⟨pre, post, harcs⟩ := hcontents.encodesArcs (h.lt_numOf htransition)
  obtain ⟨t, ht, hpre, hpost⟩ := harcs.arcs
  obtain rfl : ⟨j⟩ = t := Except.ok.inj ((Id.ofIndex_index ⟨j⟩).symm.trans ht)
  exact ⟨⟨i⟩, ⟨j⟩, pre, post, h.nameOf .place place i hplace, rfl,
    h.nameOf .transition transition j htransition, rfl, hpre, hpost,
    harcs.stored?_eq ⟨i⟩ (h.lt_numOf hplace)⟩

/-- In the context of a net a name resolves to the first element of its kind that has it, the counts
are those of the net, and each position with a repeated name is warned about. Resolved names label
the rows and columns of every base program of the net. -/
theorem names_resolve (net : Net) (hplaces : PetriNet.numPlaces net < UInt32.size)
    (htransitions : PetriNet.numTransitions net < UInt32.size) :
    ∃ c, AnalysisContext.ofNet net =
        .ok (c, repetitions (net.names .place) ++ repetitions (net.names .transition)) ∧
      NamesResolved net c ∧
      ∀ marking lp, Answered net marking lp → NamesLabel net c marking lp := by
  have hsize (kind : Element) : net.numOf kind < UInt32.size := by
    cases kind
    · exact hplaces
    · exact htransitions
  obtain ⟨c, hc, hresolved⟩ := Net.exists_namesResolved hsize
  exact ⟨c, hc, hresolved, fun marking lp hlp => hresolved.namesLabel hlp⟩

/-- Two of the four places have one name, and a transition has it too. -/
def twins : Net where
  places := ⟨#[⟨"a", 0⟩, ⟨"b", 1⟩, ⟨"a", 2⟩, ⟨"c", 3⟩]⟩
  transitions := ⟨#[⟨"t"⟩, ⟨"a"⟩, ⟨"t"⟩]⟩
  pre := .filled 4 3 0
  post := .filled 4 3 0
  inhibitor := .filled 4 3 false

theorem names_resolve_twins : PetriNet.numPlaces twins < UInt32.size ∧
    PetriNet.numTransitions twins < UInt32.size ∧
    ∃ c, AnalysisContext.ofNet twins = .ok (c, [⟨"a", 2⟩, ⟨"t", 2⟩]) ∧
      c.resolve "c" .place = .found 3 ∧ c.resolve "a" .transition = .found 1 ∧
      c.require "b" .transition = .error (.unresolved "b" .transition) ∧ c.placeCount = 4 ∧
      ∃ lp : SparseLp, Answered twins [0, 1, 2, 3] lp ∧
        lp.rowBound? 4 = some (.lower (0 - (3 : Weight).toFloat)) := by
  have hplaces : PetriNet.numPlaces twins < UInt32.size := by decide
  have htransitions : PetriNet.numTransitions twins < UInt32.size := by decide
  obtain ⟨c, hc, hresolved, hlabel⟩ := names_resolve twins hplaces htransitions
  have hfound : c.resolve "c" .place = .found 3 :=
    (hresolved.found_iff .place "c" 3).mpr (by decide)
  refine ⟨hplaces, htransitions, c, hc, hfound, ?_, ?_, hresolved.placeCount_eq, ?_⟩
  · exact (hresolved.found_iff .transition "a" 1).mpr (by decide)
  · refine (hresolved.require_error_iff .transition "b" _).mpr ⟨?_, rfl⟩
    exact (hresolved.notFound_iff .transition "b").mpr (by decide)
  · have hn : twins.WellFormed := by decide
    obtain ⟨lp, huntimed⟩ : ∃ lp, untimed twins [0, 1, 2, 3] (some SparseLp.empty) = .ok lp :=
      hn.sortedArcs.encodable.exists_untimed hn.observable rfl
    have hanswered := answered_iff_untimed.mpr huntimed
    exact ⟨lp, hanswered, (hlabel _ lp hanswered).row "c" 3 3 hfound rfl⟩

end

end PetriAnalysis
