import PetriAnalysis.Proofs.Query.Session

/-!
# Instances along a session

What a context of a coloured net knows of a name is told by the calls that mention it: first come
the instances that were given in the beginning, then those that were added with the name, in order.
A name without instances is known if it was given or mentioned. Places and transitions do not
affect each other, and no mention affects what the ordinary context answers.

## Main definitions

* `Mention β` — what a call says about a name.
* `instancesAfter initial mentions name` — what is known of a name after mentions.
* `visitAll` — visits to names, if they are known.
* `Origin` — how a context of a coloured net begins.
* `FamiliesKept origin calls c` — a context after calls, told by the calls.
-/

namespace PetriAnalysis

/-- A name, and the instance that it gets if it gets one. -/
structure Mention (β : Type) where
  name : String
  added : Option β

section

variable {β : Type}

/-- Takes a mention down in a table. -/
def Mention.perform (mention : Mention β) (t : NameTable (List β)) : Unit × NameTable (List β) :=
  ((), t.alter mention.name [] (· ++ mention.added.toList))

/-- The instances that were added with a name, in order. -/
def addedTo (name : String) (mentions : List (Mention β)) : List β :=
  (mentions.filter fun mention => mention.name = name).filterMap Mention.added

/-- The instances of a name: those of the beginning, then those that were added with the name. A
name that was neither there nor mentioned is not known. -/
def instancesAfter (initial : NameTable (List β)) (mentions : List (Mention β)) (name : String) :
    Option (List β) :=
  if name ∈ initial.names ∨ name ∈ mentions.map Mention.name then
    some ((initial.get? name).getD [] ++ addedTo name mentions)
  else
    none

theorem addedTo_concat (name : String) (mentions : List (Mention β)) (last : Mention β) :
    addedTo name (mentions ++ [last]) =
      addedTo name mentions ++ if name = last.name then last.added.toList else [] := by
  rw [addedTo, List.filter_append, List.filterMap_append, addedTo]
  by_cases h : name = last.name
  · cases hadded : last.added <;> simp [h, hadded]
  · simp [h, Ne.symm h]

theorem instancesAfter_nil (initial : NameTable (List β)) (name : String) :
    instancesAfter initial [] name = initial.get? name := by
  cases h : initial.get? name with
  | none => simp [instancesAfter, NameTable.get?_eq_none_iff.mp h]
  | some instances =>
    have hmem : name ∈ initial.names := by
      by_contra hnot
      rw [NameTable.get?_eq_none_iff.mpr hnot] at h
      cases h
    simp [instancesAfter, addedTo, hmem, h]

/-- Nothing is held for a name that is not known. -/
theorem getD_instancesAfter (initial : NameTable (List β)) (mentions : List (Mention β))
    (name : String) :
    (instancesAfter initial mentions name).getD [] =
      (initial.get? name).getD [] ++ addedTo name mentions := by
  by_cases h : name ∈ initial.names ∨ name ∈ mentions.map Mention.name
  · rw [instancesAfter, if_pos h, Option.getD_some]
  · obtain ⟨hinitial, hmentions⟩ := not_or.mp h
    have hadded : addedTo name mentions = [] := by
      rw [addedTo, List.filter_eq_nil_iff.mpr, List.filterMap_nil]
      intro mention hmention hname
      exact hmentions (List.mem_map.mpr ⟨mention, hmention, of_decide_eq_true hname⟩)
    rw [instancesAfter, if_neg h, NameTable.get?_eq_none_iff.mpr hinitial, hadded]
    rfl

/-- A mention concerns its own name. -/
theorem instancesAfter_concat (initial : NameTable (List β)) (mentions : List (Mention β))
    (last : Mention β) (name : String) :
    instancesAfter initial (mentions ++ [last]) name =
      if name = last.name then
        some ((instancesAfter initial mentions name).getD [] ++ last.added.toList)
      else instancesAfter initial mentions name := by
  rw [getD_instancesAfter, instancesAfter, addedTo_concat]
  by_cases h : name = last.name
  · simp [h]
  · simp [h, instancesAfter]

/-- Mentions leave a table that knows the instances of every name. -/
theorem get?_stateAfter (initial : NameTable (List β)) (mentions : List (Mention β))
    (name : String) :
    (stateAfter Mention.perform mentions initial).get? name =
      instancesAfter initial mentions name := by
  induction mentions using List.reverseRecOn with
  | nil => exact (instancesAfter_nil initial name).symm
  | append_singleton mentions last ih =>
    rw [stateAfter_concat, instancesAfter_concat, Mention.perform, NameTable.get?_alter, ← ih]
    by_cases h : name = last.name
    · rw [if_pos h, if_pos h, h]
    · rw [if_neg h, if_neg h]

theorem alter_id_eq_perform (name : String) (t : NameTable (List β)) :
    t.alter name [] id = (Mention.perform ⟨name, none⟩ t).2 := by
  have hid : (id : List β → List β) = (· ++ []) := funext fun _ => (List.append_nil _).symm
  rw [hid]
  rfl

end

/-- Visits names in order, and tells whether they are known. -/
def visitAll {m : Type → Type} [Monad m] (names : Option (List String)) (visit : String → m Unit) :
    m Bool :=
  match names with
  | some names => do
    names.forM visit
    return true
  | none => return false

namespace ColoredCall

/-- What a call says about a coloured place. -/
def placeMention? : ColoredCall → Option (Mention PlaceInstance)
  | .addPlace symbolic binding concrete => some ⟨symbolic, some ⟨binding, concrete⟩⟩
  | .declarePlace symbolic => some ⟨symbolic, none⟩
  | _ => none

/-- What a call says about a coloured transition. -/
def transitionMention? : ColoredCall → Option (Mention String)
  | .addTransition symbolic concrete => some ⟨symbolic, some concrete⟩
  | .declareTransition symbolic => some ⟨symbolic, none⟩
  | _ => none

end ColoredCall

/-- How a context of a coloured net begins: for a net that was not unfolded, or with the given
instances. -/
inductive Origin where
  | uncolored
  | colored (places : NameTable (List PlaceInstance)) (transitions : NameTable (List String))

namespace Origin

/-- The context in the beginning. -/
def context (base : AnalysisContext) : Origin → ColoredContext
  | .uncolored => .uncolored base
  | .colored places transitions => .colored base places transitions

/-- The instances of places in the beginning. -/
def places : Origin → NameTable (List PlaceInstance)
  | .uncolored => .empty
  | .colored places _ => places

/-- The instances of transitions in the beginning. -/
def transitions : Origin → NameTable (List String)
  | .uncolored => .empty
  | .colored _ transitions => transitions

/-- The instances of a place after calls. -/
def placesAfter (origin : Origin) (calls : List ColoredCall) (name : String) :
    Option (List PlaceInstance) :=
  instancesAfter origin.places (calls.filterMap ColoredCall.placeMention?) name

/-- The instances of a transition after calls. -/
def transitionsAfter (origin : Origin) (calls : List ColoredCall) (name : String) :
    Option (List String) :=
  instancesAfter origin.transitions (calls.filterMap ColoredCall.transitionMention?) name

end Origin

/-- The context knows the instances that the calls have left of each family. -/
structure FamiliesKept (origin : Origin) (calls : List ColoredCall) (c : ColoredContext) :
    Prop where
  placeInstances_eq : ∀ name, c.placeInstances name = origin.placesAfter calls name
  resolvePlace_eq : ∀ (m : Type → Type) [Monad m] (name : String) (visit : String → m Unit),
    c.resolvePlace name visit =
      visitAll ((origin.placesAfter calls name).map (List.map PlaceInstance.concrete)) visit
  resolveTransition_eq : ∀ (m : Type → Type) [Monad m] (name : String) (visit : String → m Unit),
    c.resolveTransition name visit = visitAll (origin.transitionsAfter calls name) visit
  /-- Every call that is no query colours the context. -/
  isColored_iff : NameResolver.isColored c = true ↔
    origin ≠ .uncolored ∨ ∃ call ∈ calls, call.query? = none

/-! ## One call -/

namespace ColoredCall

theorem within_places : Within perform Mention.perform ColoredContext.places placeMention? where
  part_selected := by
    intro call mention c h
    cases call with
    | addPlace =>
      cases h
      rfl
    | declarePlace symbolic =>
      cases h
      exact alter_id_eq_perform symbolic c.places
    | addTransition | declareTransition | query => cases h
  part_other := by
    intro call c h
    cases call with
    | addPlace | declarePlace => cases h
    | query => rw [perform_query]; rfl
    | addTransition | declareTransition => rfl

theorem within_transitions :
    Within perform Mention.perform ColoredContext.transitions transitionMention? where
  part_selected := by
    intro call mention c h
    cases call with
    | addTransition =>
      cases h
      rfl
    | declareTransition symbolic =>
      cases h
      exact alter_id_eq_perform symbolic c.transitions
    | addPlace | declarePlace | query => cases h
  part_other := by
    intro call c h
    cases call with
    | addTransition | declareTransition => cases h
    | query => rw [perform_query]; rfl
    | addPlace | declarePlace => rfl

theorem isColored_perform (call : ColoredCall) (c : ColoredContext) :
    (perform call c).2.isColored = (c.isColored || call.query?.isNone) := by
  cases call with
  | query call =>
    rw [perform_query]
    exact (Bool.or_false _).symm
  | addPlace | addTransition | declarePlace | declareTransition => exact (Bool.or_true _).symm

end ColoredCall

/-! ## Sessions -/

theorem isColored_stateAfter (calls : List ColoredCall) (c : ColoredContext) :
    (stateAfter ColoredCall.perform calls c).isColored =
      (c.isColored || calls.any fun call => call.query?.isNone) := by
  induction calls generalizing c with
  | nil => simp
  | cons call calls ih => simp [ih, ColoredCall.isColored_perform, Bool.or_assoc]

namespace ColoredContext

variable {m : Type → Type} [Monad m]

/-- The library's lemma on visits to the values of a list needs the laws of the monad. Nothing is
reordered here, so any monad will do. -/
theorem forM_concrete (instances : List PlaceInstance) (visit : String → m Unit) :
    (instances.map PlaceInstance.concrete).forM visit =
      instances.forM fun i => visit i.concrete := by
  induction instances with
  | nil => rfl
  | cons i instances ih => exact congrArg _ (funext fun _ => ih)

theorem resolvePlace_eq_visitAll (c : ColoredContext) (name : String) (visit : String → m Unit) :
    c.resolvePlace name visit =
      visitAll ((c.placeInstances name).map (List.map PlaceInstance.concrete)) visit := by
  rw [resolvePlace, placeInstances]
  cases c.places.get? name with
  | none => rfl
  | some instances => rw [Option.map_some, visitAll, forM_concrete]

theorem resolveTransition_eq_visitAll (c : ColoredContext) (name : String)
    (visit : String → m Unit) :
    c.resolveTransition name visit = visitAll (c.transitions.get? name) visit := by
  rw [resolveTransition]
  cases c.transitions.get? name <;> rfl

end ColoredContext

theorem placeInstances_stateAfter (origin : Origin) (base : AnalysisContext)
    (calls : List ColoredCall) (name : String) :
    (stateAfter ColoredCall.perform calls (origin.context base)).placeInstances name =
      origin.placesAfter calls name := by
  rw [ColoredContext.placeInstances, ColoredCall.within_places.part_stateAfter, get?_stateAfter,
    Origin.placesAfter]
  cases origin <;> rfl

theorem get?_transitions_stateAfter (origin : Origin) (base : AnalysisContext)
    (calls : List ColoredCall) (name : String) :
    (stateAfter ColoredCall.perform calls (origin.context base)).transitions.get? name =
      origin.transitionsAfter calls name := by
  rw [ColoredCall.within_transitions.part_stateAfter, get?_stateAfter, Origin.transitionsAfter]
  cases origin <;> rfl

theorem familiesKept (origin : Origin) (base : AnalysisContext) (calls : List ColoredCall) :
    FamiliesKept origin calls (stateAfter ColoredCall.perform calls (origin.context base)) := by
  constructor
  case placeInstances_eq => exact placeInstances_stateAfter origin base calls
  case resolvePlace_eq =>
    intro m _ name visit
    rw [ColoredContext.resolvePlace_eq_visitAll, placeInstances_stateAfter]
  case resolveTransition_eq =>
    intro m _ name visit
    rw [ColoredContext.resolveTransition_eq_visitAll, get?_transitions_stateAfter]
  case isColored_iff =>
    change (stateAfter ColoredCall.perform calls (origin.context base)).isColored = true ↔ _
    rw [isColored_stateAfter, Bool.or_eq_true, List.any_eq_true]
    refine or_congr ?_ ?_
    · cases origin <;> simp [Origin.context, ColoredContext.uncolored, ColoredContext.colored]
    · simp

/-- A place that was declared is known without instances, and a transition is no place. -/
example : [
      Origin.uncolored.placesAfter [.addPlace "think" 0 "think_0", .declarePlace "fork",
        .addTransition "eat" "eat_1", .addPlace "think" 1 "think_1"] "think",
      Origin.uncolored.placesAfter [.addTransition "eat" "eat_1", .declarePlace "fork"] "fork",
      Origin.uncolored.placesAfter [.addTransition "eat" "eat_1", .declarePlace "fork"] "eat"] =
    [some [⟨0, "think_0"⟩, ⟨1, "think_1"⟩], some [], none] := by decide

/-- After any calls, a context of a coloured net knows of a name what was given in the beginning and
what the calls have added with the name, in order, and answers queries as the ordinary context in
it answers these queries alone. -/
theorem colored_sessions (base : AnalysisContext) (origin : Origin) (calls : List ColoredCall) :
    FamiliesKept origin calls (stateAfter ColoredCall.perform calls (origin.context base)) ∧
      (transcript ColoredCall.perform calls (origin.context base)).filterMap
          ColoredCall.queryRecord? =
        transcript (QueryCall.perform id) (calls.filterMap ColoredCall.query?) base ∧
      (stateAfter ColoredCall.perform calls (origin.context base)).base =
        stateAfter (QueryCall.perform id) (calls.filterMap ColoredCall.query?) base := by
  have hbase : (origin.context base).base = base := by cases origin <;> rfl
  refine ⟨familiesKept origin base calls, ?_, ?_⟩
  · rw [ColoredCall.partOf_base.filterMap_transcript, hbase]
  · rw [ColoredCall.partOf_base.part_stateAfter, hbase]

end PetriAnalysis
