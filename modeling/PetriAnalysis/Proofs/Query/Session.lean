import PetriAnalysis.Proofs.Names.Trace
import PetriAnalysis.Query.Colored

/-!
# Sessions of queries

While queries are analysed, a context declares and uses names of traces between calls that look up
elements and report errors. Its trace names go through a session of their own, which the calls in
between do not disturb. The same holds of a context of a coloured net and of the ordinary context
in it.

## Main definitions

* `QueryCall`, `QueryCall.perform` — what the analysis of a query asks from a context.
* `ColoredCall`, `ColoredCall.perform` — calls on a context of a coloured net.
* `QueryCall.essential`, `ColoredCall.essential` — calls that cannot be left out.
* `TraceSession` — a session that follows the law of trace names.
-/

namespace PetriAnalysis

/-- A call on a context in the analysis of a query. -/
inductive QueryCall where
  | trace (call : TraceCall)
  | resolve (name : String) (kind : Element)
  | require (name : String) (kind : Element)
  | report (error : QueryError)
  | errors

/-- What a context answers. -/
inductive QueryAnswer where
  | trace (answer : TraceAnswer)
  | resolution (resolution : Resolution)
  | required (answer : Except QueryError UInt32)
  | reported (record : ReportedError)
  | errors (errors : List QueryError)

namespace QueryCall

/-- Makes a call on a context. A name is required from the ordinary context that belongs to it. -/
def perform {R : Type} [NameResolver R] (ordinary : R → AnalysisContext) (call : QueryCall)
    (r : R) : QueryAnswer × R :=
  match call with
  | .trace ⟨name, create⟩ =>
    (answered (NameResolver.resolveTrace name create r)).map QueryAnswer.trace id
  | .resolve name kind => (.resolution (NameResolver.resolve r name kind), r)
  | .require name kind => (.required ((ordinary r).require name kind), r)
  | .report error => (NameResolver.report error r).map QueryAnswer.reported id
  | .errors => (.errors (NameResolver.errors r), r)

/-- The call on the trace names. -/
def trace? : QueryCall → Option TraceCall
  | .trace call => some call
  | _ => none

/-- The record of a call on the trace names. -/
def traceRecord? : QueryCall × QueryAnswer → Option (TraceCall × TraceAnswer)
  | (.trace call, .trace answer) => some (call, answer)
  | _ => none

/-- Tells whether a call has neither failed nor used the name of a trace. -/
def essential : QueryCall × QueryAnswer → Bool
  | (.trace call, .trace answer) => creates (call, answer)
  | (_, .required (.error _)) => false
  | _ => true

end QueryCall

/-- A call on a context of a coloured net. -/
inductive ColoredCall where
  | addPlace (symbolic : String) (binding : UInt32) (concrete : String)
  | addTransition (symbolic concrete : String)
  | declarePlace (symbolic : String)
  | declareTransition (symbolic : String)
  | query (call : QueryCall)

namespace ColoredCall

/-- Makes a call on a context. Only queries are answered. -/
def perform (call : ColoredCall) (c : ColoredContext) : Option QueryAnswer × ColoredContext :=
  match call with
  | .addPlace symbolic binding concrete =>
    (none, ((ColoredContext.addPlace symbolic binding concrete).run c).2)
  | .addTransition symbolic concrete =>
    (none, ((ColoredContext.addTransition symbolic concrete).run c).2)
  | .declarePlace symbolic => (none, ((ColoredContext.declarePlace symbolic).run c).2)
  | .declareTransition symbolic => (none, ((ColoredContext.declareTransition symbolic).run c).2)
  | .query call => (call.perform ColoredContext.base c).map some id

/-- The call of the analysis of a query. -/
def query? : ColoredCall → Option QueryCall
  | .query call => some call
  | _ => none

/-- The record of a call of the analysis of a query. -/
def queryRecord? : ColoredCall × Option QueryAnswer → Option (QueryCall × QueryAnswer)
  | (.query call, some answer) => some (call, answer)
  | _ => none

/-- Tells whether a call has neither failed nor used the name of a trace. -/
def essential (entry : ColoredCall × Option QueryAnswer) : Bool :=
  match queryRecord? entry with
  | some record => QueryCall.essential record
  | none => true

/-- The record of a call on the trace names. -/
def traceRecord? (entry : ColoredCall × Option QueryAnswer) :
    Option (TraceCall × TraceAnswer) :=
  (queryRecord? entry).bind QueryCall.traceRecord?

end ColoredCall

/-- The trace names of a session follow the law. Any of the calls that are not essential could have
been left out. -/
structure TraceSession {σ κ α : Type} (perform : κ → σ → α × σ) (traces : σ → TraceNames)
    (record? : κ × α → Option (TraceCall × TraceAnswer)) (essential : κ × α → Bool)
    (calls : List κ) (s : σ) : Prop where
  law : TraceLaw ((transcript perform calls s).filterMap record?)
    (traces (stateAfter perform calls s))
  unmissed : ∀ keep : κ × α → Bool, (∀ entry, essential entry = true → keep entry = true) →
    Unmissed perform keep calls s

/-! ## One call -/

theorem answered_focus {ε σ τ α : Type} (part : σ → τ) (replace : σ → τ → σ)
    (act : EStateM ε τ α) (s : σ) :
    answered (focus part replace act s) =
      ((answered (act (part s))).1, replace s (answered (act (part s))).2) := by
  rw [focus]
  cases act (part s) <;> rfl

namespace QueryCall

theorem perform_trace (call : TraceCall) (c : AnalysisContext) :
    perform id (.trace call) c =
      (.trace (call.perform c.traces).1, { c with traces := (call.perform c.traces).2 }) := by
  change (answered (AnalysisContext.resolveTrace call.name call.create c)).map _ _ = _
  rw [AnalysisContext.resolveTrace, answered_focus]
  rfl

/-- The analysis of a query in the context of a coloured net takes place in the ordinary context. -/
theorem perform_base (call : QueryCall) (c : ColoredContext) :
    perform ColoredContext.base call c =
      ((perform id call c.base).1, c.withBase (perform id call c.base).2) := by
  cases call with
  | trace call =>
    change (answered (focus ColoredContext.base ColoredContext.withBase
      (AnalysisContext.resolveTrace call.name call.create) c)).map _ _ = _
    rw [answered_focus]
    rfl
  | resolve | require | report | errors => rfl

/-- A call that can be left out leaves the context as it is. -/
theorem perform_idle (call : QueryCall) (c : AnalysisContext)
    (h : essential (call, (perform id call c).1) = false) : (perform id call c).2 = c := by
  cases call with
  | trace call =>
    rw [perform_trace] at h ⊢
    rw [TraceNames.perform_idle call c.traces h]
  | resolve | require | errors => rfl
  | report => cases h

theorem partOf_traces : PartOf (perform id) TraceCall.perform AnalysisContext.traces trace?
    traceRecord? where
  part_selected := by
    intro call call' c h
    cases call with
    | trace call =>
      cases h
      rw [perform_trace]
    | resolve | require | report | errors => cases h
  part_other := by
    intro call c h
    cases call with
    | trace => cases h
    | resolve | require | report | errors => rfl
  record := by
    intro call c
    cases call with
    | trace call =>
      rw [perform_trace]
      rfl
    | resolve | require | report | errors => rfl

end QueryCall

namespace ColoredCall

/-- A query leaves the instances alone. -/
theorem perform_query (call : QueryCall) (c : ColoredContext) :
    perform (.query call) c = (some (QueryCall.perform id call c.base).1,
      c.withBase (QueryCall.perform id call c.base).2) := by
  rw [perform, QueryCall.perform_base]
  rfl

theorem perform_idle (call : ColoredCall) (c : ColoredContext)
    (h : essential (call, (perform call c).1) = false) : (perform call c).2 = c := by
  cases call with
  | query call =>
    rw [perform_query] at h ⊢
    rw [QueryCall.perform_idle call c.base h]
    rfl
  | addPlace | addTransition | declarePlace | declareTransition => cases h

theorem partOf_base : PartOf perform (QueryCall.perform id) ColoredContext.base query?
    queryRecord? where
  part_selected := by
    intro call call' c h
    cases call with
    | query call =>
      cases h
      rw [perform_query]
      rfl
    | addPlace | addTransition | declarePlace | declareTransition => cases h
  part_other := by
    intro call c h
    cases call with
    | query => cases h
    | addPlace | addTransition | declarePlace | declareTransition => rfl
  record := by
    intro call c
    cases call with
    | query call =>
      rw [perform_query]
      rfl
    | addPlace | addTransition | declarePlace | declareTransition => rfl

end ColoredCall

/-! ## Sessions -/

/-- The trace names of a value have a session of their own, which follows the law if there are no
names in the beginning. -/
theorem traceSession_of_partOf {σ κ α : Type} {perform : κ → σ → α × σ} {traces : σ → TraceNames}
    {call? : κ → Option TraceCall} {record? : κ × α → Option (TraceCall × TraceAnswer)}
    {essential : κ × α → Bool} (h : PartOf perform TraceCall.perform traces call? record?)
    (hidle : ∀ call s, essential (call, (perform call s).1) = false → (perform call s).2 = s)
    (calls : List κ) {s : σ} (hs : traces s = .empty) :
    TraceSession perform traces record? essential calls s where
  law := by
    rw [h.filterMap_transcript, h.part_stateAfter, hs]
    exact traceLaw _
  unmissed keep hkeep := by
    refine unmissed_of_idle ?_ calls s
    intro call s hcall
    refine hidle call s (Bool.eq_false_iff.mpr ?_)
    intro hessential
    exact Bool.eq_false_iff.mp hcall (hkeep _ hessential)

/-- Tables of trace names, and contexts of both kinds with whatever else is asked from them, answer
as the creations so far call for. Calls that fail and uses of names leave nothing behind. -/
theorem trace_sessions :
    (∀ calls, TraceSession TraceCall.perform id some creates calls .empty) ∧
    (∀ (c : AnalysisContext) calls, c.traces = .empty →
      TraceSession (QueryCall.perform id) AnalysisContext.traces QueryCall.traceRecord?
        QueryCall.essential calls c) ∧
    ∀ (c : ColoredContext) calls, c.base.traces = .empty →
      TraceSession ColoredCall.perform (fun c => c.base.traces) ColoredCall.traceRecord?
        ColoredCall.essential calls c := by
  refine ⟨?_, ?_, ?_⟩
  · intro calls
    exact traceSession_of_partOf .refl TraceNames.perform_idle calls rfl
  · intro c calls hc
    exact traceSession_of_partOf QueryCall.partOf_traces QueryCall.perform_idle calls hc
  · intro c calls hc
    exact traceSession_of_partOf (ColoredCall.partOf_base.trans QueryCall.partOf_traces)
      ColoredCall.perform_idle calls hc

/-- The context of a net with one place and one transition. -/
def onePlace : AnalysisContext := ⟨⟨⟨[("p", 0)]⟩⟩, ⟨⟨[("t", 0)]⟩⟩, 1, 1, .empty, []⟩

/-- A second declaration of one name is rejected, and so is the use of another before its
declaration. -/
def rejections : List QueryCall :=
  [.trace ⟨"A", true⟩, .resolve "p" .place, .trace ⟨"A", true⟩, .report (.duplicateTrace "A"),
    .trace ⟨"B", false⟩, .require "q" .place, .trace ⟨"B", true⟩, .trace ⟨"A", false⟩]

theorem trace_sessions_rejections :
    onePlace.traces = .empty ∧ (ColoredContext.uncolored onePlace).base.traces = .empty ∧
      (stateAfter (QueryCall.perform id) rejections onePlace).traces.entries =
        [("A", 0), ("B", 1)] ∧
      stateAfter ColoredCall.perform [.query (.trace ⟨"A", true⟩), .query (.resolve "p" .place),
        .query (.report (.duplicateTrace "A")), .query (.trace ⟨"B", true⟩)] (.uncolored onePlace) =
          stateAfter ColoredCall.perform (rejections.map .query) (.uncolored onePlace) := by
  have hsession := trace_sessions.2.1 onePlace rejections rfl
  have hcolored := trace_sessions.2.2 (.uncolored onePlace) (rejections.map .query) rfl
  exact ⟨rfl, rfl, hsession.law.entries_eq, (hcolored.unmissed _ fun _ h => h).2⟩

end PetriAnalysis
