import PetriAnalysis.Id
import PetriAnalysis.Log

/-!
# Errors in queries

A name in a query may fail to resolve. Such an error ends that query and no other.

## Main definitions

* `QueryError`, `QueryError.message`.
* `ReportedError` — the log record of an error.
-/

namespace PetriAnalysis

/-- What is wrong with a name in a query. -/
inductive QueryError where
  /-- The trace name is declared twice. -/
  | duplicateTrace (name : String)
  /-- The trace name is used without a declaration. -/
  | undeclaredTrace (name : String)
  /-- The net has no element of that kind and name. -/
  | unresolved (name : String) (kind : Element)
  deriving DecidableEq

/-- The wording of an error. -/
def QueryError.message : QueryError → String
  | .duplicateTrace name => "Trace identifier " ++ name ++ " already existed."
  | .undeclaredTrace name =>
    "Trace identifier " ++ name ++ " does not exist, but is used as a prefix in the query."
  | .unresolved name kind =>
    "Unable to resolve identifier \"" ++ name ++ "\" as a " ++ kind.word

/-- The record of an error that was reported. -/
structure ReportedError where
  error : QueryError
  deriving DecidableEq

instance : Record ReportedError where
  level _ := .debug
  message r := "query error: " ++ r.error.message

end PetriAnalysis
