/-!
# Log records

What a call reports beside its answer is a list of records. Each kind of record knows its level
and its wording; a reader of the log sees both.

## Main definitions

* `Level`, `Level.name`.
* `Record` — kinds of records.
-/

namespace PetriAnalysis

/-- The severity of a record. -/
inductive Level where
  | error
  | warn
  | info
  | debug
  deriving DecidableEq

/-- The word for a level. -/
def Level.name : Level → String
  | .error => "ERROR"
  | .warn => "WARN"
  | .info => "INFO"
  | .debug => "DEBUG"

/-- A kind of log record. -/
class Record (ρ : Type) where
  level : ρ → Level
  message : ρ → String

end PetriAnalysis
