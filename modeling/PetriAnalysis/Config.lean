import PetriAnalysis.Toml.Document

/-!
# Configuration of the time budgets

The budgets are read from a TOML document. A key that is missing stands for its default, and
keys of other names are skipped, but the document must be well-formed as a whole, and numbers
must not be beyond 128 bits anywhere.

## Main definitions

* `ReductionConfig` and its defaults.
* `ReductionConfig.ofToml`, `ReductionConfig.ofFile` — ways to read it.
* `ConfigError`, `ConfigError.message`.
-/

namespace PetriAnalysis

/-- The time budgets, in seconds. -/
structure ReductionConfig where
  /-- The budget for building (and solving) linear programs. -/
  lpTimeout : UInt32 := 10
  /-- The budget for the heuristics that start from linear programs. -/
  potencyTimeout : UInt32 := 0
  deriving DecidableEq

/-- The reasons for which a configuration is rejected. -/
inductive ConfigError where
  /-- The text is not a configuration. -/
  | malformed
  /-- The file at a path is no text. -/
  | unreadableFile (path : String)
  /-- The text of the file at a path is not a configuration. -/
  | malformedFile (path : String)
  deriving DecidableEq

/-- The wording of a rejection. -/
def ConfigError.message : ConfigError → String
  | .malformed => "Failed to parse reduction config"
  | .unreadableFile path => "Failed to read config file: " ++ path
  | .malformedFile path => "Failed to parse config file: " ++ path

/-- What is found at a path. -/
inductive ConfigFile where
  | missing
  /-- Something that cannot be read as a file. -/
  | unreadable
  /-- A file. -/
  | bytes (content : ByteArray)

namespace ReductionConfig

mutual

/-- Tells whether all integers in a value are within 128 bits. -/
def isBounded : Toml.Value → Bool
  | .integer n => -2 ^ 127 ≤ n && n < 2 ^ 128
  | .array items => itemsBounded items
  | .table _ members => membersBounded members
  | .tables elements => elementsBounded elements
  | _ => true

/-- `isBounded` for all items. -/
def itemsBounded : List Toml.Value → Bool
  | [] => true
  | item :: items => isBounded item && itemsBounded items

/-- `isBounded` for all members. -/
def membersBounded : List (List Char × Toml.Value) → Bool
  | [] => true
  | (_, value) :: members => isBounded value && membersBounded members

/-- `isBounded` for all elements. -/
def elementsBounded : List (List (List Char × Toml.Value)) → Bool
  | [] => true
  | element :: elements => membersBounded element && elementsBounded elements

end

/-- A budget: the integer of a member, or the default when there is no such member. -/
def budget? (members : Toml.Members) (key : String) (default : UInt32) : Option UInt32 :=
  match members.lookup key.toList with
  | none => some default
  | some (.integer n) => if 0 ≤ n ∧ n < UInt32.size then some (UInt32.ofNat n.toNat) else none
  | some _ => none

/-- The configuration in a document. -/
def parse? (text : String) : Option ReductionConfig := do
  let members ← Toml.parse text
  unless membersBounded members do none
  let defaults : ReductionConfig := {}
  return ⟨← budget? members "lp_timeout" defaults.lpTimeout,
    ← budget? members "potency_timeout" defaults.potencyTimeout⟩

/-- Reads a configuration from a text. -/
def ofToml (text : String) : Except ConfigError ReductionConfig :=
  match parse? text with
  | some config => .ok config
  | none => .error .malformed

/-- Reads a configuration from what is found at a path. A path at which there is nothing stands
for the defaults. -/
def ofFile (path : String) (file : ConfigFile) : Except ConfigError ReductionConfig :=
  match file with
  | .missing => .ok {}
  | .unreadable => .error (.unreadableFile path)
  | .bytes content =>
    match String.fromUTF8? content with
    | none => .error (.unreadableFile path)
    | some text =>
      match parse? text with
      | some config => .ok config
      | none => .error (.malformedFile path)

end ReductionConfig

end PetriAnalysis
