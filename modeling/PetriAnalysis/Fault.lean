/-!
# Faults and updates

A call that is given an index beyond a sequence, a sum beyond the largest number of 64 bits, or
more elements or names than there are identifiers has no answer: it ends in a `Fault`. An
operation that changes a value is an `Update`, a state transformer that keeps what it had
already changed when it faults; so "a fault leaves the value as it was" is a statement about
each operation and not a consequence of its type.

## Main definitions

* `Fault`, `Fault.message` — the causes and their wording.
* `fetch`, `store` — checked access to an array.
* `sizeSum` — a checked sum.
* `focus` — an operation on a part of a value.
* `Update σ α`, `Update.whole`, `Update.inspect` — changes of a value of type `σ`.
-/

namespace PetriAnalysis

/-- A mistake of the caller that leaves a call without an answer. -/
inductive Fault where
  /-- An access at `index` in a sequence of `length` elements. -/
  | indexOutOfRange (length index : Nat)
  /-- A sum beyond the largest number of 64 bits. -/
  | sumOverflow
  /-- An element number beyond the largest identifier. -/
  | idOverflow
  /-- A position beyond the last one that can be the index of a name. -/
  | positionOverflow
  /-- A registry with so many names that no index is left. -/
  | registryFull
  deriving DecidableEq

/-- The wording of a fault. -/
def Fault.message : Fault → String
  | .indexOutOfRange length index =>
    "index out of bounds: the len is " ++ toString length ++ " but the index is " ++ toString index
  | .sumOverflow => "attempt to add with overflow"
  | .idOverflow => "assertion failed: idx <= u32::MAX as usize"
  | .positionOverflow => "assertion failed: position < u32::MAX as usize"
  | .registryFull => "assertion failed: self.names.len() < u32::MAX as usize"

variable {σ τ α : Type}

/-- The element at index `i`. -/
def fetch (xs : Array α) (i : Nat) : Except Fault α :=
  match xs[i]? with
  | some x => .ok x
  | none => .error (.indexOutOfRange xs.size i)

/-- The sequence with `x` at index `i`. -/
def store (xs : Array α) (i : Nat) (x : α) : Except Fault (Array α) :=
  if i < xs.size then .ok (xs.setIfInBounds i x) else .error (.indexOutOfRange xs.size i)

@[simp] theorem fetch_of_lt {xs : Array α} {i : Nat} (h : i < xs.size) :
    fetch xs i = .ok xs[i] := by
  simp [fetch, h]

theorem store_of_lt {xs : Array α} {i : Nat} (h : i < xs.size) (x : α) :
    store xs i x = .ok (xs.setIfInBounds i x) :=
  if_pos h

/-- The sum of two sizes, which has to be a number of 64 bits. -/
def sizeSum (a b : Nat) : Except Fault Nat :=
  if a + b < UInt64.size then .ok (a + b) else .error .sumOverflow

theorem sizeSum_of_lt {a b : Nat} (h : a + b < UInt64.size) : sizeSum a b = .ok (a + b) :=
  if_pos h

theorem sizeSum_of_le {a b : Nat} (h : UInt64.size ≤ a + b) : sizeSum a b = .error .sumOverflow :=
  if_neg (Nat.not_lt.mpr h)

theorem eq_of_sizeSum {a b n : Nat} (h : sizeSum a b = .ok n) : n = a + b := by
  rw [sizeSum] at h
  split at h
  · exact (Except.ok.inj h).symm
  · cases h

theorem lt_of_sizeSum {a b n : Nat} (h : sizeSum a b = .ok n) : a + b < UInt64.size := by
  rw [sizeSum] at h
  split at h
  · assumption
  · cases h

/-- Runs an operation on a part of a value and puts that part back, also after a failure. -/
def focus {ε : Type} (part : σ → τ) (replace : σ → τ → σ) (act : EStateM ε τ α) :
    EStateM ε σ α := fun s =>
  match act (part s) with
  | .ok a t => .ok a (replace s t)
  | .error e t => .error e (replace s t)

/-- A change of a value of type `σ` that answers an `α` or faults. -/
abbrev Update (σ α : Type) := EStateM Fault σ α

namespace Update

/-- A change that is made whole or, when it faults, not at all. -/
def whole (change : σ → Except Fault σ) : Update σ Unit := fun s =>
  match change s with
  | .ok s' => .ok () s'
  | .error e => .error e s

/-- A look at the value, which changes nothing. -/
def inspect (look : σ → Except Fault α) : Update σ α := fun s =>
  match look s with
  | .ok a => .ok a s
  | .error e => .error e s

/-- Ends with the fault of `r` or answers its value. -/
def lift (r : Except Fault α) : Update σ α :=
  inspect fun _ => r

/-- The value that a change leaves, unless it faults. -/
def left (change : Update σ α) (s : σ) : Except Fault σ :=
  match change s with
  | .ok _ s' => .ok s'
  | .error e _ => .error e

end Update

end PetriAnalysis
