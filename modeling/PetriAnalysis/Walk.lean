import PetriAnalysis.Fault

/-!
# Walks

A `Walk` is a finite sequence that is read from the front and may fault on the way: the
elements before the fault are delivered, those after it are not. A consumer that stops early
never meets a fault that lies further on. The arcs of a transition are delivered as a walk,
because a row that is too short faults only when the walk reaches it.

## Main definitions

* `Walk α`, `Walk.ofList` — sequences with and without a fault.
* `Walk.traverse`, `Walk.map`, `Walk.filter` — walks from walks.
* `Walk.toExcept`, `Walk.allM`, `Walk.foldlM` — consumers.
-/

namespace PetriAnalysis

/-- A finite sequence whose reading may end in a fault. -/
inductive Walk (α : Type) where
  | done
  | fault (e : Fault)
  | next (head : α) (rest : Walk α)
  deriving DecidableEq

namespace Walk

variable {α β γ : Type}

/-- The walk through a list, which never faults. -/
def ofList : List α → Walk α
  | [] => .done
  | a :: as => .next a (ofList as)

/-- Maps each element, and ends at the first one that faults. -/
def traverse (f : α → Except Fault β) : Walk α → Walk β
  | .done => .done
  | .fault e => .fault e
  | .next a w =>
    match f a with
    | .ok b => .next b (traverse f w)
    | .error e => .fault e

/-- Maps each element. -/
def map (f : α → β) : Walk α → Walk β
  | .done => .done
  | .fault e => .fault e
  | .next a w => .next (f a) (map f w)

/-- Keeps the elements that satisfy `p`. -/
def filter (p : α → Bool) : Walk α → Walk α
  | .done => .done
  | .fault e => .fault e
  | .next a w => if p a then .next a (filter p w) else filter p w

/-- Reads the whole walk. -/
def toExcept : Walk α → Except Fault (List α)
  | .done => .ok []
  | .fault e => .error e
  | .next a w =>
    match toExcept w with
    | .ok as => .ok (a :: as)
    | .error e => .error e

/-- Tells whether all elements satisfy `p`, and reads no further than the first that does not. -/
def allM (p : α → Except Fault Bool) : Walk α → Except Fault Bool
  | .done => .ok true
  | .fault e => .error e
  | .next a w =>
    match p a with
    | .ok true => allM p w
    | .ok false => .ok false
    | .error e => .error e

/-- Folds over the walk from its front. -/
def foldlM {m : Type → Type} [Monad m] [MonadExceptOf Fault m] (f : β → α → m β) (b : β) :
    Walk α → m β
  | .done => pure b
  | .fault e => throw e
  | .next a w => do foldlM f (← f b a) w

@[simp] theorem ofList_nil : ofList ([] : List α) = .done := rfl

@[simp] theorem ofList_cons (a : α) (as : List α) : ofList (a :: as) = .next a (ofList as) := rfl

@[simp] theorem map_ofList (f : α → β) (as : List α) : (ofList as).map f = ofList (as.map f) := by
  induction as with
  | nil => rfl
  | cons a as ih => simp [map, ih]

@[simp] theorem filter_ofList (p : α → Bool) (as : List α) :
    (ofList as).filter p = ofList (as.filter p) := by
  induction as with
  | nil => rfl
  | cons a as ih =>
    by_cases h : p a <;> simp [filter, h, ih]

@[simp] theorem toExcept_ofList (as : List α) : (ofList as).toExcept = .ok as := by
  induction as with
  | nil => rfl
  | cons a as ih => simp [toExcept, ih]

theorem foldlM_ofList {m : Type → Type} [Monad m] [MonadExceptOf Fault m] (f : β → α → m β)
    (b : β) (as : List α) : (ofList as).foldlM f b = as.foldlM f b := by
  induction as generalizing b with
  | nil => rfl
  | cons a as ih =>
    rw [ofList_cons, foldlM, List.foldlM_cons]
    exact congrArg (f b a >>= ·) (funext ih)

theorem traverse_ofList {f : α → Except Fault β} {g : α → β} {as : List α}
    (h : ∀ a ∈ as, f a = .ok (g a)) : (ofList as).traverse f = .ofList (as.map g) := by
  induction as with
  | nil => rfl
  | cons a as ih =>
    obtain ⟨ha, has⟩ := List.forall_mem_cons.mp h
    rw [ofList_cons, traverse, ha, List.map_cons, ofList_cons, ← ih has]

end Walk

end PetriAnalysis
