import Mathlib.Data.List.Basic

/-!
# Transcripts

A session is a sequence of calls on a value. Each call answers, and may change the value. The
transcript of a session lists its calls with their answers.

Two facts hold of every kind of session. Calls that leave the value as it is can be left out without
any effect on the other answers. And a part of the value that only some of the calls look at or
change has a session of its own, made of these calls.

## Main definitions

* `answered` — an operation that may fail as a call that answers its failure.
* `transcript perform calls s`, `stateAfter perform calls s` — a session that begins with `s`.
* `Unmissed perform keep calls s` — the calls that are not kept could have been left out.
* `Within perform perform' part call?` — the calls that concern a part of the value.
* `PartOf perform perform' part call? record?` — the same with their answers.
-/

namespace PetriAnalysis

variable {σ σ' κ κ' α α' : Type}

/-- The answer of an operation that may fail, and the value that it leaves. -/
def answered {ε σ α : Type} : EStateM.Result ε σ α → Except ε α × σ
  | .ok a s => (.ok a, s)
  | .error e s => (.error e, s)

/-- The calls of a session with their answers. -/
def transcript (perform : κ → σ → α × σ) : List κ → σ → List (κ × α)
  | [], _ => []
  | call :: calls, s => (call, (perform call s).1) :: transcript perform calls (perform call s).2

/-- What the calls of a session leave. -/
def stateAfter (perform : κ → σ → α × σ) (calls : List κ) (s : σ) : σ :=
  calls.foldl (fun s call => (perform call s).2) s

/-- Without the calls that are not kept, the others are answered as before and leave the same. -/
def Unmissed (perform : κ → σ → α × σ) (keep : κ × α → Bool) (calls : List κ) (s : σ) : Prop :=
  let kept := (transcript perform calls s).filter keep
  transcript perform (kept.map Prod.fst) s = kept ∧
    stateAfter perform (kept.map Prod.fst) s = stateAfter perform calls s

/-- The calls that `call?` selects are calls on a part of the value, and the others leave that part
alone. -/
structure Within (perform : κ → σ → α × σ) (perform' : κ' → σ' → α' × σ') (part : σ → σ')
    (call? : κ → Option κ') : Prop where
  part_selected : ∀ call call' s, call? call = some call' →
    part (perform call s).2 = (perform' call' (part s)).2
  part_other : ∀ call s, call? call = none → part (perform call s).2 = part s

/-- The calls on a part are answered as the part alone answers them. A record of such a call is the
part's own record. -/
structure PartOf (perform : κ → σ → α × σ) (perform' : κ' → σ' → α' × σ') (part : σ → σ')
    (call? : κ → Option κ') (record? : κ × α → Option (κ' × α')) : Prop
    extends Within perform perform' part call? where
  record : ∀ call s, record? (call, (perform call s).1) =
    (call? call).map fun call' => (call', (perform' call' (part s)).1)

section

variable {perform : κ → σ → α × σ}

@[simp] theorem transcript_nil (s : σ) : transcript perform [] s = [] := rfl

@[simp] theorem transcript_cons (call : κ) (calls : List κ) (s : σ) :
    transcript perform (call :: calls) s =
      (call, (perform call s).1) :: transcript perform calls (perform call s).2 := rfl

@[simp] theorem stateAfter_nil (s : σ) : stateAfter perform [] s = s := rfl

@[simp] theorem stateAfter_cons (call : κ) (calls : List κ) (s : σ) :
    stateAfter perform (call :: calls) s = stateAfter perform calls (perform call s).2 := rfl

@[simp] theorem stateAfter_concat (calls : List κ) (call : κ) (s : σ) :
    stateAfter perform (calls ++ [call]) s = (perform call (stateAfter perform calls s)).2 := by
  simp [stateAfter]

@[simp] theorem transcript_concat (calls : List κ) (call : κ) (s : σ) :
    transcript perform (calls ++ [call]) s =
      transcript perform calls s ++ [(call, (perform call (stateAfter perform calls s)).1)] := by
  induction calls generalizing s with
  | nil => rfl
  | cons first calls ih => simp [ih]

theorem take_transcript (calls : List κ) (s : σ) (i : ℕ) :
    (transcript perform calls s).take i = transcript perform (calls.take i) s := by
  induction calls generalizing s i with
  | nil => simp
  | cons call calls ih => cases i <;> simp [ih]

/-- A call is answered in the state that the calls before it leave. -/
theorem answer_of_getElem? {calls : List κ} {s : σ} {i : ℕ} {call : κ} {a : α}
    (h : (transcript perform calls s)[i]? = some (call, a)) :
    a = (perform call (stateAfter perform (calls.take i) s)).1 := by
  induction calls generalizing s i with
  | nil => simp at h
  | cons first calls ih =>
    cases i with
    | zero =>
      simp only [transcript_cons, List.getElem?_cons_zero, Option.some.injEq, Prod.mk.injEq] at h
      simp [← h.1, ← h.2]
    | succ i =>
      rw [transcript_cons, List.getElem?_cons_succ] at h
      simpa using ih h

/-- Calls that leave no change can be left out. -/
theorem unmissed_of_idle {keep : κ × α → Bool} (hidle : ∀ call s,
    keep (call, (perform call s).1) = false → (perform call s).2 = s) (calls : List κ) (s : σ) :
    Unmissed perform keep calls s := by
  induction calls generalizing s with
  | nil => exact ⟨rfl, rfl⟩
  | cons call calls ih =>
    obtain ⟨hentries, hstate⟩ := ih (perform call s).2
    by_cases hkeep : keep (call, (perform call s).1) = true
    · simp only [Unmissed, transcript_cons, List.filter_cons_of_pos hkeep, List.map_cons,
        stateAfter_cons]
      exact ⟨congrArg _ hentries, hstate⟩
    · have hs := hidle call s (Bool.not_eq_true _ ▸ hkeep)
      simp only [Unmissed, transcript_cons, List.filter_cons_of_neg hkeep, stateAfter_cons]
      rw [hs] at hentries hstate ⊢
      exact ⟨hentries, hstate⟩

end

section

variable {perform : κ → σ → α × σ} {perform' : κ' → σ' → α' × σ'} {part : σ → σ'}
  {call? : κ → Option κ'} {record? : κ × α → Option (κ' × α')}

/-- What a session leaves of a part is what the calls on that part leave of it. -/
theorem Within.part_stateAfter (h : Within perform perform' part call?) (calls : List κ) (s : σ) :
    part (stateAfter perform calls s) =
      stateAfter perform' (calls.filterMap call?) (part s) := by
  induction calls generalizing s with
  | nil => rfl
  | cons call calls ih =>
    rw [stateAfter_cons, ih]
    cases hcall : call? call with
    | none => simp [hcall, h.part_other call s hcall]
    | some call' => simp [hcall, h.part_selected call call' s hcall]

/-- The calls on a part make a session of their own. -/
theorem PartOf.filterMap_transcript (h : PartOf perform perform' part call? record?)
    (calls : List κ) (s : σ) :
    (transcript perform calls s).filterMap record? =
      transcript perform' (calls.filterMap call?) (part s) := by
  induction calls generalizing s with
  | nil => rfl
  | cons call calls ih =>
    have hrecord := h.record call s
    cases hcall : call? call with
    | none =>
      rw [hcall, Option.map_none] at hrecord
      simp [hrecord, hcall, ih, h.part_other call s hcall]
    | some call' =>
      rw [hcall, Option.map_some] at hrecord
      simp [hrecord, hcall, ih, h.part_selected call call' s hcall]

theorem PartOf.refl : PartOf perform perform id some some where
  part_selected _ _ _ h := by
    cases h
    rfl
  part_other _ _ h := by cases h
  record _ _ := rfl

/-- A part of a part is a part. -/
theorem PartOf.trans {σ'' κ'' α'' : Type} {perform'' : κ'' → σ'' → α'' × σ''} {part' : σ' → σ''}
    {call?' : κ' → Option κ''} {record?' : κ' × α' → Option (κ'' × α'')}
    (h : PartOf perform perform' part call? record?)
    (h' : PartOf perform' perform'' part' call?' record?') :
    PartOf perform perform'' (part' ∘ part) (fun call => (call? call).bind call?')
      (fun entry => (record? entry).bind record?') where
  part_selected call call'' s hcall'' := by
    obtain ⟨call', hcall, hcall'⟩ := Option.bind_eq_some_iff.mp hcall''
    rw [Function.comp_apply, h.part_selected call call' s hcall,
      h'.part_selected call' call'' (part s) hcall']
    rfl
  part_other call s hnone := by
    cases hcall : call? call with
    | none => rw [Function.comp_apply, h.part_other call s hcall, Function.comp_apply]
    | some call' =>
      rw [hcall, Option.bind_some] at hnone
      rw [Function.comp_apply, h.part_selected call call' s hcall,
        h'.part_other call' (part s) hnone, Function.comp_apply]
  record call s := by
    rw [h.record call s]
    cases call? call with
    | none => rfl
    | some call' => exact h'.record call' (part s)

end

end PetriAnalysis
