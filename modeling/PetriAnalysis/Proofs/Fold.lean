import Mathlib.Data.List.Forall2

/-!
# Folds that may fail

A construction is a fold of steps, each of which may fail. What holds after each step in turn
holds after the fold, and a fold succeeds if every step does.
-/

namespace PetriAnalysis

variable {ε α β σ : Type}

theorem bind_eq_ok_iff {x : Except ε α} {f : α → Except ε β} {b : β} :
    x >>= f = .ok b ↔ ∃ a, x = .ok a ∧ f a = .ok b := by
  cases x with
  | error e => simp [bind, Except.bind]
  | ok a => simp [bind, Except.bind]

theorem ok_bind (a : α) (f : α → Except ε β) : (Except.ok a >>= f) = f a := rfl

theorem bind_eq_error_iff {x : Except ε α} {f : α → Except ε β} {e : ε} :
    x >>= f = .error e ↔ x = .error e ∨ ∃ a, x = .ok a ∧ f a = .error e := by
  cases x with
  | error e => simp [bind, Except.bind]
  | ok a => simp [bind, Except.bind]

theorem map_eq_ok_iff {x : Except ε α} {f : α → β} {b : β} :
    x.map f = .ok b ↔ ∃ a, x = .ok a ∧ f a = b := by
  cases x with
  | error e => simp [Except.map]
  | ok a => simp [Except.map]

section

variable {f : σ → α → Except ε σ}

theorem foldlM_cons_eq_ok_iff {a : α} {as : List α} {s s' : σ} :
    (a :: as).foldlM f s = .ok s' ↔ ∃ s₁, f s a = .ok s₁ ∧ as.foldlM f s₁ = .ok s' := by
  rw [List.foldlM_cons, bind_eq_ok_iff]

/-- What the steps of a fold establish one after the other holds in the end. -/
theorem foldlM_induct (I : ℕ → σ → Prop) {l : List α} {s s' : σ} (hinit : I 0 s)
    (hstep : ∀ k a s s', l[k]? = some a → I k s → f s a = .ok s' → I (k + 1) s')
    (h : l.foldlM f s = .ok s') : I l.length s' := by
  induction l generalizing I s with
  | nil =>
    obtain rfl : s = s' := Except.ok.inj h
    exact hinit
  | cons a as ih =>
    obtain ⟨s₁, hfirst, hrest⟩ := foldlM_cons_eq_ok_iff.mp h
    refine ih (fun k => I (k + 1)) ?_ ?_ hrest
    · exact hstep 0 a s s₁ rfl hinit hfirst
    · intro k b t t' hk
      exact hstep (k + 1) b t t' hk

/-- A fold fails because one of its steps does, after steps that succeed. -/
theorem foldlM_error_induct (I : ℕ → σ → Prop) {l : List α} {s : σ} {e : ε} (hinit : I 0 s)
    (hstep : ∀ k a s s', l[k]? = some a → I k s → f s a = .ok s' → I (k + 1) s')
    (h : l.foldlM f s = .error e) : ∃ k a s, l[k]? = some a ∧ I k s ∧ f s a = .error e := by
  induction l generalizing I s with
  | nil => cases h
  | cons a as ih =>
    rw [List.foldlM_cons, bind_eq_error_iff] at h
    rcases h with h | ⟨s₁, hfirst, h⟩
    · exact ⟨0, a, s, rfl, hinit, h⟩
    · obtain ⟨k, b, t, hk, ht, hfail⟩ := ih (fun k => I (k + 1))
        (hstep 0 a s s₁ rfl hinit hfirst) (fun k b t t' hk => hstep (k + 1) b t t' hk) h
      exact ⟨k + 1, b, t, hk, ht, hfail⟩

/-- A fold fails because one of its steps does. -/
theorem exists_of_foldlM_error {l : List α} {s : σ} {e : ε} (h : l.foldlM f s = .error e) :
    ∃ s a, f s a = .error e := by
  obtain ⟨-, a, s, -, -, h⟩ := foldlM_error_induct (fun _ _ => True) trivial
    (fun _ _ _ _ _ _ _ => trivial) h
  exact ⟨s, a, h⟩

end

theorem eq_of_getElem?_range {n k a : ℕ} (h : (List.range n)[k]? = some a) : k < n ∧ a = k := by
  obtain ⟨hk, ha⟩ := List.getElem?_eq_some_iff.mp h
  rw [List.getElem_range] at ha
  exact ⟨by rwa [List.length_range] at hk, ha.symm⟩

theorem exists_of_forall₂ {R : α → β → Prop} {as : List α} {bs : List β}
    (h : List.Forall₂ R as bs) {k : ℕ} {a : α} (ha : as[k]? = some a) :
    ∃ b, bs[k]? = some b ∧ R a b := by
  induction h generalizing k with
  | nil => cases ha
  | @cons a' b as bs hab h ih =>
    cases k with
    | zero =>
      cases ha
      exact ⟨b, rfl, hab⟩
    | succ k => exact ih ha

theorem mapM_eq_ok_iff {f : α → Except ε β} {as : List α} {bs : List β} :
    as.mapM f = .ok bs ↔ List.Forall₂ (fun a b => f a = .ok b) as bs := by
  induction as generalizing bs with
  | nil =>
    rw [List.mapM_nil, List.forall₂_nil_left_iff]
    exact ⟨fun h => (Except.ok.inj h).symm, fun h => congrArg Except.ok h.symm⟩
  | cons a as ih =>
    rw [List.mapM_cons, bind_eq_ok_iff, List.forall₂_cons_left_iff]
    constructor
    · rintro ⟨b, hb, h⟩
      obtain ⟨bs', hbs', h⟩ := bind_eq_ok_iff.mp h
      exact ⟨b, bs', hb, ih.mp hbs', (Except.ok.inj h).symm⟩
    · rintro ⟨b, bs', hb, hbs', rfl⟩
      exact ⟨b, hb, bind_eq_ok_iff.mpr ⟨bs', ih.mpr hbs', rfl⟩⟩

theorem exists_mapM {f : α → Except ε β} {as : List α} (h : ∀ a ∈ as, ∃ b, f a = .ok b) :
    ∃ bs, as.mapM f = .ok bs := by
  induction as with
  | nil => exact ⟨[], rfl⟩
  | cons a as ih =>
    obtain ⟨b, hb⟩ := h a List.mem_cons_self
    obtain ⟨bs, hbs⟩ := ih fun a' ha' => h a' (List.mem_cons_of_mem a ha')
    exact ⟨b :: bs, mapM_eq_ok_iff.mpr (.cons hb (mapM_eq_ok_iff.mp hbs))⟩

end PetriAnalysis
