import PetriAnalysis.Proofs.Net.Outcome

/-!
# Firing from a larger marking

An ordinary arc asks for enough tokens and an inhibitor arc for few, so more tokens keep a
transition enabled unless they lie on one of its inhibitor places. A sequence that fires from a
marking then fires from a larger one as well, and what the larger one has in excess stays as it is.
Only the room on a place may come to its end earlier.

## Main definitions

* `Net.RaisedBy n extra m m₁` — the marking `m₁` has `extra p` more tokens than `m` on place `p`.
* `Net.StopsFull n m ts` — the sequence fires up to a transition for which a place has no room.
-/

namespace PetriAnalysis

namespace Net

/-- Both markings are of the net's size, and `m₁` has `extra p` more tokens on place `p`. -/
structure RaisedBy (n : Net) (extra : ℕ → ℕ) (m m₁ : Marking) : Prop where
  size_eq : m.size = n.numPlaces
  raised_size_eq : m₁.size = n.numPlaces
  count_eq : ∀ p < n.numPlaces, m₁.count p = m.count p + extra p

/-- The sequence fires up to a transition for which a place has no room. -/
def StopsFull (n : Net) (m : Marking) (ts : List TransitionId) : Prop :=
  ∃ fired t rest reached p, ts = fired ++ t :: rest ∧ (n.fireAll m fired).run = .ok (.ok reached) ∧
    (n.fire reached t).run = .ok (.error (.overflow t p)) ∧
    (n.fireAll m ts).run = .ok (.error (.overflow t p))

variable {n : Net} {extra : ℕ → ℕ} {m m₁ m' : Marking} {t : TransitionId} {ts : List TransitionId}

theorem fireAll_cons_of_ok (h : (n.fire m t).run = .ok (.ok m')) :
    (n.fireAll m (t :: ts)).run = (n.fireAll m' ts).run := by
  rw [fireAll, List.foldlM_cons, run_bind_of_ok h, fireAll]

theorem fireAll_cons_of_error {e : FireError} (h : (n.fire m t).run = .ok (.error e)) :
    (n.fireAll m (t :: ts)).run = .ok (.error e) := by
  rw [fireAll, List.foldlM_cons, run_bind_of_error h]

theorem StopsFull.cons (hfire : (n.fire m t).run = .ok (.ok m')) (h : n.StopsFull m' ts) :
    n.StopsFull m (t :: ts) := by
  obtain ⟨fired, u, rest, reached, p, rfl, hfired, hfull, hall⟩ := h
  refine ⟨t :: fired, u, rest, reached, p, rfl, ?_, hfull, ?_⟩
  · rw [fireAll_cons_of_ok hfire, hfired]
  · rw [fireAll_cons_of_ok hfire, hall]

theorem stopsFull_of_fire {p : PlaceId} (h : (n.fire m t).run = .ok (.error (.overflow t p))) :
    n.StopsFull m (t :: ts) :=
  ⟨[], t, ts, m, p, rfl, rfl, h, fireAll_cons_of_error h⟩

/-- More tokens outside of the inhibitor places keep a transition enabled. -/
theorem RaisedBy.enabledAt (h : n.RaisedBy extra m m₁) {u : ℕ}
    (hextra : ∀ p < n.numPlaces, n.inhibitorAt p u = true → extra p = 0)
    (henabled : n.EnabledAt m u) : n.EnabledAt m₁ u := by
  intro p hp
  have hcount := h.count_eq p hp
  have hblocked := henabled p hp
  rintro (⟨hflag, hlt⟩ | ⟨hflag, hle⟩)
  · exact hblocked (.inl ⟨hflag, by omega⟩)
  · have := hextra p hp hflag
    exact hblocked (.inr ⟨hflag, by omega⟩)

/-- A firing keeps the excess, if it goes through. -/
theorem RaisedBy.fire (hn : n.WellFormed) (h : n.RaisedBy extra m m₁)
    (hextra : ∀ p < n.numPlaces, n.inhibitorAt p t.index = true → extra p = 0)
    (hfire : (n.fire m t).run = .ok (.ok m')) :
    (∃ m₁', (n.fire m₁ t).run = .ok (.ok m₁') ∧ n.RaisedBy extra m' m₁') ∨
      ∃ p, (n.fire m₁ t).run = .ok (.error (.overflow t p)) := by
  obtain ⟨outcome, hfire', houtcome⟩ := hn.fire_outcome h.size_eq.ge t
  obtain rfl : .ok m' = outcome := Except.ok.inj (hfire.symm.trans hfire')
  cases houtcome with
  | fired _ ht henabled hroom hsame hcount hrest =>
    have henabled₁ := h.enabledAt hextra henabled
    obtain ⟨outcome₁, hfire₁, houtcome₁⟩ := hn.fire_outcome h.raised_size_eq.ge t
    cases houtcome₁ with
    | outOfRange ht₁ => exact absurd ht ht₁.not_gt
    | notEnabled _ hblocked => exact absurd henabled₁ hblocked
    | overflow p _ _ _ => exact .inr ⟨p, hfire₁⟩
    | fired m₁' _ _ _ hsame₁ hcount₁ _ =>
      refine .inl ⟨m₁', hfire₁, hsame.trans h.size_eq, hsame₁.trans h.raised_size_eq, ?_⟩
      intro p hp
      have := henabled.takenAt_le hp
      rw [hcount₁ p hp, hcount p hp, tokensAfter, tokensAfter, h.count_eq p hp]
      omega

/-- A sequence of firings keeps the excess, unless a place has no room. -/
theorem RaisedBy.fireAll (hn : n.WellFormed) (h : n.RaisedBy extra m m₁)
    (hextra : ∀ t ∈ ts, ∀ p < n.numPlaces, n.inhibitorAt p t.index = true → extra p = 0)
    (hrun : (n.fireAll m ts).run = .ok (.ok m')) :
    (∃ m₁', (n.fireAll m₁ ts).run = .ok (.ok m₁') ∧ n.RaisedBy extra m' m₁') ∨
      n.StopsFull m₁ ts := by
  induction ts generalizing m m₁ with
  | nil =>
    cases hrun
    exact .inl ⟨m₁, rfl, h⟩
  | cons t ts ih =>
    obtain ⟨hextra, hextras⟩ := List.forall_mem_cons.mp hextra
    rw [Net.fireAll, List.foldlM_cons] at hrun
    obtain ⟨m₂, hfirst, hrest⟩ := run_bind_eq_ok_iff.mp hrun
    rcases h.fire hn hextra hfirst with ⟨m₃, hfire₁, h₃⟩ | ⟨p, hfull⟩
    · rcases ih h₃ hextras hrest with ⟨m₁', hrun₁, h'⟩ | hfull
      · exact .inl ⟨m₁', by rw [fireAll_cons_of_ok hfire₁, hrun₁], h'⟩
      · exact .inr (hfull.cons hfire₁)
    · exact .inr (stopsFull_of_fire hfull)

end Net

/-- A sequence that fires from `m` also fires from a larger marking that has no more tokens on the
inhibitor places of the sequence, and the excess stays; or it stops there because a place has no
room, and for no other reason. -/
theorem firing_monotone (n : Net) (hn : n.WellFormed) (m m₁ m' : Marking)
    (hsize : m.size = n.numPlaces) (hsize₁ : m₁.size = n.numPlaces)
    (hle : ∀ p < n.numPlaces, m.count p ≤ m₁.count p) (ts : List TransitionId)
    (hinhibitors : ∀ t ∈ ts, ∀ p < n.numPlaces, n.inhibitorAt p t.index = true →
      m₁.count p = m.count p)
    (hrun : (n.fireAll m ts).run = .ok (.ok m')) :
    (∃ m₁', (n.fireAll m₁ ts).run = .ok (.ok m₁') ∧ m₁'.size = n.numPlaces ∧
      ∀ p < n.numPlaces, m₁'.count p = m'.count p + (m₁.count p - m.count p)) ∨
    n.StopsFull m₁ ts := by
  have h : n.RaisedBy (fun p => m₁.count p - m.count p) m m₁ := by
    refine ⟨hsize, hsize₁, ?_⟩
    intro p hp
    have := hle p hp
    omega
  refine (h.fireAll hn ?_ hrun).imp_left ?_
  · intro t ht p hp hflag
    rw [hinhibitors t ht p hp hflag, Nat.sub_self]
  · rintro ⟨m₁', hrun₁, h'⟩
    exact ⟨m₁', hrun₁, h'.raised_size_eq, h'.count_eq⟩

theorem firing_monotone_turnstile :
    turnstile.WellFormed ∧ (turnstile.fireAll (.ofList [2, 0, 1]) [⟨0⟩, ⟨0⟩]).run =
      .ok (.ok (.ofList [0, 2, 3])) ∧
    turnstile.StopsFull (.ofList [3, 0, 0xfffffffffffffffe]) [⟨0⟩, ⟨0⟩] := by
  have hn : turnstile.WellFormed := by decide
  have hrun : (turnstile.fireAll (.ofList [2, 0, 1]) [⟨0⟩, ⟨0⟩]).run =
      .ok (.ok (.ofList [0, 2, 3])) := by cbv
  refine ⟨hn, hrun, ?_⟩
  rcases firing_monotone turnstile hn _ (.ofList [3, 0, 0xfffffffffffffffe]) _ rfl rfl (by decide)
    [⟨0⟩, ⟨0⟩] (by decide) hrun with ⟨m₁', -, -, hcount⟩ | hfull
  · have hcounter : m₁'.count 2 = 2 ^ 64 := hcount 2 (by decide)
    exact absurd (m₁'.count_lt 2) (by rw [hcounter]; decide)
  · exact hfull

end PetriAnalysis
