import PetriAnalysis.Proofs.Net.Outcome

/-!
# Independent transitions

What a firing answers is settled by the tokens on the places that have an arc with the transition,
and on all other places nothing changes. So transitions that have no place in common do not see
each other: whether one of them fires, and why not, is the same before and after the other, and
the two may be fired in either order.

## Main definitions

* `Net.Touches n t p` — an arc joins the transition and the place.
* `Net.Independent n t u` — no place has arcs of both transitions.
* `Net.AgreeAround n t m m₁` — the markings agree on the places of the transition.
* `SameKind outcome outcome₁` — both firings went through, or both were refused for one reason.
* `Net.Fires n m t`, `Net.FiresAll n m ts` — the firings go through.
-/

namespace PetriAnalysis

namespace Net

/-- An arc joins `t` and `p`. The cell of `pre` is the weight of an input arc or the threshold of
an inhibitor arc. -/
def Touches (n : Net) (t p : ℕ) : Prop := n.inputAt p t ≠ 0 ∨ n.outputAt p t ≠ 0

instance (n : Net) (t p : ℕ) : Decidable (n.Touches t p) := inferInstanceAs (Decidable (_ ∨ _))

/-- No place has arcs of both transitions. -/
def Independent (n : Net) (t u : ℕ) : Prop :=
  ∀ p < n.numPlaces, ¬ (n.Touches t p ∧ n.Touches u p)

instance (n : Net) (t u : ℕ) : Decidable (n.Independent t u) :=
  inferInstanceAs (Decidable (∀ p < n.numPlaces, _))

/-- The markings agree on the places that have an arc with `t`. -/
def AgreeAround (n : Net) (t : ℕ) (m m₁ : Marking) : Prop :=
  ∀ p < n.numPlaces, n.Touches t p → m₁.count p = m.count p

/-- The transition fires. -/
def Fires (n : Net) (m : Marking) (t : TransitionId) : Prop :=
  ∃ m', (n.fire m t).run = .ok (.ok m')

/-- The transitions fire one after another. -/
def FiresAll (n : Net) (m : Marking) (ts : List TransitionId) : Prop :=
  ∃ m', (n.fireAll m ts).run = .ok (.ok m')

end Net

/-- Both firings went through, or both were refused for the same reason. -/
inductive SameKind : Except FireError Marking → Except FireError Marking → Prop where
  | fired (m m₁ : Marking) : SameKind (.ok m) (.ok m₁)
  | refused (e : FireError) : SameKind (.error e) (.error e)

namespace Net

variable {n : Net} {m m₁ m' : Marking} {t u : TransitionId}

/-! ## The places of a transition -/

theorem Independent.symm {t u : ℕ} (h : n.Independent t u) : n.Independent u t := by
  intro p hp
  rw [and_comm]
  exact h p hp

theorem not_touches_iff {t p : ℕ} :
    ¬ n.Touches t p ↔ n.inputAt p t = 0 ∧ n.outputAt p t = 0 := by
  simp only [Touches, not_or, not_not]

/-- Elsewhere nothing changes. -/
theorem tokensAfter_of_not_touches {t p : ℕ} (h : ¬ n.Touches t p) :
    n.tokensAfter m t p = m.count p := by
  obtain ⟨hinput, houtput⟩ := not_touches_iff.mp h
  simp [tokensAfter, takenAt_eq_zero hinput, houtput]

namespace AgreeAround

theorem enabledAt_iff (hn : n.WellFormed) (ht : t.index < n.numTransitions)
    (h : n.AgreeAround t.index m m₁) : n.EnabledAt m₁ t.index ↔ n.EnabledAt m t.index := by
  refine forall₂_congr fun p hp => not_congr ?_
  by_cases htouch : n.Touches t.index p
  · rw [BlockedAt, BlockedAt, h p hp htouch]
  · -- The threshold of an inhibitor arc is not zero, so there is no arc at all.
    have hzero := (not_touches_iff.mp htouch).1
    exact iff_of_false (hn.not_blockedAt_of_zero hp ht hzero) (hn.not_blockedAt_of_zero hp ht hzero)

theorem overfull_eq {t : ℕ} (h : n.AgreeAround t m m₁) : n.overfull m₁ t = n.overfull m t := by
  ext p
  refine and_congr_right fun hp => ?_
  by_cases htouch : n.Touches t p
  · rw [tokensAfter, tokensAfter, h p hp htouch]
  · -- A place without an arc keeps its tokens, for which there is room.
    have hroom := m.count_lt p
    have hroom₁ := m₁.count_lt p
    rw [tokensAfter_of_not_touches htouch, tokensAfter_of_not_touches htouch]
    omega

end AgreeAround

/-- A firing leaves the places of an independent transition alone. -/
theorem WellFormed.agreeAround_fire (hn : n.WellFormed) (hsize : n.numPlaces ≤ m.size)
    (hindep : n.Independent t.index u.index) (hfire : (n.fire m t).run = .ok (.ok m₁)) :
    m₁.size = m.size ∧ n.AgreeAround u.index m m₁ := by
  obtain ⟨outcome, hfire', houtcome⟩ := hn.fire_outcome hsize t
  obtain rfl : .ok m₁ = outcome := Except.ok.inj (hfire.symm.trans hfire')
  cases houtcome with
  | fired _ _ _ _ hsame hcount _ =>
    refine ⟨hsame, ?_⟩
    intro p hp htouch
    rw [hcount p hp, tokensAfter_of_not_touches fun ht => hindep p hp ⟨ht, htouch⟩]

end Net

/-! ## Answers around a transition -/

/-- The kind of an answer is settled by whether the transition is enabled and where there is no
room. -/
theorem FiringOutcome.sameKind {n : Net} {m m₁ : Marking} {t : TransitionId}
    {outcome outcome₁ : Except FireError Marking}
    (henabled : n.EnabledAt m₁ t.index ↔ n.EnabledAt m t.index)
    (hoverfull : n.overfull m₁ t.index = n.overfull m t.index)
    (h : FiringOutcome n m t outcome) (h₁ : FiringOutcome n m₁ t outcome₁) :
    SameKind outcome outcome₁ := by
  have hlaw := h₁.law
  cases h with
  | outOfRange ht =>
    rw [hlaw.outOfRange_iff.mpr ht]
    exact .refused _
  | notEnabled ht hblocked =>
    have hblocked₁ : ∃ p < n.numPlaces, n.BlockedAt m₁ t.index p := by
      simpa [Net.EnabledAt] using mt henabled.mp hblocked
    rw [hlaw.notEnabled_iff.mpr ⟨ht, hblocked₁⟩]
    exact .refused _
  | overflow p ht henabled' hleast =>
    rw [(hlaw.overflow_iff p).mpr ⟨ht, henabled.mpr henabled', hoverfull ▸ hleast⟩]
    exact .refused _
  | fired m' ht henabled' hroom _ _ _ =>
    obtain ⟨m₁', rfl, -⟩ := hlaw.fired ht (henabled.mpr henabled') (hoverfull.trans hroom)
    exact .fired m' m₁'

namespace Net.WellFormed

variable {n : Net} {m m₁ m' : Marking} {t u : TransitionId}

/-- A firing is answered alike from markings that agree on the places of its transition. -/
theorem fire_sameKind (hn : n.WellFormed) (hsize : n.numPlaces ≤ m.size)
    (hsize₁ : n.numPlaces ≤ m₁.size) (ht : t.index < n.numTransitions)
    (h : n.AgreeAround t.index m m₁) : ∃ outcome outcome₁,
      (n.fire m t).run = .ok outcome ∧ (n.fire m₁ t).run = .ok outcome₁ ∧
        SameKind outcome outcome₁ := by
  obtain ⟨outcome, hfire, houtcome⟩ := hn.fire_outcome hsize t
  obtain ⟨outcome₁, hfire₁, houtcome₁⟩ := hn.fire_outcome hsize₁ t
  exact ⟨outcome, outcome₁, hfire, hfire₁,
    houtcome.sameKind (h.enabledAt_iff hn ht) h.overfull_eq houtcome₁⟩

/-- So it is answered alike before and after an independent transition. -/
theorem sameKind_after (hn : n.WellFormed) (hsize : n.numPlaces ≤ m.size)
    (hu : u.index < n.numTransitions) (hindep : n.Independent t.index u.index)
    (hfire : (n.fire m t).run = .ok (.ok m₁)) : ∃ outcome outcome₁,
      (n.fire m u).run = .ok outcome ∧ (n.fire m₁ u).run = .ok outcome₁ ∧
        SameKind outcome outcome₁ := by
  obtain ⟨hsame, hagree⟩ := hn.agreeAround_fire hsize hindep hfire
  exact hn.fire_sameKind hsize (hsame ▸ hsize) hu hagree

theorem fires_after_iff (hn : n.WellFormed) (hsize : n.numPlaces ≤ m.size)
    (hu : u.index < n.numTransitions) (hindep : n.Independent t.index u.index)
    (hfire : (n.fire m t).run = .ok (.ok m₁)) : n.Fires m₁ u ↔ n.Fires m u := by
  obtain ⟨outcome, outcome₁, hfire, hfire₁, hkind⟩ := hn.sameKind_after hsize hu hindep hfire
  rw [Fires, Fires, hfire, hfire₁]
  cases hkind <;> simp

end Net.WellFormed

/-! ## Both orders -/

namespace Net

variable {n : Net} {m m' : Marking} {t u : TransitionId}

theorem fireAll_pair_eq_ok_iff : (n.fireAll m [t, u]).run = .ok (.ok m') ↔
    ∃ m₁, (n.fire m t).run = .ok (.ok m₁) ∧ (n.fire m₁ u).run = .ok (.ok m') := by
  rw [fireAll, List.foldlM_cons, run_bind_eq_ok_iff]
  simp only [List.foldlM_cons, List.foldlM_nil, bind_pure]

theorem WellFormed.firesAll_pair_iff (hn : n.WellFormed) (hsize : n.numPlaces ≤ m.size)
    (hu : u.index < n.numTransitions) (hindep : n.Independent t.index u.index) :
    n.FiresAll m [t, u] ↔ n.Fires m t ∧ n.Fires m u := by
  constructor
  · rintro ⟨m', hrun⟩
    obtain ⟨m₁, hfirst, hsecond⟩ := fireAll_pair_eq_ok_iff.mp hrun
    exact ⟨⟨m₁, hfirst⟩, (hn.fires_after_iff hsize hu hindep hfirst).mp ⟨m', hsecond⟩⟩
  · rintro ⟨⟨m₁, hfirst⟩, hfires⟩
    obtain ⟨m', hsecond⟩ := (hn.fires_after_iff hsize hu hindep hfirst).mpr hfires
    exact ⟨m', fireAll_pair_eq_ok_iff.mpr ⟨m₁, hfirst, hsecond⟩⟩

/-- What two firings leave does not depend on their order. -/
theorem WellFormed.fireAll_swap (hn : n.WellFormed) (hsize : m.size = n.numPlaces)
    {m₁ m₂ : Marking} (h₁ : (n.fireAll m [t, u]).run = .ok (.ok m₁))
    (h₂ : (n.fireAll m [u, t]).run = .ok (.ok m₂)) : m₁ = m₂ := by
  obtain ⟨hsize₁, hcount₁⟩ := hn.marking_equation h₁
  obtain ⟨hsize₂, hcount₂⟩ := hn.marking_equation h₂
  refine Marking.ext_count (hsize₁.trans hsize₂.symm) ?_
  intro p hp
  rw [hsize₁, hsize] at hp
  have hswap (k : ℕ) : occurrences [t, u] k = occurrences [u, t] k :=
    (List.Perm.swap u t []).countP_eq _
  have hsame : (m₁.count p : ℤ) = m₂.count p := by
    rw [hcount₁ p hp, hcount₂ p hp]
    simp only [hswap]
  exact_mod_cast hsame

end Net

/-- Transitions that have no place in common commute. They can be fired in either order exactly if
each of them can be fired at once, and both orders end in the same marking. Whatever the firing of
one of them answers, it answers after the other as well. -/
theorem independent_firings (n : Net) (hn : n.WellFormed) (m : Marking)
    (hsize : m.size = n.numPlaces) (t u : TransitionId) (ht : t.index < n.numTransitions)
    (hu : u.index < n.numTransitions) (hindep : n.Independent t.index u.index) :
    (n.FiresAll m [t, u] ↔ n.Fires m t ∧ n.Fires m u) ∧
    (n.FiresAll m [u, t] ↔ n.Fires m t ∧ n.Fires m u) ∧
    (∀ m', (n.fireAll m [t, u]).run = .ok (.ok m') ↔ (n.fireAll m [u, t]).run = .ok (.ok m')) ∧
    ∀ m₁, (n.fire m t).run = .ok (.ok m₁) → ∃ outcome outcome₁,
      (n.fire m u).run = .ok outcome ∧ (n.fire m₁ u).run = .ok outcome₁ ∧
        SameKind outcome outcome₁ := by
  have htu := hn.firesAll_pair_iff hsize.ge hu hindep
  have hut := (hn.firesAll_pair_iff hsize.ge ht hindep.symm).trans and_comm
  refine ⟨htu, hut, ?_, fun m₁ hfire => hn.sameKind_after hsize.ge hu hindep hfire⟩
  intro m'
  constructor
  · intro hrun
    obtain ⟨m₂, hrun₂⟩ := hut.mpr (htu.mp ⟨m', hrun⟩)
    rwa [hn.fireAll_swap hsize hrun hrun₂]
  · intro hrun
    obtain ⟨m₂, hrun₂⟩ := htu.mpr (hut.mp ⟨m', hrun⟩)
    rwa [hn.fireAll_swap hsize hrun hrun₂]

/-- A mill that grinds while its brake is off, and a pump that fills a tank. -/
def mill : Net where
  places := ⟨#[⟨"grain", 2⟩, ⟨"flour", 0⟩, ⟨"brake", 0⟩, ⟨"well", 1⟩, ⟨"tank", 0⟩]⟩
  transitions := ⟨#[⟨"grind"⟩, ⟨"pump"⟩]⟩
  pre := ⟨⟨#[#[2, 0], #[0, 0], #[1, 0], #[0, 1], #[0, 0]]⟩, 2⟩
  post := ⟨⟨#[#[0, 0], #[1, 0], #[0, 0], #[0, 1], #[0, 3]]⟩, 2⟩
  inhibitor := ⟨⟨#[#[false, false], #[false, false], #[true, false], #[false, false],
    #[false, false]]⟩, 2⟩

theorem independent_firings_mill : mill.WellFormed ∧ mill.Independent 0 1 ∧
    (mill.fireAll (.ofList [2, 0, 0, 1, 4]) [⟨1⟩, ⟨0⟩]).run =
      .ok (.ok (.ofList [0, 1, 0, 1, 7])) ∧
    ¬ mill.FiresAll (.ofList [2, 0, 0, 1, 0xfffffffffffffffd]) [⟨0⟩, ⟨1⟩] ∧
    (mill.fire (.ofList [0, 1, 0, 1, 0xfffffffffffffffd]) ⟨1⟩).run =
      .ok (.error (.overflow ⟨1⟩ ⟨4⟩)) := by
  have hn : mill.WellFormed := by decide
  have hindep : mill.Independent 0 1 := by decide
  have hrun : (mill.fireAll (.ofList [2, 0, 0, 1, 4]) [⟨0⟩, ⟨1⟩]).run =
      .ok (.ok (.ofList [0, 1, 0, 1, 7])) := by cbv
  have hfull : (mill.fire (.ofList [2, 0, 0, 1, 0xfffffffffffffffd]) ⟨1⟩).run =
      .ok (.error (.overflow ⟨1⟩ ⟨4⟩)) := by cbv
  have hgrind : (mill.fire (.ofList [2, 0, 0, 1, 0xfffffffffffffffd]) ⟨0⟩).run =
      .ok (.ok (.ofList [0, 1, 0, 1, 0xfffffffffffffffd])) := by cbv
  obtain ⟨-, -, hsame, -⟩ := independent_firings mill hn (.ofList [2, 0, 0, 1, 4]) rfl ⟨0⟩ ⟨1⟩
    (by decide) (by decide) hindep
  obtain ⟨hboth, -, -, hkind⟩ := independent_firings mill hn
    (.ofList [2, 0, 0, 1, 0xfffffffffffffffd]) rfl ⟨0⟩ ⟨1⟩ (by decide) (by decide) hindep
  obtain ⟨outcome, outcome₁, hpump, hpump₁, hkind⟩ := hkind _ hgrind
  obtain rfl := Except.ok.inj (hfull.symm.trans hpump)
  refine ⟨hn, hindep, (hsame _).mp hrun, ?_, ?_⟩
  · intro hall
    obtain ⟨-, m', hfires⟩ := hboth.mp hall
    cases hfull.symm.trans hfires
  · cases hkind
    exact hpump₁

end PetriAnalysis
