import Mathlib.Data.Nat.Find
import PetriAnalysis.Proofs.Fold
import PetriAnalysis.Relaxation.Build

/-!
# The construction and its clock

The steps of a construction read no clock, so what they make is settled by the net, the marking and
the program that is allocated. A construction looks at the budget between its steps; at the first
look that finds it expired the construction ends, and if there is none it ends as the steps do.

## Main definitions

* `untimed net marking allocated` — what the steps make.
* `Build.paced budget outcome polls` — a row of looks at the budget, and then the outcome.
* `polls net marking allocated` — the looks of a construction; `allPolls` if it is completed.
* `Clock.reading c k`, `Clock.after c k` — the reading number `k`, and the clock before it.
* `FirstExpired budget c k` — the reading number `k` is the first that finds the budget expired.
-/

namespace PetriAnalysis

/-- A look at the budget: the stage, and the number of its steps taken before. -/
abbrev Poll := Stage × ℕ

variable {N L C α β : Type}

/-! ## Readings -/

section

variable [Clock C]

/-- The clock after `k` readings. -/
def Clock.after (c : C) : ℕ → C
  | 0 => c
  | k + 1 => Clock.after ((Clock.elapsed : StateM C Duration) c).2 k

/-- The reading number `k`, counted from zero. -/
def Clock.reading (c : C) (k : ℕ) : Duration :=
  ((Clock.elapsed : StateM C Duration) (Clock.after c k)).1

theorem Clock.after_after (c : C) (i k : ℕ) :
    Clock.after (Clock.after c i) k = Clock.after c (i + k) := by
  induction i generalizing c with
  | zero => rw [Clock.after, Nat.zero_add]
  | succ i ih => rw [Clock.after, ih, Nat.add_right_comm, Clock.after]

theorem Clock.reading_after (c : C) (i k : ℕ) :
    Clock.reading (Clock.after c i) k = Clock.reading c (i + k) := by
  rw [Clock.reading, Clock.after_after, Clock.reading]

/-- The budget has been used up. -/
def Expired (budget : UInt32) (d : Duration) : Prop := budget.toNat ≤ d.seconds

instance (budget : UInt32) (d : Duration) : Decidable (Expired budget d) :=
  inferInstanceAs (Decidable (_ ≤ _))

/-- The reading number `k` is the first one that finds the budget expired. -/
structure FirstExpired (budget : UInt32) (c : C) (k : ℕ) : Prop where
  expired : Expired budget (Clock.reading c k)
  before : ∀ j < k, ¬ Expired budget (Clock.reading c j)

/-- A stopped clock never uses up a second. -/
theorem not_expired_stopped (k : ℕ) : ¬ Expired 1 (Clock.reading StoppedClock.stopped k) := by
  simp [Expired, Clock.reading, Clock.elapsed, Duration.seconds]

theorem checkpoint_of_expired {budget : UInt32} (stage : Stage) (done : ℕ) {c : C}
    (h : Expired budget (Clock.reading c 0)) :
    Build.checkpoint budget stage done c =
      .error (.abort (.expired stage done)) (Clock.after c 1) := by
  change (if Expired budget (Clock.reading c 0) then throw _ else pure () : Build C Unit)
    (Clock.after c 1) = _
  rw [if_pos h]
  rfl

theorem checkpoint_of_not_expired {budget : UInt32} (stage : Stage) (done : ℕ) {c : C}
    (h : ¬ Expired budget (Clock.reading c 0)) :
    Build.checkpoint budget stage done c = .ok () (Clock.after c 1) := by
  change (if Expired budget (Clock.reading c 0) then throw _ else pure () : Build C Unit)
    (Clock.after c 1) = _
  rw [if_neg h]
  rfl

end

/-! ## Looks at the budget -/

namespace Build

theorem bind_of_ok {act : Build C α} {k : α → Build C β} {c c' : C} {a : α}
    (h : act c = .ok a c') : (act >>= k) c = k a c' := by
  change EStateM.bind act k c = _
  rw [EStateM.bind, h]

theorem bind_of_error {act : Build C α} {k : α → Build C β} {c c' : C} {e : BuildError}
    (h : act c = .error e c') : (act >>= k) c = .error e c' := by
  change EStateM.bind act k c = _
  rw [EStateM.bind, h]

section

variable [Clock C] (budget : UInt32) (outcome : Except BuildError β)

/-- Looks at the budget once for each element of a list, and then ends with `outcome`. -/
def paced : List Poll → Build C β
  | [] => ofExcept outcome
  | (stage, done) :: polls => do
    checkpoint budget stage done
    paced polls

/-- If the budget is never found expired, the outcome is reached. -/
theorem paced_of_not_expired {polls : List Poll} {c : C}
    (h : ∀ k < polls.length, ¬ Expired budget (Clock.reading c k)) :
    paced budget outcome polls c = ofExcept outcome (Clock.after c polls.length) := by
  induction polls generalizing c with
  | nil => rfl
  | cons poll polls ih =>
    have hfirst := checkpoint_of_not_expired poll.1 poll.2
      (h 0 (Nat.succ_pos _))
    rw [paced, bind_of_ok hfirst]
    exact ih fun k hk => h (k + 1) (Nat.succ_lt_succ hk)

/-- The first look that finds the budget expired ends the construction. -/
theorem paced_of_expired {polls : List Poll} {poll : Poll} {c : C} {k : ℕ}
    (hpoll : polls[k]? = some poll) (h : FirstExpired budget c k) :
    paced budget outcome polls c =
      .error (.abort (.expired poll.1 poll.2)) (Clock.after c (k + 1)) := by
  induction polls generalizing c k with
  | nil => cases hpoll
  | cons first polls ih =>
    cases k with
    | zero =>
      cases hpoll
      have hfirst := checkpoint_of_expired poll.1 poll.2 h.expired
      rw [paced, bind_of_error hfirst]
    | succ k =>
      have hfirst := checkpoint_of_not_expired first.1 first.2 (h.before 0 (Nat.succ_pos _))
      rw [paced, bind_of_ok hfirst]
      exact ih (c := Clock.after c 1) hpoll
        ⟨h.expired, fun j hj => h.before (j + 1) (Nat.succ_lt_succ hj)⟩

end

/-- The looks of one stage, followed by those of the rest of the construction. A step that fails
ends both. -/
def stagePolls (stage : Stage) (step : L → α → Except BuildError L) (rest : L → List Poll) :
    ℕ → L → List α → List Poll
  | _, lp, [] => rest lp
  | done, lp, a :: as =>
    match step lp a with
    | .ok lp => (stage, done + 1) :: stagePolls stage step rest (done + 1) lp as
    | .error _ => []

/-- A stage whose steps succeed looks at the budget after each of them. -/
theorem stagePolls_of_ok (stage : Stage) {step : L → α → Except BuildError L}
    (rest : L → List Poll) {lp lp' : L} {as : List α} (h : as.foldlM step lp = .ok lp') (done : ℕ) :
    stagePolls stage step rest done lp as =
      (List.range' (done + 1) as.length).map (fun k => (stage, k)) ++ rest lp' := by
  induction as generalizing done lp with
  | nil =>
    obtain rfl : lp = lp' := Except.ok.inj h
    rfl
  | cons a as ih =>
    obtain ⟨lp₁, hfirst, hrest⟩ := foldlM_cons_eq_ok_iff.mp h
    rw [stagePolls, hfirst]
    simp only [ih hrest (done + 1), List.length_cons, List.range'_succ, List.map_cons,
      List.cons_append]

/-- The steps of a stage and what follows them can be taken before the budget is looked at. -/
theorem pace_bind [Clock C] {budget : UInt32} {stage : Stage}
    {step : L → α → Except BuildError L} {k : L → Build C β} {next : L → Except BuildError β}
    {rest : L → List Poll} (hk : ∀ lp, k lp = paced budget (next lp) (rest lp)) (done : ℕ) (lp : L)
    (as : List α) : (pace budget stage step done lp as >>= k) =
      paced budget (as.foldlM step lp >>= next) (stagePolls stage step rest done lp as) := by
  induction as generalizing done lp with
  | nil => rw [pace, pure_bind, hk, stagePolls, List.foldlM_nil, pure_bind]
  | cons a as ih =>
    rw [pace, stagePolls, List.foldlM_cons]
    cases step lp a with
    | ok lp' =>
      simp only [ofExcept, pure_bind, bind_assoc, ih, ok_bind]
      rfl
    | error e => rfl

/-- A stage that ends the construction. -/
theorem pace_eq_paced [Clock C] (budget : UInt32) (stage : Stage)
    (step : L → α → Except BuildError L) (done : ℕ) (lp : L) (as : List α) :
    (pace budget stage step done lp as : Build C L) =
      paced budget (as.foldlM step lp) (stagePolls stage step (fun _ => []) done lp as) := by
  have hpure (lp : L) : (pure lp : Build C L) = paced budget (pure lp) [] := rfl
  have h : (pace budget stage step done lp as >>= pure : Build C L) =
      paced budget (as.foldlM step lp >>= pure) (stagePolls stage step (fun _ => []) done lp as) :=
    pace_bind hpure done lp as
  rwa [bind_pure, bind_pure] at h

end Build

/-! ## The whole construction -/

section

variable [PetriNet N] [LinearProgram L]

/-- The second rows, as the last stage makes them. -/
def effectRows (net : N) (lp : L) : Except BuildError L := do
  let (first, lp) ← appended lp (LinearProgram.addRows (PetriNet.numPlaces net))
  (List.range (PetriNet.numPlaces net)).foldlM (fillEffectRow net first) lp

/-- What the steps of a construction make of the program that is allocated. -/
def untimed (net : N) (marking : List Weight) (allocated : Option L) : Except BuildError L := do
  let lp ← begun net marking allocated
  let lp ← (List.range (PetriNet.numTransitions net)).foldlM (fillColumn net) lp
  let lp ← marking.zipIdx.foldlM boundStateRow lp
  effectRows net lp

/-- The looks at the budget in the last stage. -/
def effectPolls (net : N) (lp : L) : List Poll :=
  match appended lp (LinearProgram.addRows (PetriNet.numPlaces net)) with
  | .ok (first, lp) =>
    Build.stagePolls .effectRows (fillEffectRow net first) (fun _ => []) 0 lp
      (List.range (PetriNet.numPlaces net))
  | .error _ => []

/-- The looks at the budget during a construction. -/
def polls (net : N) (marking : List Weight) (allocated : Option L) : List Poll :=
  (.setup, 0) ::
    match begun net marking allocated with
    | .ok lp =>
      Build.stagePolls .columns (fillColumn net)
        (fun lp =>
          Build.stagePolls .stateRows boundStateRow (effectPolls net) 0 lp marking.zipIdx)
        0 lp (List.range (PetriNet.numTransitions net))
    | .error _ => []

theorem effectRows_eq_paced [Clock C] (net : N) (budget : UInt32) (lp : L) :
    (do
      let (first, lp) ← Build.ofExcept
        (appended lp (LinearProgram.addRows (PetriNet.numPlaces net)))
      Build.pace budget .effectRows (fillEffectRow net first) 0 lp
        (List.range (PetriNet.numPlaces net)) : Build C L) =
      Build.paced budget (effectRows net lp) (effectPolls net lp) := by
  rw [effectRows, effectPolls]
  cases appended lp (LinearProgram.addRows (PetriNet.numPlaces net)) with
  | error e => rfl
  | ok answer => exact Build.pace_eq_paced budget .effectRows _ 0 _ _

/-- A construction is a row of looks at the budget that ends as the steps do. -/
theorem build_eq_paced [Clock C] (net : N) (marking : List Weight) (budget : UInt32)
    (allocated : Option L) : (build net marking budget allocated : Build C L) =
      Build.paced budget (untimed net marking allocated) (polls net marking allocated) := by
  unfold build polls untimed Build.paced
  congr 1
  funext _
  cases begun net marking allocated with
  | error e => rfl
  | ok lp =>
    simp only [Build.ofExcept, pure_bind, ok_bind]
    exact Build.pace_bind (fun lp =>
      Build.pace_bind (fun lp => effectRows_eq_paced net budget lp) 0 lp _) 0 lp _

/-- The looks of a construction that is completed: one before the steps, and one after each. -/
def allPolls (places transitions : ℕ) : List Poll :=
  (.setup, 0) :: (List.range' 1 transitions).map (fun k => (.columns, k)) ++
    (List.range' 1 places).map (fun k => (.stateRows, k)) ++
    (List.range' 1 places).map (fun k => (.effectRows, k))

theorem length_allPolls (places transitions : ℕ) :
    (allPolls places transitions).length = 1 + transitions + 2 * places := by
  simp only [allPolls, List.length_append, List.length_cons, List.length_map, List.length_range']
  omega

theorem length_of_begun {net : N} {marking : List Weight} {allocated : Option L} {lp : L}
    (h : begun net marking allocated = .ok lp) : marking.length = PetriNet.numPlaces net := by
  by_contra hne
  simp only [begun, if_neg hne] at h
  cases h

theorem polls_of_ok {net : N} {marking : List Weight} {allocated : Option L} {lp : L}
    (h : untimed net marking allocated = .ok lp) : polls net marking allocated =
      allPolls (PetriNet.numPlaces net) (PetriNet.numTransitions net) := by
  obtain ⟨lp₀, hbegun, h⟩ := bind_eq_ok_iff.mp h
  obtain ⟨lp₁, hcolumns, h⟩ := bind_eq_ok_iff.mp h
  obtain ⟨lp₂, hrows, h⟩ := bind_eq_ok_iff.mp h
  have heffect : effectPolls net lp₂ =
      (List.range' 1 (PetriNet.numPlaces net)).map fun k => (.effectRows, k) := by
    obtain ⟨answer, happended, h⟩ := bind_eq_ok_iff.mp h
    have hstage := Build.stagePolls_of_ok .effectRows (fun _ => []) h 0
    rw [List.append_nil, List.length_range, Nat.zero_add] at hstage
    rw [effectPolls, happended]
    exact hstage
  rw [polls, hbegun]
  simp only [Build.stagePolls_of_ok _ _ hcolumns, Build.stagePolls_of_ok _ _ hrows, heffect,
    List.length_range, List.length_zipIdx, length_of_begun hbegun, allPolls, List.cons_append,
    List.append_assoc, Nat.zero_add]

/-! ## How a construction ends -/

section

variable [Clock C] {net : N} {marking : List Weight} {budget : UInt32} {allocated : Option L}
  {c c' : C}

/-- Either the budget is never found expired, or some look is the first to find it expired. -/
theorem build_cases (net : N) (marking : List Weight) (budget : UInt32) (allocated : Option L)
    (c : C) :
    ((∀ k < (polls net marking allocated).length, ¬ Expired budget (Clock.reading c k)) ∧
      build net marking budget allocated c = Build.ofExcept (untimed net marking allocated)
        (Clock.after c (polls net marking allocated).length)) ∨
    ∃ k poll, (polls net marking allocated)[k]? = some poll ∧ FirstExpired budget c k ∧
      build net marking budget allocated c =
        .error (.abort (.expired poll.1 poll.2)) (Clock.after c (k + 1)) := by
  rw [build_eq_paced]
  by_cases h : ∃ k < (polls net marking allocated).length, Expired budget (Clock.reading c k)
  · obtain ⟨hlt, hexpired⟩ := Nat.find_spec h
    have hpoll := List.getElem?_eq_getElem hlt
    have hfirst : FirstExpired budget c (Nat.find h) :=
      ⟨hexpired, fun j hj hj' => Nat.find_min h hj ⟨Nat.lt_trans hj hlt, hj'⟩⟩
    exact Or.inr ⟨_, _, hpoll, hfirst, Build.paced_of_expired budget _ hpoll hfirst⟩
  · have htime : ∀ k < (polls net marking allocated).length,
        ¬ Expired budget (Clock.reading c k) := fun k hk hexpired => h ⟨k, hk, hexpired⟩
    exact Or.inl ⟨htime, Build.paced_of_not_expired budget _ htime⟩

/-- The first look that finds the budget expired ends a construction. -/
theorem build_of_firstExpired {k : ℕ} {poll : Poll}
    (hpoll : (polls net marking allocated)[k]? = some poll) (h : FirstExpired budget c k) :
    build net marking budget allocated c =
      .error (.abort (.expired poll.1 poll.2)) (Clock.after c (k + 1)) := by
  rw [build_eq_paced]
  exact Build.paced_of_expired budget _ hpoll h

/-- A construction is completed if its steps succeed and no look finds the budget expired, and what
is built does not depend on the clock. -/
theorem build_eq_ok_iff {lp : L} : build net marking budget allocated c = .ok lp c' ↔
    untimed net marking allocated = .ok lp ∧
      (∀ k < 1 + PetriNet.numTransitions net + 2 * PetriNet.numPlaces net,
        ¬ Expired budget (Clock.reading c k)) ∧
      c' = Clock.after c (1 + PetriNet.numTransitions net + 2 * PetriNet.numPlaces net) := by
  constructor
  · intro h
    rcases build_cases net marking budget allocated c with ⟨htime, h'⟩ | ⟨k, poll, -, -, h'⟩
    · rw [h'] at h
      cases huntimed : untimed net marking allocated with
      | ok lp' =>
        rw [huntimed] at h
        obtain ⟨rfl, rfl⟩ := EStateM.Result.ok.inj h
        rw [polls_of_ok huntimed, length_allPolls] at htime ⊢
        exact ⟨rfl, htime, rfl⟩
      | error e =>
        rw [huntimed] at h
        cases h
    · rw [h'] at h
      cases h
  · rintro ⟨huntimed, htime, rfl⟩
    rw [← length_allPolls, ← polls_of_ok huntimed] at htime ⊢
    rw [build_eq_paced, Build.paced_of_not_expired budget _ htime, huntimed]
    rfl

/-- A construction that ends without a program looks at the budget up to the first time that it has
expired, or it ends as its steps do with time left at every look. -/
theorem error_of_build {e : BuildError}
    (h : build net marking budget allocated c = .error e c') :
    (untimed net marking allocated = .error e ∧
      (∀ k < (polls net marking allocated).length, ¬ Expired budget (Clock.reading c k)) ∧
      c' = Clock.after c (polls net marking allocated).length) ∨
    ∃ k poll, (polls net marking allocated)[k]? = some poll ∧ FirstExpired budget c k ∧
      e = .abort (.expired poll.1 poll.2) ∧ c' = Clock.after c (k + 1) := by
  rcases build_cases net marking budget allocated c with ⟨htime, h'⟩ | ⟨k, poll, hpoll, hk, h'⟩
  · rw [h'] at h
    cases huntimed : untimed net marking allocated with
    | ok lp' =>
      rw [huntimed] at h
      cases h
    | error e' =>
      rw [huntimed] at h
      obtain ⟨rfl, rfl⟩ := EStateM.Result.error.inj h
      exact Or.inl ⟨rfl, htime, rfl⟩
  · rw [h'] at h
    obtain ⟨rfl, rfl⟩ := EStateM.Result.error.inj h
    exact Or.inr ⟨k, poll, hpoll, hk, rfl, rfl⟩

end

end

end PetriAnalysis
