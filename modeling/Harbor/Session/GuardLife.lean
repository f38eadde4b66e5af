import Harbor.Session.QueryTimeout

set_option autoImplicit false

/-! # The life of a `QueryExecutionGuard`

The guard objects of one session, with their constructor, destructor and moves, at the steps of
`QueryTimeout`: its `State` is the clock, the atomics, the sweeper, the `InterruptSession` calls, and
how far the constructor or destructor in progress has got. What is added are the objects, which may be
moved from, and the session lock that the owning ones live under. Constructors, destructors and moves of
owning guards come one after another, since the lock is held; a moved-from guard may go at any time.
-/

namespace Harbor.GuardLife

open Harbor.QueryTimeout (guardStep sweepStep nextGeneration)

/-! ## The state -/

/-- A guard object: `session_ptr` is set, with `my_generation` and the deadline the constructor
computed, or it is null. -/
inductive Guard where
  | owning (gen : Nat) (deadline : Int)
  | movedFrom
  deriving DecidableEq, Repr

/-- A session with the guard objects there are, in any number `n` of places. -/
structure State (n : Nat) where
  core : QueryTimeout.State
  locked : Bool := false
  guards : Fin n → Option Guard := fun _ => none
  /-- The place of the guard that is under construction or being released. -/
  place : Option (Fin n) := none
  /-- The guard that `operator=` takes over after the release. -/
  source : Option (Fin n) := none

/-- A session nobody has used yet. -/
def State.initial (n : Nat) (now : Int) : State n := { core := .initial now }

inductive Action (n : Nat) where
  | tick (ns : Nat)
  | acquire
  | release
  /-- The constructor: `fetch_add` on `query_generation`. -/
  | construct (i : Fin n) (timeoutSeconds : Nat)
  /-- The next step of the constructor, the destructor or `operator=`. -/
  | next
  | destroy (i : Fin n)
  /-- `QueryExecutionGuard i(std::move(j))`. -/
  | moveConstruct (i j : Fin n)
  /-- `i = std::move(j)`. -/
  | moveAssign (i j : Fin n)
  | sweep
  | storeCause (call : Nat) (cause : QueryTimeout.InterruptCause)
  | interrupt (call : Nat)
  deriving DecidableEq, Repr

variable {n : Nat}

/-- A guard that has the session. -/
def Owning (guards : Fin n → Option Guard) (i : Fin n) (gen : Nat) (deadline : Int) : Prop :=
  guards i = some (.owning gen deadline)

/-- The lock is held and nothing is under way in it. -/
def State.idle (s : State n) : Bool := s.locked && decide (s.core.guard = .none)

/-- What is under way uses this place. -/
def State.busy (s : State n) (i : Fin n) : Bool :=
  decide (s.core.guard ≠ .none) && (decide (s.place = some i) || decide (s.source = some i))

/-! ## The step function -/

/-- The guards after `session_ptr` and `my_generation` went from `j` to `i`. -/
def moved (guards : Fin n → Option Guard) (i j : Fin n) : Fin n → Option Guard :=
  Function.update (Function.update guards i (guards j)) j (some .movedFrom)

/-- The first store of the destructor, or of `operator=`. -/
def startRelease (s : State n) (i : Fin n) (gen : Nat) (deadline : Int)
    (source : Option (Fin n)) : State n :=
  { s with
    core := { s.core with
      session := { s.core.session with queryDeadlineMs := 0 }
      guard := .disarming gen deadline }
    place := some i
    source }

/-- After a step of the constructor or the destructor: an object that is now complete is entered, one
that is now released is gone, or takes over from `source`. -/
def finish (s : State n) (core : QueryTimeout.State) : State n :=
  match core.guard, s.place, s.source with
  | .live gen deadline, some i, _ =>
      { s with
        core := { core with guard := .none }
        guards := Function.update s.guards i (some (.owning gen deadline)) }
  | .none, some i, none => { s with core, guards := Function.update s.guards i none }
  | .none, some i, some j => { s with core, guards := moved s.guards i j }
  | _, _, _ => { s with core }

def step (s : State n) : Action n → Option (State n)
  | .tick ns => some { s with core := { s.core with now := s.core.now + ns } }
  | .acquire => if s.locked then none else some { s with locked := true }
  | .release =>
      -- every guard is destroyed or moved from before the lock is released
      if s.idle && decide (∀ i, s.guards i = none ∨ s.guards i = some .movedFrom) then
        some { s with locked := false }
      else none
  | .construct i timeoutSeconds =>
      if s.idle && (s.guards i).isNone then
        (QueryTimeout.step s.core (.construct timeoutSeconds)).map fun core =>
          { s with core, place := some i, source := none }
      else none
  | .next => (guardStep s.core).map (finish s)
  | .destroy i =>
      match s.guards i with
      | none => none
      | some .movedFrom =>
          if s.busy i then none else some { s with guards := Function.update s.guards i none }
      | some (.owning gen deadline) =>
          if s.idle then some (startRelease s i gen deadline none) else none
  | .moveConstruct i j =>
      match s.guards i, s.guards j with
      | none, some g =>
          if s.busy i || s.busy j || (decide (g ≠ .movedFrom) && !s.idle) then none
          else some { s with guards := moved s.guards i j }
      | _, _ => none
  | .moveAssign i j =>
      if i = j then some s
      else match s.guards i, s.guards j with
        | some .movedFrom, some g =>
            if s.busy i || s.busy j || (decide (g ≠ .movedFrom) && !s.idle) then none
            else some { s with guards := moved s.guards i j }
        | some (.owning gen deadline), some _ =>
            if s.idle then some (startRelease s i gen deadline (some j)) else none
        | _, _ => none
  | .sweep => some { s with core := sweepStep s.core }
  | .storeCause call cause =>
      (QueryTimeout.step s.core (.storeCause call cause)).map fun core => { s with core }
  | .interrupt call =>
      (QueryTimeout.step s.core (.interrupt call)).map fun core => { s with core }

/-! ## What a step can do -/

/-- A guard that is moved from keeps the count: who owns afterwards owned before, one for one, and it
is the same one while something is under way. -/
def Rearranged (s : State n) (guards : Fin n → Option Guard) : Prop :=
  ∃ e : Equiv.Perm (Fin n), (s.core.guard ≠ .none → e = Equiv.refl _) ∧
    ∀ k gen deadline, Owning guards k gen deadline ↔ Owning s.guards (e k) gen deadline

/-- The atomics that guards write. -/
def flags (core : QueryTimeout.State) : Bool × Int × Nat :=
  (core.session.queryInFlight, core.session.queryDeadlineMs, core.session.queryGeneration)

/-- What a step does to the guards and to what they write. -/
inductive Effect (s : State n) : Action n → State n → Prop
  /-- Somebody else's step. -/
  | quiet {a : Action n} {t : State n} (hguards : t.guards = s.guards)
      (hguard : t.core.guard = s.core.guard) (hplace : t.place = s.place)
      (hsource : t.source = s.source) (hflags : flags t.core = flags s.core)
      (ha : ∀ i timeoutSeconds, a ≠ .construct i timeoutSeconds) : Effect s a t
  | construct (i : Fin n) (timeoutSeconds : Nat) (hguard : s.core.guard = .none)
      (hi : s.guards i = none) : Effect s (.construct i timeoutSeconds)
        { s with
          core := { s.core with
            session := { s.core.session with
              queryGeneration := nextGeneration s.core.session.queryGeneration }
            guard := .counted (nextGeneration s.core.session.queryGeneration) timeoutSeconds }
          place := some i
          source := none }
  | next {core : QueryTimeout.State} (hcore : guardStep s.core = some core) :
      Effect s .next (finish s core)
  | rearranged {a : Action n} {guards : Fin n → Option Guard}
      (hguards : Rearranged s guards)
      (ha : ∀ i timeoutSeconds, a ≠ .construct i timeoutSeconds) :
      Effect s a { s with guards }
  | startRelease {a : Action n} (i : Fin n) (gen : Nat) (deadline : Int) (source : Option (Fin n))
      (hguard : s.core.guard = .none) (hi : Owning s.guards i gen deadline)
      (hsource : source ≠ some i)
      (ha : ∀ i timeoutSeconds, a ≠ .construct i timeoutSeconds) :
      Effect s a (startRelease s i gen deadline source)

theorem guard_of_idle {s : State n} (h : s.idle = true) : s.core.guard = .none := by
  rw [State.idle, Bool.and_eq_true, decide_eq_true_eq] at h
  exact h.2

theorem moved_owning {guards : Fin n → Option Guard} {i j : Fin n} (hij : i ≠ j)
    (hi : ∀ gen deadline, ¬ Owning guards i gen deadline) (k : Fin n) (gen : Nat)
    (deadline : Int) :
    Owning (moved guards i j) k gen deadline ↔ Owning guards (Equiv.swap i j k) gen deadline := by
  by_cases hkj : k = j
  · subst hkj
    rw [Equiv.swap_apply_right, Owning, moved, Function.update_self]
    exact ⟨(fun h => nomatch h), fun h => absurd h (hi gen deadline)⟩
  · rw [Owning, moved, Function.update_of_ne hkj]
    by_cases hki : k = i
    · subst hki
      rw [Equiv.swap_apply_left, Function.update_self, Owning]
    · rw [Equiv.swap_apply_of_ne_of_ne hki hkj, Function.update_of_ne hki, Owning]

theorem rearranged_moved {s : State n} {i j : Fin n} {g : Guard} (hij : i ≠ j)
    (hi : ∀ gen deadline, ¬ Owning s.guards i gen deadline) (hj : s.guards j = some g)
    (hidle : ¬ (decide (g ≠ .movedFrom) && !s.idle) = true) :
    Rearranged s (moved s.guards i j) := by
  by_cases hg : g = .movedFrom
  · -- neither of the two owns anything
    subst hg
    refine ⟨Equiv.refl _, fun _ => rfl, fun k gen deadline => ?_⟩
    have hnj : ¬ Owning s.guards j gen deadline := by simp [Owning, hj]
    rw [moved_owning hij hi, Equiv.refl_apply]
    by_cases hki : k = i
    · rw [hki, Equiv.swap_apply_left]
      exact iff_of_false hnj (hi gen deadline)
    · by_cases hkj : k = j
      · rw [hkj, Equiv.swap_apply_right]
        exact iff_of_false (hi gen deadline) hnj
      · rw [Equiv.swap_apply_of_ne_of_ne hki hkj]
  · refine ⟨Equiv.swap i j, fun h => absurd (guard_of_idle ?_) h, moved_owning hij hi⟩
    simpa [hg] using hidle

theorem rearranged_erase {s : State n} {i : Fin n} (hi : s.guards i = some .movedFrom) :
    Rearranged s (Function.update s.guards i none) := by
  refine ⟨Equiv.refl _, fun _ => rfl, fun k gen deadline => ?_⟩
  rw [Equiv.refl_apply, Owning, Owning]
  by_cases hk : k = i
  · subst hk
    rw [Function.update_self, hi]
    simp
  · rw [Function.update_of_ne hk]

theorem sweepStep_flags (core : QueryTimeout.State) : flags (sweepStep core) = flags core := by
  cases hs : core.sweeper <;> simp only [sweepStep, hs, flags]
  split_ifs <;> rfl

theorem sweepStep_guard (core : QueryTimeout.State) : (sweepStep core).guard = core.guard := by
  cases hs : core.sweeper <;> simp only [sweepStep, hs]
  split_ifs <;> rfl

/-- Every step is one of these. -/
theorem step_effect {s t : State n} {a : Action n} (h : step s a = some t) : Effect s a t := by
  cases a with
  | tick ns =>
      cases h
      exact .quiet rfl rfl rfl rfl rfl (by simp)
  | acquire =>
      rw [step] at h
      split_ifs at h
      cases h
      exact .quiet rfl rfl rfl rfl rfl (by simp)
  | release =>
      rw [step] at h
      split_ifs at h
      cases h
      exact .quiet rfl rfl rfl rfl rfl (by simp)
  | construct i timeoutSeconds =>
      rw [step] at h
      split_ifs at h with hok
      rw [Bool.and_eq_true] at hok
      have hguard := guard_of_idle hok.1
      rw [QueryTimeout.step, hguard] at h
      cases h
      exact .construct i timeoutSeconds hguard (by simpa using hok.2)
  | next =>
      obtain ⟨core, hcore, rfl⟩ := Option.map_eq_some_iff.mp h
      exact .next hcore
  | destroy i =>
      rw [step] at h
      split at h
      · exact nomatch h
      · next hi =>
        split_ifs at h
        cases h
        exact .rearranged (rearranged_erase hi) (by simp)
      · next gen deadline hi =>
        split_ifs at h with hidle
        cases h
        exact .startRelease i gen deadline none (guard_of_idle hidle) hi (by simp) (by simp)
  | moveConstruct i j =>
      rw [step] at h
      split at h
      · next g hi hj =>
        split_ifs at h with hbusy
        cases h
        have hij : i ≠ j := by
          rintro rfl
          rw [hi] at hj
          exact nomatch hj
        exact .rearranged (rearranged_moved hij (by simp [Owning, hi]) hj
          fun hg => hbusy (by rw [hg, Bool.or_true])) (by simp)
      · exact nomatch h
  | moveAssign i j =>
      rw [step] at h
      by_cases hij : i = j
      · rw [if_pos hij] at h
        cases h
        exact .quiet rfl rfl rfl rfl rfl (by simp)
      rw [if_neg hij] at h
      split at h
      · next g hi hj =>
        split_ifs at h with hbusy
        cases h
        exact .rearranged (rearranged_moved hij (by simp [Owning, hi]) hj
          fun hg => hbusy (by rw [hg, Bool.or_true])) (by simp)
      · next gen deadline g hi hj =>
        split_ifs at h with hidle
        cases h
        exact .startRelease i gen deadline (some j) (guard_of_idle hidle) hi
          (by simpa using Ne.symm hij) (by simp)
      · exact nomatch h
  | sweep =>
      cases h
      exact .quiet rfl (sweepStep_guard s.core) rfl rfl (sweepStep_flags s.core) (by simp)
  | storeCause call cause =>
      obtain ⟨core, hcore, rfl⟩ := Option.map_eq_some_iff.mp h
      rw [QueryTimeout.step] at hcore
      split_ifs at hcore
      cases hcore
      exact .quiet rfl rfl rfl rfl rfl (by simp)
  | interrupt call =>
      obtain ⟨core, hcore, rfl⟩ := Option.map_eq_some_iff.mp h
      rw [QueryTimeout.step] at hcore
      split_ifs at hcore
      cases hcore
      exact .quiet rfl rfl rfl rfl rfl (by simp)

/-! ## Invariants -/

/-- No guard has the session. -/
def Unowned (s : State n) : Prop := ∀ i gen deadline, ¬ Owning s.guards i gen deadline

/-- The one guard that has the session. -/
def OnlyOwner (s : State n) (i : Fin n) (gen : Nat) (deadline : Int) : Prop :=
  Owning s.guards i gen deadline ∧
    ∀ j gen' deadline', Owning s.guards j gen' deadline' → j = i

/-- What may be there in each phase. `place` is set when something is under way; the flags are down if
nobody owns, and while a release is under way the deadline is. -/
def Tidy (s : State n) : Prop :=
  match s.core.guard with
  | .none => Unowned s →
      s.core.session.queryInFlight = false ∧ s.core.session.queryDeadlineMs = 0
  | .live .. => False
  | .disarming .. => s.place ≠ none ∧ s.place ≠ s.source ∧ s.core.session.queryDeadlineMs = 0
  | _ => s.place ≠ none ∧ s.source = none

theorem tidy_congr {s t : State n} (h : Tidy s) (hguard : t.core.guard = s.core.guard)
    (hplace : t.place = s.place) (hsource : t.source = s.source)
    (hflags : flags t.core = flags s.core) (hunowned : Unowned t → Unowned s) : Tidy t := by
  obtain ⟨hin, hdl, -⟩ : t.core.session.queryInFlight = s.core.session.queryInFlight ∧
      t.core.session.queryDeadlineMs = s.core.session.queryDeadlineMs ∧ _ :=
    ⟨congrArg (·.1) hflags, congrArg (·.2.1) hflags, trivial⟩
  unfold Tidy at h ⊢
  rw [hguard, hplace, hsource, hin, hdl]
  cases hg : s.core.guard <;> rw [hg] at h
  case none => exact fun hu => h (hunowned hu)
  all_goals exact h

theorem Rearranged.unowned {s : State n} {guards : Fin n → Option Guard}
    (h : Rearranged s guards) (hu : Unowned { s with guards }) : Unowned s := by
  obtain ⟨e, -, he⟩ := h
  intro i gen deadline hi
  refine hu (e.symm i) gen deadline ((he _ _ _).mpr ?_)
  rwa [Equiv.apply_symm_apply]

theorem tidy_next {s : State n} {core : QueryTimeout.State} (h : Tidy s)
    (hcore : guardStep s.core = some core) : Tidy (finish s core) := by
  unfold Tidy at h
  cases hg : s.core.guard with
  | none => rw [guardStep, hg] at hcore; exact nomatch hcore
  | live gen deadline => rw [hg] at h; exact h.elim
  | counted gen timeoutSeconds =>
      rw [hg] at h
      rw [guardStep, hg] at hcore
      cases hcore
      exact h
  | cleared gen timeoutSeconds =>
      rw [hg] at h
      rw [guardStep, hg] at hcore
      cases hcore
      exact h
  | timed gen deadline =>
      rw [hg] at h
      rw [guardStep, hg] at hcore
      cases hcore
      exact h
  | armed gen deadline =>
      rw [hg] at h
      rw [guardStep, hg] at hcore
      cases hcore
      -- the new guard owns the session
      obtain ⟨i, hi⟩ := Option.ne_none_iff_exists'.mp h.1
      rw [finish, hi]
      intro hu
      exact absurd (Function.update_self i _ s.guards) (hu i gen deadline)
  | disarming gen deadline =>
      rw [hg] at h
      rw [guardStep, hg] at hcore
      cases hcore
      obtain ⟨i, hi⟩ := Option.ne_none_iff_exists'.mp h.1
      cases hs : s.source with
      | none =>
          rw [finish, hi, hs]
          exact fun _ => ⟨rfl, h.2.2⟩
      | some j =>
          rw [finish, hi, hs]
          exact fun _ => ⟨rfl, h.2.2⟩

theorem tidy_step (s : State n) (a : Action n) (t : State n) (h : Tidy s) (_ : True)
    (hst : step s a = some t) : Tidy t := by
  cases step_effect hst with
  | quiet hguards hguard hplace hsource hflags ha =>
      refine tidy_congr h hguard hplace hsource hflags ?_
      rw [Unowned, Unowned, hguards]
      exact id
  | construct i timeoutSeconds hguard hi => exact ⟨by simp, rfl⟩
  | next hcore => exact tidy_next h hcore
  | rearranged hguards ha => exact tidy_congr h rfl rfl rfl rfl hguards.unowned
  | startRelease i gen deadline source hguard hi hsource ha =>
      exact ⟨by simp [startRelease], Ne.symm hsource, rfl⟩

/-! ## One guard at a time -/

/-- No guard is constructed while another one has the session. -/
def OneAtATime (s : State n) : Action n → Prop
  | .construct .. => Unowned s
  | _ => True

/-- The guard under construction or release is the only one there is, and otherwise at most one owns the
session, with the current generation and deadline. -/
def Alone (s : State n) : Prop :=
  let session := s.core.session
  match s.core.guard with
  | .none => Unowned s ∨ ∃ i gen deadline, OnlyOwner s i gen deadline ∧
      gen = session.queryGeneration ∧ deadline = session.queryDeadlineMs
  | .live .. => False
  | .disarming gen deadline => ∃ i, s.place = some i ∧ OnlyOwner s i gen deadline
  | .counted gen _ | .cleared gen _ | .timed gen _ =>
      Unowned s ∧ session.queryInFlight = false ∧ gen = session.queryGeneration
  | .armed gen deadline =>
      Unowned s ∧ session.queryInFlight = false ∧ gen = session.queryGeneration ∧
        deadline = session.queryDeadlineMs

theorem Rearranged.onlyOwner {s : State n} {guards : Fin n → Option Guard}
    (h : Rearranged s guards) {i : Fin n} {gen : Nat} {deadline : Int}
    (hi : OnlyOwner s i gen deadline) : ∃ j, OnlyOwner { s with guards } j gen deadline ∧
      (s.core.guard ≠ .none → j = i) := by
  obtain ⟨e, hstill, he⟩ := h
  refine ⟨e.symm i, ⟨(he _ _ _).mpr ?_, fun j gen' deadline' hj => ?_⟩, fun hguard => ?_⟩
  · rw [Equiv.apply_symm_apply]
    exact hi.1
  · rw [← hi.2 _ _ _ ((he _ _ _).mp hj), Equiv.symm_apply_apply]
  · rw [hstill hguard]
    rfl

theorem Rearranged.unowned_of {s : State n} {guards : Fin n → Option Guard}
    (h : Rearranged s guards) (hu : Unowned s) : Unowned { s with guards } := by
  obtain ⟨e, -, he⟩ := h
  exact fun k gen deadline hk => hu (e k) gen deadline ((he _ _ _).mp hk)

theorem alone_quiet {s t : State n} (h : Alone s) (hguards : t.guards = s.guards)
    (hguard : t.core.guard = s.core.guard) (hplace : t.place = s.place)
    (hflags : flags t.core = flags s.core) : Alone t := by
  obtain ⟨hin, hdl, hgen⟩ : t.core.session.queryInFlight = s.core.session.queryInFlight ∧
      t.core.session.queryDeadlineMs = s.core.session.queryDeadlineMs ∧
      t.core.session.queryGeneration = s.core.session.queryGeneration :=
    ⟨congrArg (·.1) hflags, congrArg (·.2.1) hflags, congrArg (·.2.2) hflags⟩
  unfold Alone Unowned OnlyOwner at h ⊢
  dsimp only at h ⊢
  rw [hguard, hplace, hin, hdl, hgen, hguards]
  exact h

theorem alone_rearranged {s : State n} {guards : Fin n → Option Guard} (h : Alone s)
    (hguards : Rearranged s guards) : Alone { s with guards } := by
  unfold Alone at h ⊢
  dsimp only at h ⊢
  cases hg : s.core.guard with
  | none =>
      rw [hg] at h
      rcases h with hu | ⟨i, gen, deadline, hi, hgen, hdl⟩
      · exact .inl (hguards.unowned_of hu)
      · obtain ⟨j, hj, -⟩ := hguards.onlyOwner hi
        exact .inr ⟨j, gen, deadline, hj, hgen, hdl⟩
  | live gen deadline => rw [hg] at h; exact h
  | disarming gen deadline =>
      rw [hg] at h
      obtain ⟨i, hplace, hi⟩ := h
      obtain ⟨j, hj, hji⟩ := hguards.onlyOwner hi
      exact ⟨i, hplace, hji (by simp [hg]) ▸ hj⟩
  | counted gen timeoutSeconds => rw [hg] at h; exact ⟨hguards.unowned_of h.1, h.2⟩
  | cleared gen timeoutSeconds => rw [hg] at h; exact ⟨hguards.unowned_of h.1, h.2⟩
  | timed gen deadline => rw [hg] at h; exact ⟨hguards.unowned_of h.1, h.2⟩
  | armed gen deadline => rw [hg] at h; exact ⟨hguards.unowned_of h.1, h.2⟩

theorem alone_next {s : State n} {core : QueryTimeout.State} (htidy : Tidy s) (h : Alone s)
    (hcore : guardStep s.core = some core) : Alone (finish s core) := by
  unfold Tidy at htidy
  unfold Alone at h
  dsimp only at h
  cases hg : s.core.guard with
  | none => rw [guardStep, hg] at hcore; exact nomatch hcore
  | live gen deadline => rw [hg] at h; exact h.elim
  | counted gen timeoutSeconds =>
      rw [hg] at h
      rw [guardStep, hg] at hcore
      cases hcore
      exact h
  | cleared gen timeoutSeconds =>
      rw [hg] at h
      rw [guardStep, hg] at hcore
      cases hcore
      exact h
  | timed gen deadline =>
      rw [hg] at h
      rw [guardStep, hg] at hcore
      cases hcore
      exact ⟨h.1, h.2.1, h.2.2, rfl⟩
  -- the new guard is the only one: no other was armed before it
  | armed gen deadline =>
      rw [hg] at h htidy
      rw [guardStep, hg] at hcore
      cases hcore
      obtain ⟨i, hi⟩ := Option.ne_none_iff_exists'.mp htidy.1
      obtain ⟨hu, -, hgen, hdl⟩ := h
      rw [finish, hi]
      refine .inr ⟨i, gen, deadline, ⟨Function.update_self _ _ _, fun j gen' dl' hj => ?_⟩, hgen,
        hdl⟩
      by_contra hne
      exact hu j gen' dl' ((Function.update_of_ne hne _ _).symm.trans hj)
  | disarming gen deadline =>
      rw [hg] at h htidy
      rw [guardStep, hg] at hcore
      cases hcore
      obtain ⟨i, hi, -, honly⟩ := h
      cases hs : s.source with
      | none =>
          rw [finish, hi, hs]
          refine .inl fun k gen' dl' (hk : Function.update s.guards i none k = _) => ?_
          by_cases hki : k = i
          · subst hki
            rw [Function.update_self] at hk
            exact nomatch hk
          · rw [Function.update_of_ne hki] at hk
            exact hki (honly k gen' dl' hk)
      | some j =>
          -- what is taken over owns nothing: the released guard was the only one
          have hij : i ≠ j := by
            rintro rfl
            exact htidy.2.1 (hi.trans hs.symm)
          rw [finish, hi, hs]
          refine .inl fun k gen' dl' (hk : moved s.guards i j k = _) => ?_
          by_cases hkj : k = j
          · subst hkj
            rw [moved, Function.update_self] at hk
            exact nomatch hk
          · rw [moved, Function.update_of_ne hkj] at hk
            by_cases hki : k = i
            · subst hki
              rw [Function.update_self] at hk
              exact hij (honly j gen' dl' hk).symm
            · rw [Function.update_of_ne hki] at hk
              exact hki (honly k gen' dl' hk)

theorem alone_step (s : State n) (a : Action n) (t : State n) (htidy : Tidy s) (h : Alone s)
    (hok : OneAtATime s a) (hst : step s a = some t) : Alone t := by
  cases step_effect hst with
  | quiet hguards hguard hplace hsource hflags ha => exact alone_quiet h hguards hguard hplace hflags
  | construct i timeoutSeconds hguard hi =>
      unfold Alone at h
      dsimp only at h
      rw [hguard] at h
      unfold Tidy at htidy
      rw [hguard] at htidy
      exact ⟨hok, (htidy hok).1, rfl⟩
  | next hcore => exact alone_next htidy h hcore
  | rearranged hguards ha => exact alone_rearranged h hguards
  | startRelease i gen deadline source hguard hi hsource ha =>
      unfold Alone at h
      dsimp only at h
      rw [hguard] at h
      rcases h with hu | ⟨j, gen', dl', ⟨-, honly⟩, -⟩
      · exact absurd hi (hu i gen deadline)
      · obtain rfl := honly i gen deadline hi
        exact ⟨i, rfl, hi, honly⟩

/-! ## The generation counter -/

theorem flags_finish (s : State n) (core : QueryTimeout.State) :
    flags (finish s core).core = flags core := by
  rw [finish]
  split <;> rfl

theorem guardStep_generation {core core' : QueryTimeout.State} (h : guardStep core = some core') :
    core'.session.queryGeneration = core.session.queryGeneration := by
  rw [guardStep] at h
  split at h <;> cases h <;> rfl

/-- Only a construction writes `query_generation`. -/
def generationAfter (gen : Nat) : Action n → Nat
  | .construct .. => nextGeneration gen
  | _ => gen

theorem generationAfter_of_ne {gen : Nat} {a : Action n}
    (ha : ∀ i timeoutSeconds, a ≠ .construct i timeoutSeconds) : generationAfter gen a = gen := by
  cases a with
  | construct i timeoutSeconds => exact absurd rfl (ha i timeoutSeconds)
  | _ => rfl

theorem generation_step {s t : State n} {a : Action n} (h : step s a = some t) :
    t.core.session.queryGeneration = generationAfter s.core.session.queryGeneration a := by
  cases step_effect h with
  | quiet hguards hguard hplace hsource hflags ha =>
      rw [generationAfter_of_ne ha]
      exact congrArg (·.2.2) hflags
  | construct i timeoutSeconds hguard hi => rfl
  | next hcore => exact (congrArg (·.2.2) (flags_finish s _)).trans (guardStep_generation hcore)
  | rearranged hguards ha => rw [generationAfter_of_ne ha]
  | startRelease i gen deadline source hguard hi hsource ha =>
      rw [generationAfter_of_ne ha]
      rfl

theorem nextGeneration_lt (gen : Nat) : nextGeneration gen < 2 ^ 64 :=
  Nat.mod_lt _ (by norm_num)

theorem generation_lt_step (s : State n) (a : Action n) (t : State n)
    (h : s.core.session.queryGeneration < 2 ^ 64) (_ : True) (hst : step s a = some t) :
    t.core.session.queryGeneration < 2 ^ 64 := by
  rw [generation_step hst]
  cases a with
  | construct i timeoutSeconds => exact nextGeneration_lt _
  | _ => exact h

/-! ## The result -/

/-- While the sweeper can see a query with a deadline, one guard has the session, and the generation and
the deadline are its own. -/
def Armed (s : State n) : Prop :=
  s.core.session.queryInFlight = true → s.core.session.queryDeadlineMs ≠ 0 →
    ∃ i, OnlyOwner s i s.core.session.queryGeneration s.core.session.queryDeadlineMs

/-- The flags are down when the last guard is gone. -/
def Disarmed (s : State n) : Prop :=
  s.core.guard = .none → Unowned s →
    s.core.session.queryInFlight = false ∧ s.core.session.queryDeadlineMs = 0

theorem Tidy.disarmed {s : State n} (h : Tidy s) : Disarmed s := by
  intro hguard
  unfold Tidy at h
  rw [hguard] at h
  exact h

theorem Alone.armed {s : State n} (htidy : Tidy s) (h : Alone s) : Armed s := by
  intro hin hdl
  unfold Tidy at htidy
  unfold Alone at h
  dsimp only at h
  cases hg : s.core.guard with
  | none =>
      rw [hg] at h htidy
      rcases h with hu | ⟨i, gen, deadline, hi, rfl, rfl⟩
      · exact absurd (htidy hu).2 hdl
      · exact ⟨i, hi⟩
  | live gen deadline => rw [hg] at h; exact h.elim
  | disarming gen deadline => rw [hg] at htidy; exact absurd htidy.2.2 hdl
  | counted gen timeoutSeconds => rw [hg, hin] at h; exact nomatch h.2.1
  | cleared gen timeoutSeconds => rw [hg, hin] at h; exact nomatch h.2.1
  | timed gen deadline => rw [hg, hin] at h; exact nomatch h.2.1
  | armed gen deadline => rw [hg, hin] at h; exact nomatch h.2.1

theorem tidy_initial (n : Nat) (now : Int) : Tidy (State.initial n now) := fun _ => ⟨rfl, rfl⟩

theorem alone_initial (n : Nat) (now : Int) : Alone (State.initial n now) :=
  .inl fun _ _ _ h => nomatch h

/-- **The life of guards.** In every run of constructions, moves and destructions under the session lock
with any steps of the sweeper and of interrupts between them: each construction takes the next
generation, which is a greater one until the 64 bits run out; the flags are down once the last guard is
gone; destroying a moved-from guard changes nothing but that guard; and if no guard was constructed while
another one had the session, a query with a deadline always has its one guard. -/
theorem guard_lifecycle (n : Nat) (now : Int) (as : List (Action n)) (s : State n)
    (hrun : Runs.run step (.initial n now) as = some s) :
    (∀ i timeoutSeconds t, step s (.construct i timeoutSeconds) = some t →
        t.core.session.queryGeneration = nextGeneration s.core.session.queryGeneration ∧
        (s.core.session.queryGeneration ≠ 2 ^ 64 - 1 →
          s.core.session.queryGeneration < t.core.session.queryGeneration)) ∧
      Disarmed s ∧
      (∀ i t, s.guards i = some .movedFrom → step s (.destroy i) = some t →
        t = { s with guards := Function.update s.guards i none }) ∧
      (Runs.Meets step OneAtATime (.initial n now) as → Armed s) := by
  have hany : Runs.Meets step (fun _ _ => True) (State.initial n now) as := Runs.meets_true as _
  have htidy := Runs.run_invariant tidy_step (tidy_initial n now) hany hrun
  have hlt := Runs.run_invariant (I := fun s => s.core.session.queryGeneration < 2 ^ 64)
    generation_lt_step (show (0 : Nat) < 2 ^ 64 by norm_num) hany hrun
  refine ⟨fun i timeoutSeconds t hst => ?_, htidy.disarmed, fun i t hi hst => ?_, fun hone => ?_⟩
  · have hgen := generation_step hst
    refine ⟨hgen, fun hne => ?_⟩
    rw [hgen, generationAfter, nextGeneration]
    omega
  · rw [step, hi] at hst
    dsimp only at hst
    split_ifs at hst
    exact (Option.some.inj hst).symm
  · exact Alone.armed htidy (Runs.run_stable (I := Tidy)
      (fun s a t h _ hst => tidy_step s a t h trivial hst) alone_step (tidy_initial n now)
      (alone_initial n now) hone hrun)

/-- The guard of a streamed response: constructed, moved to the heap, and the moved-from one destroyed. -/
def handedOver : List (Action 2) :=
  [.acquire, .construct 0 1, .next, .next, .next, .next, .moveConstruct 1 0, .destroy 0]

/-- After `handedOver` the guard at `1` has the session. -/
def handedOverState : State 2 :=
  { core := { now := 0, session := { queryInFlight := true, queryDeadlineMs := 1000, queryGeneration := 1 } }
    locked := true
    guards := Function.update (moved (Function.update (fun _ => none) 0
      (some (.owning 1 1000))) 1 0) 0 none
    place := some 0 }

theorem guard_lifecycle_handedOver :
    (∀ i timeoutSeconds t, step handedOverState (.construct i timeoutSeconds) = some t →
        t.core.session.queryGeneration = nextGeneration 1 ∧
        ((1 : Nat) ≠ 2 ^ 64 - 1 → 1 < t.core.session.queryGeneration)) ∧
      Disarmed handedOverState ∧
      (∀ i t, handedOverState.guards i = some .movedFrom →
        step handedOverState (.destroy i) = some t →
        t = { handedOverState with guards := Function.update handedOverState.guards i none }) ∧
      (Runs.Meets step OneAtATime (.initial 2 0) handedOver → Armed handedOverState) :=
  guard_lifecycle 2 0 handedOver handedOverState rfl

/-- A second guard is built while the first one still has the session. -/
def nested : List (Action 2) :=
  [.acquire, .construct 0 1, .next, .next, .next, .next, .construct 1 1, .next, .next, .next, .next]

def nestedState : State 2 :=
  { core := { now := 0, session := { queryInFlight := true, queryDeadlineMs := 1000, queryGeneration := 2 } }
    locked := true
    guards := Function.update (Function.update (fun _ => none) 0
      (some (.owning 1 1000))) 1 (some (.owning 2 1000))
    place := some 1 }

theorem run_nested : Runs.run step (.initial 2 0) nested = some nestedState := rfl

/-- One query after another: construction and destruction of a guard. -/
def oneQuery : List (Action 1) := [.construct 0 0, .next, .next, .next, .next, .destroy 0, .next]

/-- A session between two queries of one lock hold. -/
def Between (s : State 1) : Prop := s.idle = true ∧ s.guards 0 = none

/-- What a query without a timeout leaves behind. -/
def afterQuery (s : State 1) : State 1 :=
  let gen := nextGeneration s.core.session.queryGeneration
  { s with
    core := { s.core with
      session := { s.core.session with
        queryInFlight := false, queryDeadlineMs := 0, queryGeneration := gen, interruptCause := .none }
      guard := .none }
    guards := Function.update (Function.update s.guards 0 (some (.owning gen 0))) 0 none
    place := some 0
    source := none }

theorem run_oneQuery {s : State 1} (h : Between s) :
    Runs.run step s oneQuery = some (afterQuery s) := by
  obtain ⟨hidle, hfree⟩ := h
  have hguard := guard_of_idle hidle
  have hlocked : s.locked = true := by
    rw [State.idle, Bool.and_eq_true] at hidle
    exact hidle.1
  simp [oneQuery, Runs.run, step, QueryTimeout.step, guardStep, finish, startRelease, State.idle,
    QueryTimeout.deadlineMs, hguard, hlocked, hfree, afterQuery]

theorem between_afterQuery {s : State 1} (h : Between s) : Between (afterQuery s) := by
  obtain ⟨hidle, -⟩ := h
  rw [State.idle, Bool.and_eq_true] at hidle
  exact ⟨by simp [State.idle, afterQuery, hidle.1], by simp [afterQuery]⟩

/-- Any number of queries can be run in one lock hold. -/
theorem exists_run_queries (k : Nat) :
    ∃ as s, Runs.run step (.initial 1 0) as = some s ∧ Between s ∧
      s.core.session.queryGeneration = k % 2 ^ 64 := by
  induction k with
  | zero =>
      exact ⟨[.acquire], { State.initial 1 0 with locked := true }, rfl, ⟨rfl, rfl⟩, rfl⟩
  | succ k ih =>
      obtain ⟨as, s, hrun, hs, hgen⟩ := ih
      refine ⟨as ++ oneQuery, afterQuery s, ?_, between_afterQuery hs, ?_⟩
      · rw [Runs.run_append_of_run hrun, run_oneQuery hs]
      · show nextGeneration s.core.session.queryGeneration = _
        rw [hgen, nextGeneration]
        omega

/-- Two guards may have the session at once, and after `2 ^ 64 - 1` queries the counter starts again. -/
theorem guard_lifecycle_fails :
    (¬ ∀ (n : Nat) (now : Int) (as : List (Action n)) (s : State n),
      Runs.run step (.initial n now) as = some s → Armed s) ∧
    ¬ ∀ (n : Nat) (now : Int) (as : List (Action n)) (s : State n),
      Runs.run step (.initial n now) as = some s →
        ∀ i timeoutSeconds t, step s (.construct i timeoutSeconds) = some t →
          s.core.session.queryGeneration < t.core.session.queryGeneration := by
  refine ⟨fun hall => ?_, fun hall => ?_⟩
  · obtain ⟨i, -, honly⟩ := hall 2 0 nested nestedState run_nested rfl (by decide)
    have h0 : (0 : Fin 2) = i := honly 0 1 1000 rfl
    have h1 : (1 : Fin 2) = i := honly 1 2 1000 rfl
    exact absurd (h0.trans h1.symm) (by decide)
  · obtain ⟨as, s, hrun, ⟨hidle, hfree⟩, hgen⟩ := exists_run_queries (2 ^ 64 - 1)
    have hguard := guard_of_idle hidle
    have hstep : ∃ t, step s (.construct 0 0) = some t := by
      simp [step, QueryTimeout.step, hidle, hfree, hguard]
    obtain ⟨t, ht⟩ := hstep
    have hlt := hall 1 0 as s hrun 0 0 t ht
    rw [generation_step ht, hgen, generationAfter, nextGeneration] at hlt
    omega

end Harbor.GuardLife
