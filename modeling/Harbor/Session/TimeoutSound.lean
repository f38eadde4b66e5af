import Harbor.Session.QueryTimeout

set_option autoImplicit false

/-! # When a timeout hits the query it was meant for

The sweeper decides that a query is overdue from `query_in_flight` and `query_deadline_ms`,
and only afterwards reads `query_generation`, records it in `timed_out_generation` and
interrupts the connection. In between it holds no lock. A guard constructed in that window
is recorded as timed out, or interrupted, on the account of the query before it.

`WindowClear` is the condition under which this cannot happen, `timeout_sound` proves that it
is enough in every run, and that a construction against it can always be continued to a
wrong report or a wrong interrupt.
-/

namespace Harbor.QueryTimeout

open Runs

/-! ## The property -/

/-- The deadline of the guard, from the time it is computed to the end of the destructor. -/
def GuardPhase.deadline? : GuardPhase → Option Int
  | .timed _ deadline | .armed _ deadline | .live _ deadline | .disarming _ deadline =>
      some deadline
  | _ => Option.none

/-- `my_generation` of the guard in progress. -/
def GuardPhase.generation? : GuardPhase → Option Nat
  | .none => Option.none
  | .counted gen _ | .cleared gen _ | .timed gen _ | .armed gen _ | .live gen _
  | .disarming gen _ => some gen

/-- The guard has a deadline and it has elapsed. -/
def Expired (s : State) : Prop :=
  ∃ deadline, s.guard.deadline? = some deadline ∧ deadline ≠ 0 ∧ deadline < toMillis s.now

/-- A guard reports `TimedOut()` only if its own deadline is nonzero and has elapsed. -/
def ReportsSound (s : State) : Prop :=
  ∀ gen deadline, s.guard = .live gen deadline → timedOut s gen = true → Expired s

/-- The sweeper's next step is `Connection::Interrupt()`. -/
def SweepPhase.interrupts : SweepPhase → Bool
  | .recorded _ => true
  | _ => false

/-- An `Interrupt()` the sweeper issues now meets either no guard or one whose own deadline is
nonzero and has elapsed. -/
def InterruptsSound (s : State) : Prop :=
  s.sweeper.interrupts = true → s.guard ≠ .none → Expired s

/-! ## The condition -/

/-- The sweeper has found this session overdue and has not yet interrupted it. -/
def SweepPhase.inWindow : SweepPhase → Bool
  | .overdue | .gotGeneration _ | .recorded _ => true
  | _ => false

/-- No guard is constructed inside the sweeper's window, and none draws the generation number
that `timed_out_generation` still holds (the counter has come round). -/
def WindowClear (s : State) : Action → Prop
  | .construct _ => s.sweeper.inWindow = false ∧
      nextGeneration s.session.queryGeneration ≠ s.session.timedOutGeneration
  | _ => True

/-! ## The invariant -/

/-- The value of `query_deadline_ms` while the guard is in this phase. -/
def GuardPhase.storedDeadline : GuardPhase → Int
  | .armed _ deadline | .live _ deadline => deadline
  | _ => 0

/-- The clock reading the sweeper still compares with. -/
def SweepPhase.clock? : SweepPhase → Option Int
  | .clocked nowMs | .sawInFlight nowMs => some nowMs
  | _ => none

/-- The generation the sweeper has read. -/
def SweepPhase.generation? : SweepPhase → Option Nat
  | .gotGeneration gen | .recorded gen => some gen
  | _ => none

/-- What holds in every run that keeps the window clear: the atomics mirror the guard, the
sweeper's clock reading is not ahead of the clock, and whoever the sweeper's window or
`timed_out_generation` points at is a guard past its own deadline. -/
structure SweepInv (s : State) : Prop where
  stored : s.session.queryDeadlineMs = s.guard.storedDeadline
  counted : ∀ gen, s.guard.generation? = some gen → s.session.queryGeneration = gen
  swept : ∀ nowMs, s.sweeper.clock? = some nowMs → nowMs ≤ toMillis s.now
  window : s.sweeper.inWindow = true → s.guard ≠ .none → Expired s
  read : ∀ gen, s.sweeper.generation? = some gen → gen = s.session.queryGeneration
  marked : ∀ gen, s.guard.generation? = some gen → s.session.timedOutGeneration = gen →
    Expired s

theorem sweepInv_initial (now : Int) : SweepInv (.initial now) where
  stored := rfl
  counted := fun gen h => by cases h
  swept := fun nowMs h => by cases h
  window := fun h => by cases h
  read := fun gen h => by cases h
  marked := fun gen h => by cases h

/-- Time passing keeps an elapsed deadline elapsed. -/
theorem Expired.tick {s : State} (h : Expired s) (ns : Nat) :
    Expired { s with now := s.now + ns } := by
  obtain ⟨deadline, hd, h0, hlt⟩ := h
  refine ⟨deadline, hd, h0, lt_of_lt_of_le hlt (toMillis_mono ?_)⟩
  simp

/-- `Expired` looks at the guard's deadline and the clock only. -/
theorem Expired.congr {s t : State} (h : Expired s)
    (hg : t.guard.deadline? = s.guard.deadline?) (hn : t.now = s.now) : Expired t := by
  obtain ⟨deadline, hd, h0, hlt⟩ := h
  exact ⟨deadline, by rw [hg]; exact hd, h0, by rw [hn]; exact hlt⟩

theorem sweepInv_tick {s : State} (h : SweepInv s) (ns : Nat) :
    SweepInv { s with now := s.now + ns } where
  stored := h.stored
  counted := h.counted
  swept := fun nowMs hn => le_trans (h.swept nowMs hn) (toMillis_mono (by simp))
  window := fun hw hg => (h.window hw hg).tick ns
  read := h.read
  marked := fun gen hg hm => (h.marked gen hg hm).tick ns

theorem sweepInv_construct {s : State} (h : SweepInv s) (hg : s.guard = .none)
    (hclear : s.sweeper.inWindow = false)
    (hfresh : nextGeneration s.session.queryGeneration ≠ s.session.timedOutGeneration)
    (timeoutSeconds : Nat) :
    SweepInv { s with
      session := { s.session with
        queryGeneration := nextGeneration s.session.queryGeneration }
      guard := .counted (nextGeneration s.session.queryGeneration) timeoutSeconds } where
  stored := by
    have := h.stored
    rw [hg] at this
    exact this
  counted := fun gen hgen => by simpa [GuardPhase.generation?] using hgen
  swept := h.swept
  window := fun hw => by rw [hclear] at hw; cases hw
  read := fun gen hgen => by
    -- outside the window the sweeper has no generation in hand
    cases hs : s.sweeper <;> simp_all [SweepPhase.generation?, SweepPhase.inWindow]
  marked := fun gen hgen hm => by
    have : nextGeneration s.session.queryGeneration = gen := by
      simpa [GuardPhase.generation?] using hgen
    exact absurd (this.trans hm.symm) hfresh

/-- A step of the constructor or destructor: the atomics follow the guard. Whenever the guard
is already in the sweeper's window or marked, it has its deadline and keeps it. -/
theorem sweepInv_guard {s t : State} (h : SweepInv s) (hst : guardStep s = some t) :
    SweepInv t := by
  have hexp : Expired s → t.guard ≠ .none → Expired t := by
    intro he hne
    cases hg : s.guard <;> simp only [guardStep, hg, reduceCtorEq, Option.some.injEq] at hst <;>
      subst hst <;> simp_all [Expired, GuardPhase.deadline?]
  obtain ⟨hgen, hsweep, hmark, hnow, hquery⟩ :
      (∀ gen, t.guard.generation? = some gen → s.guard.generation? = some gen) ∧
      t.sweeper = s.sweeper ∧ t.session.timedOutGeneration = s.session.timedOutGeneration ∧
      t.now = s.now ∧ t.session.queryGeneration = s.session.queryGeneration := by
    cases hg : s.guard <;> simp only [guardStep, hg, reduceCtorEq, Option.some.injEq] at hst <;>
      subst hst <;> simp [GuardPhase.generation?]
  refine ⟨?_, ?_, ?_, ?_, ?_, ?_⟩
  · have hstored := h.stored
    cases hg : s.guard <;> simp only [guardStep, hg, reduceCtorEq, Option.some.injEq] at hst <;>
      subst hst <;> simp_all [GuardPhase.storedDeadline]
  · intro gen hg
    rw [hquery]
    exact h.counted gen (hgen gen hg)
  · rw [hsweep, hnow]
    exact h.swept
  · intro hw hne
    rw [hsweep] at hw
    have hsg : s.guard ≠ .none := by
      intro hn
      simp [guardStep, hn] at hst
    exact hexp (h.window hw hsg) hne
  · rw [hsweep, hquery]
    exact h.read
  · intro gen hg hm
    rw [hmark] at hm
    have hne : t.guard ≠ .none := by
      intro hn
      rw [hn] at hg
      cases hg
    exact hexp (h.marked gen (hgen gen hg) hm) hne

theorem sweepInv_destroy {s : State} {gen : Nat} {deadline : Int} (h : SweepInv s)
    (hg : s.guard = .live gen deadline) :
    SweepInv { s with
      session := { s.session with queryDeadlineMs := 0 }
      guard := .disarming gen deadline } where
  stored := rfl
  counted := fun gen' hgen => h.counted gen' (by rw [hg]; exact hgen)
  swept := h.swept
  window := fun hw _ => (h.window hw (by rw [hg]; simp)).congr (by rw [hg]; rfl) rfl
  read := h.read
  marked := fun gen' hgen hm => (h.marked gen' (by rw [hg]; exact hgen) hm).congr
    (by rw [hg]; rfl) rfl

/-- A stored deadline belongs to a guard that has it. -/
theorem deadline?_of_storedDeadline {g : GuardPhase} (h : g.storedDeadline ≠ 0) :
    g.deadline? = some g.storedDeadline := by
  cases g <;> simp_all [GuardPhase.storedDeadline, GuardPhase.deadline?]

/-- The step with which the sweeper enters its window: the deadline it read belongs to the
guard in progress, and its clock reading is not ahead of the clock. -/
theorem expired_of_overdue {s : State} {nowMs : Int} (h : SweepInv s)
    (hs : s.sweeper = .sawInFlight nowMs) (h0 : s.session.queryDeadlineMs ≠ 0)
    (hlt : s.session.queryDeadlineMs < nowMs) : Expired s := by
  rw [h.stored] at h0 hlt
  have hle : nowMs ≤ toMillis s.now := h.swept nowMs (by rw [hs]; rfl)
  exact ⟨_, deadline?_of_storedDeadline h0, h0, lt_of_lt_of_le hlt hle⟩

/-- The sweeper moves on to the phase `p` and writes nothing. -/
theorem SweepInv.moveTo {s : State} (h : SweepInv s) (p : SweepPhase)
    (hclock : ∀ nowMs, p.clock? = some nowMs → nowMs ≤ toMillis s.now)
    (hwindow : p.inWindow = true → s.guard ≠ .none → Expired s)
    (hread : ∀ gen, p.generation? = some gen → gen = s.session.queryGeneration) :
    SweepInv { s with sweeper := p } where
  stored := h.stored
  counted := h.counted
  swept := hclock
  window := hwindow
  read := hread
  marked := h.marked

theorem SweepInv.moveToIdle {s : State} (h : SweepInv s) : SweepInv { s with sweeper := .idle } :=
  h.moveTo .idle (by simp [SweepPhase.clock?]) (by simp [SweepPhase.inWindow])
    (by simp [SweepPhase.generation?])

theorem sweepInv_sweep {s : State} (h : SweepInv s) : SweepInv (sweepStep s) := by
  cases hs : s.sweeper with
  | idle =>
      simp only [sweepStep, hs]
      exact h.moveTo _ (by simp [SweepPhase.clock?]) (by simp [SweepPhase.inWindow])
        (by simp [SweepPhase.generation?])
  | clocked nowMs =>
      have hn := h.swept nowMs (by rw [hs]; rfl)
      simp only [sweepStep, hs]
      split
      · exact h.moveTo _ (by simpa [SweepPhase.clock?] using hn) (by simp [SweepPhase.inWindow])
          (by simp [SweepPhase.generation?])
      · exact h.moveToIdle
  | sawInFlight nowMs =>
      simp only [sweepStep, hs]
      split
      · exact h.moveToIdle
      · split
        · exact h.moveToIdle
        · rename_i h0 hle
          have hexp := expired_of_overdue h hs h0 (lt_of_not_ge hle)
          exact h.moveTo _ (by simp [SweepPhase.clock?]) (fun _ _ => hexp)
            (by simp [SweepPhase.generation?])
  | overdue =>
      have hw := h.window (by rw [hs]; rfl)
      simp only [sweepStep, hs]
      exact h.moveTo _ (by simp [SweepPhase.clock?]) (fun _ => hw)
        (by simp [SweepPhase.generation?])
  | gotGeneration gen =>
      have hw := h.window (by rw [hs]; rfl)
      have hr := h.read gen (by rw [hs]; rfl)
      simp only [sweepStep, hs]
      refine ⟨h.stored, h.counted, by simp [SweepPhase.clock?], fun _ => hw,
        by simpa [SweepPhase.generation?] using hr, ?_⟩
      -- the guard marked now is the one in the window
      intro gen' hg _
      exact hw (by intro hn; rw [hn] at hg; cases hg)
  | recorded gen =>
      simp only [sweepStep, hs]
      exact h.moveToIdle

/-- **Every step that keeps the window clear keeps the invariant.** -/
theorem sweepInv_step (s : State) (a : Action) (t : State) (h : SweepInv s)
    (hok : WindowClear s a) (hst : step s a = some t) : SweepInv t := by
  cases a with
  | tick ns =>
      cases hst
      exact sweepInv_tick h ns
  | construct timeoutSeconds =>
      cases hg : s.guard <;> simp only [step, hg, reduceCtorEq, Option.some.injEq] at hst
      subst hst
      have := sweepInv_construct h hg hok.1 hok.2 timeoutSeconds
      simpa [hg] using this
  | guard => exact sweepInv_guard h hst
  | destroy =>
      cases hg : s.guard <;> simp only [step, hg, reduceCtorEq, Option.some.injEq] at hst
      subst hst
      exact sweepInv_destroy h hg
  | sweep =>
      cases hst
      exact sweepInv_sweep h
  | storeCause i c =>
      simp only [step] at hst
      split at hst
      · cases hst
      · cases hst
        exact ⟨h.stored, h.counted, h.swept, h.window, h.read, h.marked⟩
  | interrupt i =>
      simp only [step] at hst
      split at hst
      · cases hst
        exact ⟨h.stored, h.counted, h.swept, h.window, h.read, h.marked⟩
      · cases hst

theorem SweepInv.reportsSound {s : State} (h : SweepInv s) : ReportsSound s := by
  intro gen deadline hg ht
  exact h.marked gen (by rw [hg]; rfl) (by simpa [timedOut] using ht)

theorem SweepInv.interruptsSound {s : State} (h : SweepInv s) : InterruptsSound s := by
  intro hi hne
  refine h.window ?_ hne
  cases hs : s.sweeper <;> simp_all [SweepPhase.interrupts, SweepPhase.inWindow]

/-! ## The condition is needed

A guard without a timeout, constructed against the condition, is at the mercy of the sweeper:
its deadline is `0`, so whatever is recorded or interrupted on its account is wrong. -/

/-- The state after constructing a guard without a timeout. -/
def afterConstruct (s : State) : State :=
  { s with
    session := { s.session with
      queryInFlight := true
      queryDeadlineMs := 0
      queryGeneration := nextGeneration s.session.queryGeneration
      interruptCause := .none }
    guard := .live (nextGeneration s.session.queryGeneration) 0 }

theorem run_construct {s : State} (hg : s.guard = .none) :
    run step s [.construct 0, .guard, .guard, .guard, .guard] = some (afterConstruct s) := by
  simp [run, step, guardStep, hg, deadlineMs, afterConstruct]

/-- A guard without a deadline is never past it. -/
theorem not_expired_of_deadline_zero {s : State} {gen : Nat} (hg : s.guard = .live gen 0) :
    ¬ Expired s := by
  rintro ⟨deadline, hd, h0, -⟩
  rw [hg] at hd
  cases hd
  exact h0 rfl

theorem sweepStep_guard (s : State) : (sweepStep s).guard = s.guard := by
  cases hs : s.sweeper <;> simp only [sweepStep, hs]
  case sawInFlight => split_ifs <;> rfl

/-- From inside its window the sweeper gets to its `Interrupt()` by steps of its own. -/
theorem exists_sweeps_to_interrupt (s : State) (hw : s.sweeper.inWindow = true) :
    ∃ n u, run step s (List.replicate n .sweep) = some u ∧ u.guard = s.guard ∧
      u.sweeper.interrupts = true := by
  cases hs : s.sweeper <;> simp only [hs, SweepPhase.inWindow, Bool.false_eq_true] at hw
  case overdue =>
    refine ⟨2, sweepStep (sweepStep s), rfl, by simp only [sweepStep_guard], ?_⟩
    simp [sweepStep, hs, SweepPhase.interrupts]
  case gotGeneration gen =>
    refine ⟨1, sweepStep s, rfl, sweepStep_guard s, ?_⟩
    simp [sweepStep, hs, SweepPhase.interrupts]
  case recorded gen => exact ⟨0, s, rfl, rfl, by simp [hs, SweepPhase.interrupts]⟩

/-- A construction against the condition can be continued to a wrong report or interrupt. -/
theorem exists_unsound_of_not_windowClear {s : State} (timeoutSeconds : Nat)
    (hg : s.guard = .none) (hbad : ¬ WindowClear s (.construct timeoutSeconds)) :
    ∃ bs u, run step s (.construct 0 :: bs) = some u ∧
      (¬ ReportsSound u ∨ ¬ InterruptsSound u) := by
  have hrun := run_construct hg
  by_cases hw : s.sweeper.inWindow = true
  · obtain ⟨n, u, hu, hug, hui⟩ := exists_sweeps_to_interrupt (afterConstruct s) hw
    refine ⟨[.guard, .guard, .guard, .guard] ++ List.replicate n .sweep, u, ?_, Or.inr ?_⟩
    · rw [← hu]
      exact run_append_of_run hrun _
    · intro hsound
      refine not_expired_of_deadline_zero (s := u) hug (hsound hui ?_)
      rw [hug]
      simp [afterConstruct]
  · refine ⟨[.guard, .guard, .guard, .guard], afterConstruct s, hrun, Or.inl ?_⟩
    intro hsound
    have hmark : nextGeneration s.session.queryGeneration = s.session.timedOutGeneration := by
      by_contra hne
      exact hbad ⟨by simpa using hw, hne⟩
    refine not_expired_of_deadline_zero rfl (hsound _ 0 rfl ?_)
    simp [timedOut, afterConstruct, hmark]

/-! ## The result -/

/-- **Timeout soundness.** In every run in which no guard is constructed inside the sweeper's
window (nor draws the marked generation number), every report and every interrupt on account
of a timeout concerns a guard whose own deadline is nonzero and has elapsed; and the first
construction against this condition can be continued to a wrong report or a wrong interrupt. -/
theorem timeout_sound (now : Int) (as : List Action) (s : State)
    (hmeets : Meets step WindowClear (.initial now) as)
    (hrun : run step (.initial now) as = some s) :
    (ReportsSound s ∧ InterruptsSound s) ∧
    ∀ timeoutSeconds, s.guard = .none → ¬ WindowClear s (.construct timeoutSeconds) →
      ∃ bs u, run step s (.construct 0 :: bs) = some u ∧
        (¬ ReportsSound u ∨ ¬ InterruptsSound u) := by
  have hinv : SweepInv s :=
    run_invariant sweepInv_step (sweepInv_initial now) hmeets hrun
  exact ⟨⟨hinv.reportsSound, hinv.interruptsSound⟩,
    fun timeoutSeconds hg hbad => exists_unsound_of_not_windowClear timeoutSeconds hg hbad⟩

/-- A guard with a timeout of one second, constructed at time `0` and swept two seconds later,
up to the sweeper's `Interrupt()`. -/
def overdueRun : List Action :=
  [.construct 1, .guard, .guard, .guard, .guard, .tick 2000000000,
    .sweep, .sweep, .sweep, .sweep, .sweep]

/-- The guard of `overdueRun` is recorded as timed out and about to be interrupted. -/
def overdueState : State :=
  { now := 2000000000
    session := {
      queryInFlight := true
      queryDeadlineMs := 1000
      queryGeneration := 1
      timedOutGeneration := 1 }
    guard := .live 1 1000
    sweeper := .recorded 1 }

theorem timeout_sound_overdueRun :
    timedOut overdueState 1 = true ∧
    ((ReportsSound overdueState ∧ InterruptsSound overdueState) ∧
      ∀ timeoutSeconds, overdueState.guard = .none →
        ¬ WindowClear overdueState (.construct timeoutSeconds) →
        ∃ bs u, run step overdueState (.construct 0 :: bs) = some u ∧
          (¬ ReportsSound u ∨ ¬ InterruptsSound u)) :=
  ⟨rfl, timeout_sound 0 overdueRun overdueState
    (by
      simp [overdueRun, Meets, WindowClear, SweepPhase.inWindow, nextGeneration,
        State.initial])
    (by rfl)⟩

/-- The sweeper finds the first guard overdue; before it reads the generation that guard is
destroyed and one without a timeout is constructed, which then reports `TimedOut()`. -/
def windowRun : List Action :=
  [.construct 1, .guard, .guard, .guard, .guard, .tick 2000000000, .sweep, .sweep, .sweep,
    .destroy, .guard, .construct 0, .guard, .guard, .guard, .guard, .sweep, .sweep]

theorem timeout_unsound_windowRun :
    ¬ ∀ (now : Int) (as : List Action) (s : State), run step (.initial now) as = some s →
      ReportsSound s ∧ InterruptsSound s := by
  intro hall
  have hrun : run step (.initial 0) windowRun = some
      { now := 2000000000
        session := { queryInFlight := true, queryGeneration := 2, timedOutGeneration := 2 }
        guard := .live 2 0
        sweeper := .recorded 2 } := by rfl
  exact not_expired_of_deadline_zero rfl ((hall 0 windowRun _ hrun).1 2 0 rfl rfl)

end Harbor.QueryTimeout
