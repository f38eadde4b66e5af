import Harbor.Session.TimeoutSound

set_option autoImplicit false

/-! # When an interrupt leaves its cause behind

`InterruptSession` first stores the cause and then calls `Connection::Interrupt()`; the sweeper
first records the generation and then interrupts. The constructor of a guard resets
`interrupt_cause` and draws a new generation. If that happens between the two steps of an
interrupter, the interrupt meets the new guard with nothing recorded on its account, and
`Cause()` answers `none` for a query that was stopped.

`AttributionClear` is the condition under which this cannot happen and `interrupt_attributed`
the result.
-/

namespace Harbor.QueryTimeout

open Runs

/-! ## The property and the condition -/

/-- The action `a`, taken in the state `s`, is a `Connection::Interrupt()` of the sweeper or of
an `InterruptSession` call. -/
def issuesInterrupt (s : State) : Action → Bool
  | .sweep => s.sweeper.interrupts
  | .interrupt _ => true
  | _ => false

/-- No guard resets `interrupt_cause` between the store and the `Interrupt()` of an
`InterruptSession` call (unless that guard counts as timed out already), none is constructed
between the sweeper's reading of the generation and its `Interrupt()`, and `InterruptSession`
is called with a cause. -/
def AttributionClear (s : State) : Action → Prop
  | .construct _ => s.sweeper.generation? = none
  | .guard => ∀ gen timeoutSeconds, s.guard = .counted gen timeoutSeconds →
      s.calls = [] ∨ timedOut s gen = true
  | .storeCause _ cause => cause ≠ .none
  | _ => True

/-! ## The invariant -/

/-- Something is recorded that `Cause()` of the guard with this generation will find. -/
def Attributed (s : State) (gen : Nat) : Prop :=
  s.session.interruptCause ≠ .none ∨ timedOut s gen = true

/-- The guard has passed the reset of `interrupt_cause`. -/
def GuardPhase.isReset : GuardPhase → Bool
  | .none | .counted _ _ => false
  | _ => true

/-- In every run that keeps attribution clear: the generation the sweeper holds is the current
one, and a guard past its reset finds a cause recorded while an `InterruptSession` call is
still to interrupt. -/
structure CauseInv (s : State) : Prop where
  counted : ∀ gen, s.guard.generation? = some gen → s.session.queryGeneration = gen
  read : ∀ gen, s.sweeper.generation? = some gen → gen = s.session.queryGeneration
  recorded : ∀ gen, s.sweeper = .recorded gen → s.session.timedOutGeneration = gen
  stored : ∀ gen, s.guard.generation? = some gen → s.guard.isReset = true → s.calls ≠ [] →
    Attributed s gen

theorem causeInv_initial (now : Int) : CauseInv (.initial now) where
  counted := fun gen h => by cases h
  read := fun gen h => by cases h
  recorded := fun gen h => by cases h
  stored := fun gen h => by cases h

theorem causeInv_construct {s : State} (h : CauseInv s) (hclear : s.sweeper.generation? = none)
    (timeoutSeconds : Nat) :
    CauseInv { s with
      session := { s.session with
        queryGeneration := nextGeneration s.session.queryGeneration }
      guard := .counted (nextGeneration s.session.queryGeneration) timeoutSeconds } where
  counted := fun gen hgen => by simpa [GuardPhase.generation?] using hgen
  read := fun gen hgen => by
    have hsome : s.sweeper.generation? = some gen := hgen
    rw [hclear] at hsome
    cases hsome
  recorded := h.recorded
  stored := fun gen _ hreset => by cases hreset

theorem causeInv_guard {s t : State} (h : CauseInv s)
    (hclear : ∀ gen timeoutSeconds, s.guard = .counted gen timeoutSeconds →
      s.calls = [] ∨ timedOut s gen = true)
    (hst : guardStep s = some t) : CauseInv t := by
  obtain ⟨hcounted, hread, hrecorded, hstored⟩ := h
  cases hg : s.guard with
  | none => simp [guardStep, hg] at hst
  | live gen deadline => simp [guardStep, hg] at hst
  | counted gen timeoutSeconds =>
      -- the reset: nothing may be left to attribute, unless the guard is marked
      have hcl := hclear gen timeoutSeconds hg
      simp only [guardStep, hg, Option.some.injEq] at hst
      subst hst
      refine ⟨fun gen' hgen => hcounted gen' (by rw [hg]; exact hgen), hread, hrecorded, ?_⟩
      intro gen' hgen _ hcalls
      have hgg : gen = gen' := by simpa [GuardPhase.generation?] using hgen
      subst hgg
      rcases hcl with hnil | hmark
      · exact absurd hnil hcalls
      · exact Or.inr hmark
  | cleared gen timeoutSeconds | timed gen deadline | armed gen deadline =>
      simp only [guardStep, hg, Option.some.injEq] at hst
      subst hst
      exact ⟨fun gen' hgen => hcounted gen' (by rw [hg]; exact hgen), hread, hrecorded,
        fun gen' hgen _ hcalls => hstored gen' (by rw [hg]; exact hgen) (by rw [hg]; rfl) hcalls⟩
  | disarming gen deadline =>
      simp only [guardStep, hg, Option.some.injEq] at hst
      subst hst
      exact ⟨by simp [GuardPhase.generation?], hread, hrecorded,
        by simp [GuardPhase.generation?]⟩

theorem causeInv_destroy {s : State} {gen : Nat} {deadline : Int} (h : CauseInv s)
    (hg : s.guard = .live gen deadline) :
    CauseInv { s with
      session := { s.session with queryDeadlineMs := 0 }
      guard := .disarming gen deadline } where
  counted := fun gen' hgen => h.counted gen' (by rw [hg]; exact hgen)
  read := h.read
  recorded := h.recorded
  stored := fun gen' hgen _ hcalls => h.stored gen' (by rw [hg]; exact hgen) (by rw [hg]; rfl)
    hcalls

/-- The sweeper moves on to the phase `p` and writes nothing. -/
theorem CauseInv.moveTo {s : State} (h : CauseInv s) (p : SweepPhase)
    (hread : ∀ gen, p.generation? = some gen → gen = s.session.queryGeneration)
    (hrecorded : ∀ gen, p = .recorded gen → s.session.timedOutGeneration = gen) :
    CauseInv { s with sweeper := p } where
  counted := h.counted
  read := hread
  recorded := hrecorded
  stored := h.stored

theorem causeInv_sweep {s : State} (h : CauseInv s) : CauseInv (sweepStep s) := by
  have hidle : CauseInv { s with sweeper := .idle } :=
    h.moveTo .idle (by simp [SweepPhase.generation?]) (by simp)
  cases hs : s.sweeper with
  | idle =>
      simp only [sweepStep, hs]
      exact h.moveTo _ (by simp [SweepPhase.generation?]) (by simp)
  | clocked nowMs =>
      simp only [sweepStep, hs]
      split
      · exact h.moveTo _ (by simp [SweepPhase.generation?]) (by simp)
      · exact hidle
  | sawInFlight nowMs =>
      simp only [sweepStep, hs]
      split_ifs
      · exact hidle
      · exact hidle
      · exact h.moveTo _ (by simp [SweepPhase.generation?]) (by simp)
  | overdue =>
      simp only [sweepStep, hs]
      exact h.moveTo _ (by simp [SweepPhase.generation?]) (by simp)
  | gotGeneration gen =>
      have hr : gen = s.session.queryGeneration := h.read gen (by rw [hs]; rfl)
      simp only [sweepStep, hs]
      refine ⟨h.counted, by simpa [SweepPhase.generation?] using hr,
        fun gen' hg => by cases hg; rfl, ?_⟩
      -- what is recorded is the generation of the guard in progress
      intro gen' hgen _ _
      have hq : s.session.queryGeneration = gen' := h.counted gen' hgen
      exact Or.inr (by simp [timedOut, hr, hq])
  | recorded gen =>
      simp only [sweepStep, hs]
      exact hidle

/-- **Every step that keeps attribution clear keeps the invariant.** -/
theorem causeInv_step (s : State) (a : Action) (t : State) (h : CauseInv s)
    (hok : AttributionClear s a) (hst : step s a = some t) : CauseInv t := by
  cases a with
  | tick ns =>
      cases hst
      exact ⟨h.counted, h.read, h.recorded, h.stored⟩
  | construct timeoutSeconds =>
      cases hg : s.guard <;> simp only [step, hg, reduceCtorEq, Option.some.injEq] at hst
      subst hst
      have := causeInv_construct h hok timeoutSeconds
      simpa [hg] using this
  | guard => exact causeInv_guard h hok hst
  | destroy =>
      cases hg : s.guard <;> simp only [step, hg, reduceCtorEq, Option.some.injEq] at hst
      subst hst
      exact causeInv_destroy h hg
  | sweep =>
      cases hst
      exact causeInv_sweep h
  | storeCause i c =>
      simp only [step] at hst
      split at hst
      · cases hst
      · cases hst
        exact ⟨h.counted, h.read, h.recorded, fun gen _ _ _ => Or.inl hok⟩
  | interrupt i =>
      simp only [step] at hst
      split at hst
      · cases hst
        refine ⟨h.counted, h.read, h.recorded, fun gen hgen hreset hcalls => ?_⟩
        exact h.stored gen hgen hreset (by rintro hnil; simp [hnil] at hcalls)
      · cases hst

/-! ## What is recorded stays recorded -/

/-- The guard `gen` is in flight. -/
def InFlight (s : State) (gen : Nat) : Prop := ∃ deadline, s.guard = .live gen deadline

/-- The same condition along a stretch on which the guard is not destroyed. -/
def ClearAndKept (s : State) (a : Action) : Prop := AttributionClear s a ∧ a ≠ .destroy

/-- A guard in flight stays in flight until it is destroyed; meanwhile no recorded cause is
reset. -/
theorem inFlight_step {gen : Nat} (s : State) (a : Action) (t : State) (h : InFlight s gen)
    (hok : ClearAndKept s a) (hst : step s a = some t) :
    InFlight t gen ∧ (s.session.interruptCause ≠ .none → t.session.interruptCause ≠ .none) := by
  obtain ⟨deadline, hg⟩ := h
  cases a with
  | tick ns =>
      cases hst
      exact ⟨⟨deadline, hg⟩, id⟩
  | construct timeoutSeconds => simp [step, hg] at hst
  | guard => simp [step, guardStep, hg] at hst
  | destroy => exact absurd rfl hok.2
  | sweep =>
      cases hst
      refine ⟨⟨deadline, by rw [sweepStep_guard]; exact hg⟩, ?_⟩
      cases hs : s.sweeper <;> simp only [sweepStep, hs, imp_self]
      case sawInFlight => split_ifs <;> exact id
  | storeCause i c =>
      simp only [step] at hst
      split at hst
      · cases hst
      · cases hst
        exact ⟨⟨deadline, hg⟩, fun _ => hok.1⟩
  | interrupt i =>
      simp only [step] at hst
      split at hst
      · cases hst
        exact ⟨⟨deadline, hg⟩, id⟩
      · cases hst

/-- A guard in flight that is recorded as timed out stays so. -/
theorem timedOut_step {gen : Nat} (s : State) (a : Action) (t : State) (hinv : CauseInv s)
    (h : InFlight s gen) (hmark : timedOut s gen = true) (hok : ClearAndKept s a)
    (hst : step s a = some t) : timedOut t gen = true := by
  obtain ⟨deadline, hg⟩ := h
  cases a with
  | tick ns => cases hst; exact hmark
  | construct timeoutSeconds => simp [step, hg] at hst
  | guard => simp [step, guardStep, hg] at hst
  | destroy => exact absurd rfl hok.2
  | sweep =>
      cases hst
      cases hs : s.sweeper <;> simp only [sweepStep, hs] <;> try exact hmark
      case sawInFlight => split_ifs <;> exact hmark
      case gotGeneration gen' =>
        -- the sweeper can only record the guard in progress again
        have hr : gen' = s.session.queryGeneration := hinv.read gen' (by rw [hs]; rfl)
        have hq : s.session.queryGeneration = gen := hinv.counted gen (by rw [hg]; rfl)
        simp [timedOut, hr, hq]
  | storeCause i c =>
      simp only [step] at hst
      split at hst
      · cases hst
      · cases hst; exact hmark
  | interrupt i =>
      simp only [step] at hst
      split at hst
      · cases hst; exact hmark
      · cases hst

/-- What `Cause()` looks for, as kept along a stretch without a `destroy`. -/
structure Kept (s : State) (gen : Nat) : Prop where
  inFlight : InFlight s gen
  attributed : Attributed s gen

theorem kept_run {gen : Nat} {as : List Action} {s t : State} (hinv : CauseInv s)
    (h : Kept s gen) (hmeets : Meets step ClearAndKept s as) (hrun : run step s as = some t) :
    Kept t gen := by
  refine run_stable (I := CauseInv) (J := fun s => Kept s gen)
    (fun s a t hi hok hst => causeInv_step s a t hi hok.1 hst) ?_ hinv h hmeets hrun
  intro s a t hi hk hok hst
  obtain ⟨hfl, hcause⟩ := inFlight_step s a t hk.inFlight hok hst
  refine ⟨hfl, ?_⟩
  rcases hk.attributed with hc | hmark
  · exact Or.inl (hcause hc)
  · exact Or.inr (timedOut_step s a t hi hk.inFlight hmark hok hst)

theorem cause_run {gen : Nat} {as : List Action} {s t : State} (h : InFlight s gen)
    (hc : s.session.interruptCause ≠ .none) (hmeets : Meets step ClearAndKept s as)
    (hrun : run step s as = some t) : t.session.interruptCause ≠ .none := by
  have hboth := run_invariant
    (I := fun s => InFlight s gen ∧ s.session.interruptCause ≠ .none)
    (fun s a t hi hok hst => by
      obtain ⟨hfl, hcause⟩ := inFlight_step s a t hi.1 hok hst
      exact ⟨hfl, hcause hi.2⟩)
    ⟨h, hc⟩ hmeets hrun
  exact hboth.2

/-- Whatever interrupts a guard in flight has recorded a cause for it before. -/
theorem attributed_of_issuesInterrupt {s t : State} {a : Action} {gen : Nat} (hinv : CauseInv s)
    (hfl : InFlight s gen) (hi : issuesInterrupt s a = true) (hst : step s a = some t) :
    Attributed s gen := by
  obtain ⟨deadline, hg⟩ := hfl
  cases a with
  | sweep =>
      have hint : s.sweeper.interrupts = true := hi
      cases hs : s.sweeper <;> simp only [hs, SweepPhase.interrupts, Bool.false_eq_true] at hint
      case recorded gen' =>
        have hm : s.session.timedOutGeneration = gen' := hinv.recorded gen' hs
        have hr : gen' = s.session.queryGeneration := hinv.read gen' (by rw [hs]; rfl)
        have hq : s.session.queryGeneration = gen := hinv.counted gen (by rw [hg]; rfl)
        exact Or.inr (by simp [timedOut, hm, hr, hq])
  | interrupt i =>
      simp only [step] at hst
      split at hst
      · rename_i hmem
        exact hinv.stored gen (by rw [hg]; rfl) (by rw [hg]; rfl) (List.ne_nil_of_mem hmem)
      · cases hst
  | tick ns => cases hi
  | construct timeoutSeconds => cases hi
  | guard => cases hi
  | destroy => cases hi
  | storeCause i c => cases hi

/-! ## The condition is needed -/

theorem nextGeneration_ne_self (gen : Nat) : nextGeneration gen ≠ gen := by
  unfold nextGeneration
  omega

/-- An interrupt that the guard in flight cannot attribute: after it, `Cause()` is `none`. -/
def LosesCause (u : State) : Prop :=
  ∃ a u' gen, InFlight u gen ∧ issuesInterrupt u a = true ∧ step u a = some u' ∧
    cause u' u' gen = .none

/-- A guard constructed after the sweeper has read the generation is interrupted without a
cause. -/
theorem exists_losesCause_of_construct {s : State} (hinv : CauseInv s) (timeoutSeconds : Nat)
    (hg : s.guard = .none) (hbad : ¬ AttributionClear s (.construct timeoutSeconds)) :
    ∃ bs u, run step s (.construct timeoutSeconds :: bs) = some u ∧ LosesCause u := by
  have hne := nextGeneration_ne_self s.session.queryGeneration
  cases hs : s.sweeper <;> simp [AttributionClear, hs, SweepPhase.generation?] at hbad
  case gotGeneration gen =>
    have hr : gen = s.session.queryGeneration := hinv.read gen (by rw [hs]; rfl)
    refine ⟨[.guard, .guard, .guard, .guard, .sweep], _, by
      simp [run, step, guardStep, sweepStep, hg, hs]; rfl, .sweep, _, _, ⟨_, rfl⟩, rfl, rfl, ?_⟩
    simp [cause, timedOut, sweepStep, hr, hne.symm]
  case recorded gen =>
    have hr : gen = s.session.queryGeneration := hinv.read gen (by rw [hs]; rfl)
    have hm : s.session.timedOutGeneration = gen := hinv.recorded gen hs
    refine ⟨[.guard, .guard, .guard, .guard], _, by
      simp [run, step, guardStep, hg]; rfl, .sweep, _, _, ⟨_, rfl⟩, by
      simp [issuesInterrupt, hs, SweepPhase.interrupts], rfl, ?_⟩
    simp [cause, timedOut, sweepStep, hs, hm, hr, hne.symm]

/-- A guard that resets the cause of an `InterruptSession` call under way is interrupted by
that call without a cause. -/
theorem exists_losesCause_of_reset {s : State} (hbad : ¬ AttributionClear s .guard) :
    ∃ bs u, run step s (.guard :: bs) = some u ∧ LosesCause u := by
  simp only [AttributionClear, not_forall, not_or, Bool.not_eq_true, exists_prop] at hbad
  obtain ⟨gen, timeoutSeconds, hg, hcalls, hmark⟩ := hbad
  obtain ⟨i, hi⟩ := List.exists_mem_of_ne_nil _ hcalls
  refine ⟨[.guard, .guard, .guard], _, by
    simp [run, step, guardStep, hg]; rfl, .interrupt i, _, gen, ⟨_, rfl⟩, rfl, by
    simp [step, hi]; rfl, ?_⟩
  simpa [cause, timedOut] using hmark

/-! ## The result -/

/-- **Interrupts are attributed.** Take any run that keeps attribution clear. If the step `a`
of it is a `Connection::Interrupt()` while the guard `gen` is in flight, then `Cause()`, read
at any later time (its two loads in the states `t` and `u`) before that guard is destroyed, is
not `none`; and the first construction or reset against the condition can be continued to an
interrupt that loses its cause. -/
theorem interrupt_attributed (now : Int) (as : List Action) (s : State)
    (hmeets : Meets step AttributionClear (.initial now) as)
    (hrun : run step (.initial now) as = some s) :
    (∀ (a : Action) (bs cs : List Action) (s' t u : State) (gen : Nat),
      InFlight s gen → issuesInterrupt s a = true → step s a = some s' →
      run step s' bs = some t → run step t cs = some u →
      Meets step AttributionClear s (a :: (bs ++ cs)) → .destroy ∉ bs ++ cs →
      cause t u gen ≠ .none) ∧
    (∀ timeoutSeconds, s.guard = .none → ¬ AttributionClear s (.construct timeoutSeconds) →
      ∃ bs u, run step s (.construct timeoutSeconds :: bs) = some u ∧ LosesCause u) ∧
    (¬ AttributionClear s .guard →
      ∃ bs u, run step s (.guard :: bs) = some u ∧ LosesCause u) := by
  have hinv : CauseInv s := run_invariant causeInv_step (causeInv_initial now) hmeets hrun
  refine ⟨?_, fun timeoutSeconds => exists_losesCause_of_construct hinv timeoutSeconds,
    exists_losesCause_of_reset⟩
  intro a bs cs s' t u gen hfl hi hst hbs hcs hall hkeep
  have hclear : AttributionClear s a := hall.1
  -- the interrupt itself is recorded
  have hattr : Attributed s gen := attributed_of_issuesInterrupt hinv hfl hi hst
  have hkept : ClearAndKept s a := ⟨hclear, by rintro rfl; cases hi⟩
  have hinv' : CauseInv s' := causeInv_step s a s' hinv hclear hst
  have hone : Meets step ClearAndKept s [a] := ⟨hkept, fun _ _ => trivial⟩
  have hk' : Kept s' gen := kept_run hinv ⟨hfl, hattr⟩ hone (by rw [run_cons_of_step hst, run_nil])
  -- and stays recorded up to the first load of `Cause()`
  have hrest : Meets step ClearAndKept s' (bs ++ cs) :=
    (hall.2 s' hst).and_mem fun b hb hd => hkeep (hd ▸ hb)
  obtain ⟨hmbs, hmcs⟩ := (meets_append hbs).mp hrest
  have hkt : Kept t gen := kept_run hinv' hk' hmbs hbs
  unfold cause
  split
  · simp
  · rename_i hno
    rcases hkt.attributed with hc | hmark
    · exact cause_run hkt.inFlight hc hmcs hcs
    · exact absurd hmark hno

/-- An operator interrupts a running query: the guard is in flight, the cause is stored. -/
def cancelRun : List Action :=
  [.construct 0, .guard, .guard, .guard, .guard, .storeCause 7 .userCancel]

def cancelState : State :=
  { now := 0
    session := {
      queryInFlight := true
      queryGeneration := 1
      interruptCause := .userCancel }
    guard := .live 1 0
    calls := [7] }

theorem interrupt_attributed_cancelRun :
    cause { cancelState with calls := [] } { cancelState with calls := [] } 1 ≠ .none :=
  (interrupt_attributed 0 cancelRun cancelState
    (by simp [cancelRun, Meets, step, guardStep, AttributionClear, State.initial,
      SweepPhase.generation?, deadlineMs])
    (by rfl)).1 (.interrupt 7) [] [] _ _ _ 1 ⟨0, rfl⟩ rfl (by rfl) rfl rfl
    ⟨trivial, fun _ _ => trivial⟩ (by simp)

/-- The cause is stored while the first query runs; that query ends, the next guard resets
the cause, and only then comes the `Interrupt()`. -/
def lostCauseRun : List Action :=
  [.construct 0, .guard, .guard, .guard, .guard, .storeCause 7 .userCancel, .destroy, .guard,
    .construct 0, .guard, .guard, .guard, .guard]

theorem interrupt_unattributed_lostCauseRun :
    ¬ ∀ (now : Int) (as : List Action) (s s' : State) (a : Action) (gen : Nat),
      (∀ i c, .storeCause i c ∈ as → c ≠ .none) →
      run step (.initial now) as = some s → InFlight s gen → issuesInterrupt s a = true →
      step s a = some s' → cause s' s' gen ≠ .none := by
  intro hall
  have hrun : run step (.initial 0) lostCauseRun = some
      { now := 0
        session := { queryInFlight := true, queryGeneration := 2 }
        guard := .live 2 0
        calls := [7] } := by rfl
  exact hall 0 lostCauseRun _ _ (.interrupt 7) 2 (by simp [lostCauseRun]) hrun ⟨0, rfl⟩ rfl
    (by simp [step]; rfl) rfl

end Harbor.QueryTimeout
