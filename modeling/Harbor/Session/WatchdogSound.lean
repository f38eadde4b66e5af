import Harbor.Session.Watchdog

set_option autoImplicit false

/-! # What the watchdog guarantees

Over the steps of `Watchdog`: who waits for whom (`not_both_wait`, `enabled_of_ownerWaits`), the end of the
destructor (`destructor_ends`), what one step can do to the outcome (`Effect`), and what follows for every
interleaving of the two threads, the clock and wake-ups by nothing (`watchdog_sound`).
-/

namespace Harbor.Watchdog

open Harbor.Runs
open Harbor.QueryTimeout (watchdogDeadline)

/-! ## Who waits for whom -/

/-- The destructor waits for the thread: to give back the mutex, or to end. -/
def OwnerWaits (s : State) : Prop :=
  (s.owner = .locking ∧ s.mutex = some .thread) ∨ (s.owner = .joining ∧ s.thread ≠ .ended)

/-- The thread waits for the destructor: for the notification, or to give back the mutex. -/
def ThreadWaits (s : State) : Prop :=
  s.thread = .blocked ∨
    ((s.thread = .entering ∨ ∃ timeout, s.thread = .woken timeout) ∧ s.mutex = some .owner)

/-- The phases of the destructor. -/
def Owner.isDestructing : Owner → Bool
  | .locking | .holding | .marked | .notifying | .joining => true
  | _ => false

section

variable {s t : State} (h : Inv s)
include h

theorem not_both_wait : ¬ (OwnerWaits s ∧ ThreadWaits s) := by
  rintro ⟨⟨-, hmutex⟩ | ⟨hjoining, -⟩, hthread⟩
  · have hholds := h.thread_holds.mpr hmutex
    rcases hthread with heq | ⟨-, howner⟩
    · rw [heq] at hholds
      exact nomatch hholds
    · rw [hmutex] at howner
      exact nomatch howner
  · rcases hthread with heq | ⟨-, howner⟩
    · have hnotified := h.blocked heq
      rw [hjoining] at hnotified
      exact nomatch hnotified
    · have hholds := h.owner_holds.mpr howner
      rw [hjoining] at hholds
      exact nomatch hholds

/-- A thread that is there and does not wait can go on. -/
theorem enabled_of_not_waits (hspawned : s.thread ≠ .unspawned) (hended : s.thread ≠ .ended)
    (hwaits : ¬ ThreadWaits s) : ∃ t, threadStep s = some t := by
  rw [ThreadWaits, not_or, not_and] at hwaits
  obtain ⟨hblocked, hmutex⟩ := hwaits
  -- nobody has the mutex that it wants
  have hfree (hwants : s.thread = .entering ∨ ∃ timeout, s.thread = .woken timeout) : s.mutex = none := by
    cases hholder : s.mutex with
    | none => rfl
    | some holder =>
        cases holder with
        | owner => exact absurd hholder (hmutex hwants)
        | thread =>
            have hholds := h.thread_holds.mpr hholder
            rcases hwants with heq | ⟨b, heq⟩ <;> rw [heq] at hholds <;> exact nomatch hholds
  cases hphase : s.thread with
  | unspawned => exact absurd hphase hspawned
  | blocked => exact absurd hphase hblocked
  | ended => exact absurd hphase hended
  | entering => simp [threadStep, hphase, hfree (Or.inl hphase)]
  | woken timeout => simp [threadStep, hphase, hfree (Or.inr ⟨timeout, hphase⟩)]
  | checking timeout =>
      simp only [threadStep, hphase]
      split_ifs <;> exact ⟨_, rfl⟩
  | drowsy | leaving | overdue | flagged | released | interrupting => simp [threadStep, hphase]

/-- While the destructor waits for the thread, the thread has a step to take. -/
theorem enabled_of_ownerWaits (howner : OwnerWaits s) : ∃ t, threadStep s = some t := by
  have hwaits : ¬ ThreadWaits s := fun hthread => not_both_wait h ⟨howner, hthread⟩
  have hspawned : s.thread ≠ .unspawned := by
    have hphase : s.owner = .locking ∨ s.owner = .joining := howner.imp And.left And.left
    have hactive : s.active = true := by
      apply active_of_owner h <;> rcases hphase with heq | heq <;> simp [heq]
    exact h.spawned_iff.mpr ⟨hactive, by rcases hphase with heq | heq <;> rw [heq] <;> rfl⟩
  refine enabled_of_not_waits h hspawned ?_ hwaits
  rcases howner with ⟨-, hmutex⟩ | ⟨-, hended⟩
  · intro heq
    have hholds := h.thread_holds.mpr hmutex
    rw [heq] at hholds
    exact nomatch hholds
  · exact hended

/-- A destructor that does not wait for the thread has a step to take. -/
theorem enabled_owner (hphase : s.owner.isDestructing = true) (hwaits : ¬ OwnerWaits s) :
    ∃ t, ownerStep s = some t := by
  rw [OwnerWaits, not_or, not_and, not_and, not_not] at hwaits
  cases howner : s.owner with
  | unconstructed | spawning | working | destroyed =>
      rw [howner] at hphase
      cases hphase
  | holding | marked | notifying => simp [ownerStep, howner]
  | joining => simp [ownerStep, howner, hwaits.2 howner]
  | locking =>
      have hmutex : s.mutex = none := by
        cases hholder : s.mutex with
        | none => rfl
        | some holder =>
            cases holder with
            | thread => exact absurd hholder (hwaits.1 howner)
            | owner =>
                have hholds := h.owner_holds.mpr hholder
                rw [howner] at hholds
                cases hholds
      simp [ownerStep, howner, hmutex]

end

/-! ## The destructor ends -/

/-- How many steps the thread has left at most, as long as nothing wakes it. -/
def Thread.rank : Thread → Nat
  | .entering | .woken _ => 7
  | .checking _ => 6
  | .drowsy | .overdue => 5
  | .blocked | .flagged => 4
  | .released => 3
  | .interrupting => 2
  | .leaving => 1
  | .unspawned | .ended => 0

def Owner.rank : Owner → Nat
  | .locking => 5
  | .holding => 4
  | .marked => 3
  | .notifying => 2
  | .joining => 1
  | .unconstructed | .spawning | .working | .destroyed => 0

/-- The notification of a sleeping thread costs less than the destructor's step gains. -/
def State.rank (s : State) : Nat := 4 * s.owner.rank + s.thread.rank

theorem rank_notify (p : Thread) : p.notify.rank ≤ p.rank + 3 := by
  cases p <;> simp [Thread.notify, Thread.rank]

theorem rank_thread {s t : State} (hst : threadStep s = some t) :
    t.thread.rank < s.thread.rank ∧ t.owner = s.owner := by
  cases hphase : s.thread with
  | unspawned | blocked | ended => simp [threadStep, hphase] at hst
  | entering | woken | checking =>
      simp only [threadStep, hphase] at hst
      split_ifs at hst <;> cases hst <;> exact ⟨by simp [Thread.rank], rfl⟩
  | drowsy | leaving | overdue | flagged | released | interrupting =>
      rw [threadStep, hphase] at hst
      cases hst
      exact ⟨by simp [Thread.rank], rfl⟩

theorem rank_owner {s t : State} (hphase : s.owner.isDestructing = true) (hst : ownerStep s = some t) :
    t.rank < s.rank ∧ (t.owner.isDestructing = true ∨ t.owner = .destroyed) := by
  cases howner : s.owner with
  | unconstructed | spawning | working | destroyed =>
      rw [howner] at hphase
      exact nomatch hphase
  | locking =>
      simp only [ownerStep, howner] at hst
      split_ifs at hst
      cases hst
      exact ⟨by simp [State.rank, howner, Owner.rank], Or.inl rfl⟩
  | holding | marked =>
      rw [ownerStep, howner] at hst
      cases hst
      exact ⟨by simp [State.rank, howner, Owner.rank], Or.inl rfl⟩
  | notifying =>
      rw [ownerStep, howner] at hst
      cases hst
      have hnotify := rank_notify s.thread
      refine ⟨?_, Or.inl rfl⟩
      simp only [State.rank, howner, Owner.rank]
      omega
  | joining =>
      simp only [ownerStep, howner] at hst
      split_ifs at hst
      cases hst
      exact ⟨by simp [State.rank, howner, Owner.rank], Or.inr rfl⟩

/-- In the destructor the owner or the thread has a step that leads closer to its end. -/
theorem progress {s : State} (h : Inv s) (hphase : s.owner.isDestructing = true) :
    ∃ a t, (a = .owner ∨ a = .thread) ∧ step s a = some t ∧ t.rank < s.rank ∧
      (t.owner.isDestructing = true ∨ t.owner = .destroyed) := by
  by_cases hwaits : OwnerWaits s
  · obtain ⟨t, ht⟩ := enabled_of_ownerWaits h hwaits
    obtain ⟨hrank, howner⟩ := rank_thread ht
    refine ⟨.thread, t, Or.inr rfl, ht, ?_, Or.inl (by rw [howner]; exact hphase)⟩
    rw [State.rank, State.rank, howner]
    omega
  · obtain ⟨t, ht⟩ := enabled_owner h hphase hwaits
    exact ⟨.owner, t, Or.inl rfl, ht, rank_owner hphase ht⟩

/-- **The destructor comes to its end by steps of the owner and the thread alone.** -/
theorem destructor_ends {s : State} (h : Inv s) (hphase : s.owner.isDestructing = true) :
    ∃ as t, (∀ a ∈ as, a = .owner ∨ a = .thread) ∧ run step s as = some t ∧ t.owner = .destroyed := by
  induction hrank : s.rank using Nat.strong_induction_on generalizing s with
  | _ n ih =>
      subst hrank
      obtain ⟨a, t, ha, ht, hless, hnext⟩ := progress h hphase
      rcases hnext with hgoes | hdone
      · obtain ⟨as, u, has, hu, hend⟩ := ih t.rank hless (inv_step h ht) hgoes rfl
        refine ⟨a :: as, u, ?_, by rw [run_cons_of_step ht, hu], hend⟩
        simp only [List.mem_cons, forall_eq_or_imp]
        exact ⟨ha, has⟩
      · exact ⟨[a], t, by simpa using ha, by rw [run_cons_of_step ht, run_nil], hdone⟩

/-! ## Whole runs -/

/-- The thread looks at `done` after a wait that timed out, and finds it unset. -/
def Elapsed (s : State) : Prop := s.thread = .checking true ∧ s.done = false ∧ s.deadline ≤ s.now

/-- The constructor computes the deadline. -/
def Arms (deadline : Int) (s : State) : Prop :=
  s.owner = .unconstructed ∧ watchdogDeadline s.now s.timeoutSeconds = some deadline

/-- What one step can do to the outcome. -/
structure Effect (s t : State) : Prop where
  flag : t.timedOut = s.timedOut ∨ (s.thread = .overdue ∧ t.timedOut = true)
  calls : t.interrupts = s.interrupts ∨ s.thread = .released
  enters : t.thread = .overdue → s.thread = .overdue ∨ (s.thread = .checking true ∧ s.done = false)
  leaves : s.thread = .overdue → t.thread = .overdue ∨ t.timedOut = true
  settings : t.timeoutSeconds = s.timeoutSeconds
  deadline : t.active = true → (s.active = true ∧ t.deadline = s.deadline) ∨ Arms t.deadline s

/-- A step that neither enters the branch for the deadline nor leaves it. -/
theorem Effect.of_frame {s t : State} (hflag : t.timedOut = s.timedOut) (hcalls : t.interrupts = s.interrupts)
    (hsettings : t.timeoutSeconds = s.timeoutSeconds) (hactive : t.active = s.active)
    (hdeadline : t.deadline = s.deadline) (hthread : t.thread = .overdue ↔ s.thread = .overdue) :
    Effect s t where
  flag := Or.inl hflag
  calls := Or.inl hcalls
  enters := fun heq => Or.inl (hthread.mp heq)
  leaves := fun heq => Or.inl (hthread.mpr heq)
  settings := hsettings
  deadline := fun htrue => Or.inl ⟨by rw [← hactive, htrue], hdeadline⟩

theorem effect_thread {s t : State} (hst : threadStep s = some t) : Effect s t := by
  cases hphase : s.thread with
  | unspawned | blocked | ended => simp [threadStep, hphase] at hst
  | entering | woken =>
      simp only [threadStep, hphase] at hst
      split_ifs at hst
      cases hst
      exact .of_frame rfl rfl rfl rfl rfl (by simp [hphase])
  | checking timeout =>
      simp only [threadStep, hphase] at hst
      split_ifs at hst with hdone htimeout
      · cases hst
        exact .of_frame rfl rfl rfl rfl rfl (by simp [hphase])
      · cases hst
        have hnot : s.done = false := Bool.not_eq_true _ ▸ hdone
        have hchecking : s.thread = .checking true := by rw [hphase, htimeout]
        exact ⟨Or.inl rfl, Or.inl rfl, fun _ => Or.inr ⟨hchecking, hnot⟩, by simp [hphase], rfl,
          fun hactive => Or.inl ⟨hactive, rfl⟩⟩
      · cases hst
        exact .of_frame rfl rfl rfl rfl rfl (by simp [hphase])
  | drowsy | leaving | flagged | interrupting =>
      rw [threadStep, hphase] at hst
      cases hst
      exact .of_frame rfl rfl rfl rfl rfl (by simp [hphase])
  | overdue =>
      rw [threadStep, hphase] at hst
      cases hst
      exact ⟨Or.inr ⟨hphase, rfl⟩, Or.inl rfl, by simp, fun _ => Or.inr rfl, rfl,
        fun hactive => Or.inl ⟨hactive, rfl⟩⟩
  | released =>
      rw [threadStep, hphase] at hst
      cases hst
      exact ⟨Or.inl rfl, Or.inr hphase, by simp, by simp [hphase], rfl,
        fun hactive => Or.inl ⟨hactive, rfl⟩⟩

section

variable {s t : State} (h : Inv s)
include h

theorem effect_owner (hst : ownerStep s = some t) : Effect s t := by
  cases howner : s.owner with
  | destroyed => simp [ownerStep, howner] at hst
  | unconstructed =>
      rw [ownerStep, howner] at hst
      cases hdeadline : watchdogDeadline s.now s.timeoutSeconds with
      | none =>
          rw [hdeadline] at hst
          cases hst
          exact ⟨Or.inl rfl, Or.inl rfl, Or.inl, Or.inl, rfl, by simp⟩
      | some deadline =>
          rw [hdeadline] at hst
          cases hst
          exact ⟨Or.inl rfl, Or.inl rfl, Or.inl, Or.inl, rfl, fun _ => Or.inr ⟨howner, hdeadline⟩⟩
  | spawning =>
      rw [ownerStep, howner] at hst
      cases hst
      have hthread : s.thread = .unspawned := thread_of_early h (by rw [howner]; rfl)
      exact .of_frame rfl rfl rfl rfl rfl (by simp [hthread])
  | notifying =>
      rw [ownerStep, howner] at hst
      cases hst
      have hnotify : s.thread.notify = .overdue ↔ s.thread = .overdue := by
        cases s.thread <;> simp [Thread.notify]
      exact .of_frame rfl rfl rfl rfl rfl hnotify
  | working | holding | marked =>
      rw [ownerStep, howner] at hst
      cases hst
      exact .of_frame rfl rfl rfl rfl rfl Iff.rfl
  | locking | joining =>
      simp only [ownerStep, howner] at hst
      split_ifs at hst
      cases hst
      exact .of_frame rfl rfl rfl rfl rfl Iff.rfl

theorem effect_step {a : Action} (hst : step s a = some t) : Effect s t := by
  cases a with
  | tick ns =>
      cases hst
      exact .of_frame rfl rfl rfl rfl rfl Iff.rfl
  | owner => exact effect_owner h hst
  | thread => exact effect_thread hst
  | timeout =>
      simp only [step, timeoutStep] at hst
      split at hst
      · next hphase =>
        split_ifs at hst
        cases hst
        exact .of_frame rfl rfl rfl rfl rfl (by simp [hphase])
      · next hphase =>
        split_ifs at hst
        cases hst
        exact .of_frame rfl rfl rfl rfl rfl (by simp [hphase])
      · cases hst
  | spurious =>
      simp only [step] at hst
      split at hst
      · next hphase =>
        cases hst
        exact .of_frame rfl rfl rfl rfl rfl (by simp [hphase])
      · cases hst

/-- Nothing moves after the destructor but the clock. -/
theorem step_of_destroyed (hdestroyed : s.owner = .destroyed) {a : Action} (hst : step s a = some t) :
    ∃ ns : Nat, t = { s with now := s.now + ns } := by
  have hthread : s.thread = .unspawned ∨ s.thread = .ended := by
    by_cases hactive : s.active = true
    · exact Or.inr (h.joined hactive hdestroyed)
    · refine Or.inl ?_
      by_contra hne
      exact hactive (h.spawned_iff.mp hne).1
  cases a with
  | tick ns =>
      cases hst
      exact ⟨ns, rfl⟩
  | owner => simp [step, ownerStep, hdestroyed] at hst
  | thread | timeout | spurious =>
      rcases hthread with heq | heq <;> simp [step, threadStep, timeoutStep, heq] at hst

end

theorem inv_run {now : Int} {timeoutSeconds : UInt64} {as : List Action} {s : State}
    (hrun : run step (.initial now timeoutSeconds) as = some s) : Inv s :=
  run_invariant (fun _ _ _ h _ => inv_step h) (inv_initial now timeoutSeconds)
    (meets_true _ _) hrun

section

variable {now : Int} {timeoutSeconds : UInt64} {as : List Action} {s : State}
    (hrun : run step (.initial now timeoutSeconds) as = some s)
include hrun

theorem timeoutSeconds_eq : s.timeoutSeconds = timeoutSeconds :=
  (run_stable (I := Inv) (J := fun s => s.timeoutSeconds = timeoutSeconds)
    (fun _ _ _ h _ => inv_step h) (fun _ _ _ h hj _ hst => (effect_step h hst).settings.trans hj)
    (inv_initial now timeoutSeconds) rfl (meets_true _ _) hrun)

/-- A thread that was in the branch is at its beginning still, or has stored `timed_out`. -/
theorem overdue_or_timedOut
    (honce : Once step (fun s => s.thread = .overdue) (.initial now timeoutSeconds) as) :
    s.thread = .overdue ∨ s.timedOut = true := by
  refine Once.stable (I := Inv) (J := fun s => s.thread = .overdue ∨ s.timedOut = true)
    (fun _ _ _ h => inv_step h) (fun _ => Or.inl) (fun s a t h hj hst => ?_)
    (inv_initial now timeoutSeconds) honce hrun
  rcases hj with hover | hflag
  · exact (effect_step h hst).leaves hover
  · rcases (effect_step h hst).flag with heq | ⟨-, hstored⟩
    · exact Or.inr (heq.trans hflag)
    · exact Or.inr hstored

/-- Such a thread has found `done` unset after the deadline. -/
theorem elapsed_of_overdue (hover : s.thread = .overdue ∨ s.timedOut = true) :
    Once step Elapsed (.initial now timeoutSeconds) as := by
  refine Once.of_run (I := Inv) (Q := fun s => s.thread = .overdue ∨ s.timedOut = true)
    (fun _ _ _ h => inv_step h) (fun s a t h hst hq => ?_) (inv_initial now timeoutSeconds)
    (by simp [State.initial]) hrun hover
  have heffect := effect_step h hst
  rcases hq with hover | hflag
  · refine (heffect.enters hover).imp Or.inl ?_
    rintro ⟨hchecking, hdone⟩
    have hlate : s.thread.late = true := by
      rw [hchecking]
      rfl
    exact ⟨hchecking, hdone, h.late hlate⟩
  · rcases heffect.flag with heq | ⟨hover, -⟩
    · exact Or.inl (Or.inr (heq ▸ hflag))
    · exact Or.inl (Or.inl hover)

theorem timedOut_iff : s.timedOut = true ↔
    Once step (fun s => s.thread = .overdue) (.initial now timeoutSeconds) as ∧ s.thread ≠ .overdue := by
  constructor
  · intro hflag
    refine ⟨?_, fun hphase => ?_⟩
    · refine Once.of_run (I := Inv) (Q := fun s => s.timedOut = true) (fun _ _ _ h => inv_step h)
        (fun s a t h hst hq => ?_) (inv_initial now timeoutSeconds) (nomatch ·) hrun hflag
      rcases (effect_step h hst).flag with heq | ⟨hover, -⟩
      · exact Or.inl (heq ▸ hq)
      · exact Or.inr hover
    · rw [(inv_run hrun).timedOut (by simp [hphase]), hphase] at hflag
      exact nomatch hflag
  · rintro ⟨honce, hnot⟩
    exact (overdue_or_timedOut hrun honce).resolve_left hnot

/-- The deadline of an active watchdog is the one its constructor has computed. -/
theorem arms_of_active (hactive : s.active = true) :
    Once step (Arms s.deadline) (.initial now timeoutSeconds) as := by
  refine Once.of_run (I := Inv) (Q := fun u => u.active = true ∧ u.deadline = s.deadline)
    (fun _ _ _ h => inv_step h) (fun u a t h hst hq => ?_) (inv_initial now timeoutSeconds)
    (by simp [State.initial]) hrun ⟨hactive, rfl⟩
  rcases (effect_step h hst).deadline hq.1 with ⟨htrue, heq⟩ | harms
  · exact Or.inl ⟨htrue, heq ▸ hq.2⟩
  · exact Or.inr (hq.2 ▸ harms)

/-- After the destructor the thread is where it is, and so is the count of the interrupts. -/
theorem frozen_of_destroyed (hdestroyed : s.owner = .destroyed) {bs : List Action} {t : State}
    (hmore : run step s bs = some t) : t.thread = s.thread ∧ t.interrupts = s.interrupts := by
  have hfrozen := run_stable (I := Inv)
    (J := fun u => u.owner = .destroyed ∧ u.thread = s.thread ∧ u.interrupts = s.interrupts)
    (fun _ _ _ h _ => inv_step h) (fun u a t h hj _ hst => ?_) (inv_run hrun) ⟨hdestroyed, rfl, rfl⟩
    (meets_true _ _) hmore
  · exact hfrozen.2
  · obtain ⟨ns, rfl⟩ := step_of_destroyed h hj.1 hst
    exact hj

end

/-- What holds after the steps `as` of a watchdog that was about to be constructed in the state `start`. -/
structure Sound (start : State) (as : List Action) (s : State) : Prop where
  once : s.interrupts ≤ 1
  /-- Whoever calls `Interrupt()` next has stored `timed_out`, after it found `done` unset past the
  deadline. -/
  calls : ∀ a t, step s a = some t → t.interrupts ≠ s.interrupts →
    s.timedOut = true ∧ Once step Elapsed start as
  branch : Once step (fun u => u.thread = .overdue) start as → Once step Elapsed start as
  timedOut_iff : s.timedOut = true ↔
    Once step (fun u => u.thread = .overdue) start as ∧ s.thread ≠ .overdue
  deadline : s.active = true → Once step (Arms s.deadline) start as
  ended : s.owner = .destroyed →
    s.thread = (if start.timeoutSeconds = 0 then .unspawned else .ended) ∧
      ∀ bs t, run step s bs = some t → t.thread = s.thread ∧ t.interrupts = s.interrupts
  waits : ¬ (OwnerWaits s ∧ ThreadWaits s) ∧ (OwnerWaits s → ∃ t, step s .thread = some t)
  /-- No clock, no wake-up by nothing and nobody else is needed to end the destructor. -/
  ends : s.owner.isDestructing = true → ∃ bs t, (∀ a ∈ bs, a = .owner ∨ a = .thread) ∧
    run step s bs = some t ∧ t.owner = .destroyed
  idle : start.timeoutSeconds = 0 → s.thread = .unspawned ∧ s.interrupts = 0 ∧ s.timedOut = false

/-- **The watchdog interrupts at most once, past its deadline and before `done` is set, and its destructor
always comes to an end.** -/
theorem watchdog_sound {now : Int} {timeoutSeconds : UInt64} {as : List Action} {s : State}
    (hrun : run step (.initial now timeoutSeconds) as = some s) :
    Sound (.initial now timeoutSeconds) as s := by
  have h := inv_run hrun
  have hsettings := timeoutSeconds_eq hrun
  have hinactive (hzero : timeoutSeconds = 0) : s.thread = .unspawned := by
    by_contra hne
    exact (h.active_iff.mp (h.spawned_iff.mp hne).1).1 (hsettings.trans hzero)
  refine ⟨?_, fun a t hst hcall => ?_, fun honce => ?_, timedOut_iff hrun, arms_of_active hrun,
    fun hdestroyed => ⟨?_, fun bs t => frozen_of_destroyed hrun hdestroyed⟩,
    ⟨not_both_wait h, enabled_of_ownerWaits h⟩, destructor_ends h, fun hzero => ?_⟩
  · rw [h.interrupts]
    split <;> omega
  · have hreleased : s.thread = .released := (effect_step h hst).calls.resolve_left hcall
    have hflag : s.timedOut = true := by
      rw [h.timedOut (by simp [hreleased]), hreleased]
      rfl
    exact ⟨hflag, elapsed_of_overdue hrun (Or.inr hflag)⟩
  · exact elapsed_of_overdue hrun (overdue_or_timedOut hrun honce)
  · show s.thread = if timeoutSeconds = 0 then .unspawned else .ended
    split_ifs with hzero
    · exact hinactive hzero
    · refine h.joined (h.active_iff.mpr ⟨?_, by simp [hdestroyed]⟩) hdestroyed
      rwa [hsettings]
  · have hthread := hinactive hzero
    have hflag : s.timedOut = false := by
      rw [h.timedOut (by simp [hthread]), hthread]
      rfl
    exact ⟨hthread, interrupts_eq_zero h (by simp [hthread]) (by simp [hthread]), hflag⟩

/-- A query of a second: the clock wakes the thread, and the destructor finds it ended. -/
def interrupted : List Action :=
  [.owner, .owner, .thread, .thread, .thread, .tick 1000000000, .timeout, .thread, .thread, .thread, .thread,
    .thread, .thread, .owner, .owner, .owner, .owner, .owner, .owner]

theorem watchdog_sound_interrupted : ∃ s, run step (.initial 0 1) interrupted = some s ∧
    s.interrupts = 1 ∧ s.owner = .destroyed ∧ Sound (.initial 0 1) interrupted s := by
  have hrun : (run step (.initial 0 1) interrupted).isSome := by rfl
  obtain ⟨s, hs⟩ := Option.isSome_iff_exists.mp hrun
  have hend : (run step (.initial 0 1) interrupted).map (fun s => (s.interrupts, s.owner)) =
      some (1, .destroyed) := by rfl
  rw [hs, Option.map_some, Option.some.injEq, Prod.mk.injEq] at hend
  exact ⟨s, hs, hend.1, hend.2, watchdog_sound hs⟩

end Harbor.Watchdog
