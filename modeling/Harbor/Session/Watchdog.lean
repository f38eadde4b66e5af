import Harbor.Session.Deadline

set_option autoImplicit false

/-! # The watchdog of an ephemeral query

A `QueryTimeoutWatchdog` is an object of the request that runs the query, its owner, and the thread that
the constructor spawns. Every lock, unlock, notification, read and write of the two is one step, and so are
the clock, a wake-up by the clock and a wake-up by nothing. `wait_until` with a predicate is the loop that
it stands for: look at `done` under the mutex, leave if it is set, leave if the last wait came back with
`cv_status::timeout`, otherwise go to sleep, which gives up the mutex in the same step.
-/

namespace Harbor.Watchdog

open Harbor.Runs
open Harbor.QueryTimeout (watchdogDeadline)

/-! ## The state -/

/-- Where the watchdog's thread is. -/
inductive Thread where
  | unspawned
  /-- `std::unique_lock` wants the mutex. -/
  | entering
  /-- It has the mutex, and looks at `done` next; `timeout` is the status of the last wait. -/
  | checking (timeout : Bool)
  /-- It has seen that `done` is not set, and goes to sleep next; it still has the mutex. -/
  | drowsy
  | blocked
  /-- Notified, or woken by the clock or by nothing; it wants the mutex back. -/
  | woken (timeout : Bool)
  /-- The predicate was satisfied; the mutex is given back next. -/
  | leaving
  /-- In the branch for the deadline, before its first statement. -/
  | overdue
  /-- `timed_out` is stored; the mutex is given back next. -/
  | flagged
  /-- `Interrupt()` is called next. -/
  | released
  | interrupting
  | ended
  deriving DecidableEq, Repr

/-- Where the owner is: in the constructor, at work, or in the destructor. -/
inductive Owner where
  | unconstructed
  /-- The deadline is computed; the thread is spawned next. -/
  | spawning
  | working
  /-- The destructor wants the mutex. -/
  | locking
  /-- It has the mutex, and sets `done` next. -/
  | holding
  /-- `done` is set; the mutex is given back next. -/
  | marked
  | notifying
  | joining
  | destroyed
  deriving DecidableEq, Repr

inductive Holder where
  | thread
  | owner
  deriving DecidableEq, Repr

structure State where
  /-- The monotonic clock, in nanoseconds. -/
  now : Int
  timeoutSeconds : UInt64
  active : Bool := false
  /-- What the thread has captured. -/
  deadline : Int := 0
  done : Bool := false
  timedOut : Bool := false
  mutex : Option Holder := none
  thread : Thread := .unspawned
  owner : Owner := .unconstructed
  /-- How often `Interrupt()` was called. -/
  interrupts : Nat := 0
  deriving DecidableEq, Repr

inductive Action where
  | tick (ns : Nat)
  /-- The owner's next step. -/
  | owner
  /-- The thread's next step. -/
  | thread
  /-- The wait comes back with `cv_status::timeout`. -/
  | timeout
  | spurious
  deriving DecidableEq, Repr

/-- `notify_one`. -/
def Thread.notify : Thread → Thread
  | .blocked => .woken false
  | t => t

/-! ## The step function -/

/-- The constructor, the work and the destructor. -/
def ownerStep (s : State) : Option State :=
  match s.owner with
  | .unconstructed =>
      match watchdogDeadline s.now s.timeoutSeconds with
      | none => some { s with active := false, owner := .working }
      | some deadline => some { s with active := true, deadline, owner := .spawning }
  | .spawning => some { s with thread := .entering, owner := .working }
  | .working => some { s with owner := if s.active then .locking else .destroyed }
  | .locking =>
      if s.mutex = none then some { s with mutex := some .owner, owner := .holding } else none
  | .holding => some { s with done := true, owner := .marked }
  | .marked => some { s with mutex := none, owner := .notifying }
  | .notifying => some { s with thread := s.thread.notify, owner := .joining }
  | .joining => if s.thread = .ended then some { s with owner := .destroyed } else none
  | .destroyed => none

/-- The function of the thread. -/
def threadStep (s : State) : Option State :=
  match s.thread with
  | .entering =>
      if s.mutex = none then some { s with mutex := some .thread, thread := .checking false } else none
  | .checking timeout =>
      if s.done then some { s with thread := .leaving }
      else if timeout then some { s with thread := .overdue }
      else some { s with thread := .drowsy }
  | .drowsy => some { s with mutex := none, thread := .blocked }
  | .woken timeout =>
      if s.mutex = none then some { s with mutex := some .thread, thread := .checking timeout } else none
  | .leaving => some { s with mutex := none, thread := .ended }
  | .overdue => some { s with timedOut := true, thread := .flagged }
  | .flagged => some { s with mutex := none, thread := .released }
  | .released => some { s with interrupts := s.interrupts + 1, thread := .interrupting }
  | .interrupting => some { s with thread := .ended }
  | .unspawned | .blocked | .ended => none

/-- The status of a wait is `cv_status::timeout` only once the deadline is reached; a thread that was
notified before can still find it so when it has the mutex back. -/
def timeoutStep (s : State) : Option State :=
  match s.thread with
  | .blocked | .woken _ => if s.deadline ≤ s.now then some { s with thread := .woken true } else none
  | _ => none

def step (s : State) : Action → Option State
  | .tick ns => some { s with now := s.now + ns }
  | .owner => ownerStep s
  | .thread => threadStep s
  | .timeout => timeoutStep s
  | .spurious =>
      match s.thread with
      | .blocked => some { s with thread := .woken false }
      | _ => none

/-! ## The invariant -/

/-- Phases in which the thread has the mutex. -/
def Thread.holds : Thread → Bool
  | .checking _ | .drowsy | .leaving | .overdue | .flagged => true
  | _ => false

/-- Phases that need the deadline to be over. -/
def Thread.late : Thread → Bool
  | .checking timeout | .woken timeout => timeout
  | .overdue | .flagged | .released | .interrupting => true
  | _ => false

/-- Phases of the branch for the deadline in which `timed_out` is stored. -/
def Thread.stored : Thread → Bool
  | .flagged | .released | .interrupting => true
  | _ => false

/-- Phases in which the destructor has the mutex. -/
def Owner.holds : Owner → Bool
  | .holding | .marked => true
  | _ => false

/-- Phases after `done = true`. -/
def Owner.hasMarked : Owner → Bool
  | .marked | .notifying | .joining | .destroyed => true
  | _ => false

/-- Phases after the notification. -/
def Owner.hasNotified : Owner → Bool
  | .joining | .destroyed => true
  | _ => false

/-- Phases before the thread is there. -/
def Owner.isEarly : Owner → Bool
  | .unconstructed | .spawning => true
  | _ => false

theorem Owner.hasMarked_of_hasNotified {o : Owner} (h : o.hasNotified = true) : o.hasMarked = true := by
  cases o <;> first | rfl | exact nomatch h

structure Inv (s : State) : Prop where
  thread_holds : s.thread.holds = true ↔ s.mutex = some .thread
  owner_holds : s.owner.holds = true ↔ s.mutex = some .owner
  done_iff : s.done = true ↔ s.active = true ∧ s.owner.hasMarked = true
  active_iff : s.active = true ↔ s.timeoutSeconds ≠ 0 ∧ s.owner ≠ .unconstructed
  spawned_iff : s.thread ≠ .unspawned ↔ s.active = true ∧ s.owner.isEarly = false
  /-- What is only there when a thread is. -/
  idle : s.active = false → s.owner = .unconstructed ∨ s.owner = .working ∨ s.owner = .destroyed
  /-- The owner cannot have set `done` between the look at it and the sleep. -/
  drowsy : s.thread = .drowsy → s.done = false
  blocked : s.thread = .blocked → s.owner.hasNotified = false
  joined : s.active = true → s.owner = .destroyed → s.thread = .ended
  late : s.thread.late = true → s.deadline ≤ s.now
  timedOut : s.thread ≠ .ended → s.timedOut = s.thread.stored
  interrupts : s.interrupts =
    if s.timedOut = true ∧ (s.thread = .interrupting ∨ s.thread = .ended) then 1 else 0

/-- A watchdog that is about to be constructed. -/
def State.initial (now : Int) (timeoutSeconds : UInt64) : State := { now, timeoutSeconds }

theorem inv_initial (now : Int) (timeoutSeconds : UInt64) : Inv (.initial now timeoutSeconds) := by
  constructor <;> simp [State.initial, Thread.holds, Owner.holds, Owner.hasMarked, Owner.isEarly,
    Thread.late, Thread.stored]

/-! ## One step -/

section

variable {s t : State} (h : Inv s)
include h

theorem inv_tick (ns : Nat) : Inv { s with now := s.now + ns } :=
  { h with late := fun hlate => by have := h.late hlate; show s.deadline ≤ s.now + ns; omega }

/-- The constructor computes the deadline, or finds that there is none. -/
theorem inv_construct (hphase : s.owner = .unconstructed) (hst : ownerStep s = some t) : Inv t := by
  have hthread : s.thread = .unspawned := by
    by_contra hne
    have hearly := (h.spawned_iff.mp hne).2
    rw [hphase] at hearly
    cases hearly
  have hactive : s.active = false := by
    rw [← Bool.not_eq_true, h.active_iff]
    exact fun hboth => hboth.2 hphase
  have hdone : s.done = false := by
    rw [← Bool.not_eq_true, h.done_iff, hactive]
    exact fun hboth => Bool.false_ne_true hboth.1
  have howner : s.mutex ≠ some .owner := by
    rw [ne_eq, ← h.owner_holds, hphase]
    simp [Owner.holds]
  rw [ownerStep, hphase] at hst
  by_cases hzero : s.timeoutSeconds = 0
  · rw [watchdogDeadline, if_pos hzero] at hst
    cases hst
    exact { h with
      owner_holds := iff_of_false (by simp [Owner.holds]) howner
      done_iff := by simp [hdone]
      active_iff := by simp [hzero]
      spawned_iff := by simp [hthread]
      idle := fun _ => by simp
      blocked := fun _ => rfl
      joined := by simp }
  · rw [watchdogDeadline, if_neg hzero] at hst
    cases hst
    exact { h with
      owner_holds := iff_of_false (by simp [Owner.holds]) howner
      done_iff := by simp [hdone, Owner.hasMarked]
      active_iff := by simp [hzero]
      spawned_iff := by simp [hthread, Owner.isEarly]
      idle := by simp
      blocked := fun _ => rfl
      joined := by simp
      late := by simp [hthread, Thread.late] }

/-- A step of the destructor that leaves the thread where it is. -/
theorem inv_advance {o : Owner} {mutex : Option Holder} {done : Bool} (hactive : s.active = true)
    (hearly : s.owner.isEarly = false) (ho : o.isEarly = false)
    (hthread : s.thread.holds = true ↔ mutex = some .thread)
    (howner : o.holds = true ↔ mutex = some .owner) (hdone : done = o.hasMarked)
    (hdrowsy : s.thread = .drowsy → done = false)
    (hblocked : s.thread = .blocked → o.hasNotified = false)
    (hjoined : o = .destroyed → s.thread = .ended) :
    Inv { s with mutex, done, owner := o } where
  thread_holds := hthread
  owner_holds := howner
  done_iff := by simp [hdone, hactive]
  active_iff := by
    have hne : o ≠ .unconstructed := fun heq => by rw [heq] at ho; exact nomatch ho
    simp [hactive, hne, (h.active_iff.mp hactive).1]
  spawned_iff := by simp [h.spawned_iff, hearly, ho]
  idle := fun hidle => by simp [hactive] at hidle
  drowsy := hdrowsy
  blocked := hblocked
  joined := fun _ => hjoined
  late := h.late
  timedOut := h.timedOut
  interrupts := h.interrupts

/-- The destructor runs only when there is a thread. -/
theorem active_of_owner (hun : s.owner ≠ .unconstructed) (hworking : s.owner ≠ .working)
    (hdestroyed : s.owner ≠ .destroyed) : s.active = true := by
  by_contra hidle
  rcases h.idle (Bool.not_eq_true _ ▸ hidle) with heq | heq | heq
  · exact hun heq
  · exact hworking heq
  · exact hdestroyed heq

/-- Before the thread is spawned. -/
theorem thread_of_early (hearly : s.owner.isEarly = true) : s.thread = .unspawned := by
  by_contra hne
  have hlate := (h.spawned_iff.mp hne).2
  rw [hearly] at hlate
  exact nomatch hlate

theorem inv_spawn (hphase : s.owner = .spawning) :
    Inv { s with thread := .entering, owner := .working } := by
  have hactive : s.active = true :=
    active_of_owner h (by simp [hphase]) (by simp [hphase]) (by simp [hphase])
  have hthread : s.thread = .unspawned := thread_of_early h (by rw [hphase]; rfl)
  have hflag : s.timedOut = false := by
    rw [h.timedOut (by simp [hthread]), hthread]
    rfl
  exact { h with
    thread_holds := by rw [← h.thread_holds, hthread]; rfl
    owner_holds := by rw [← h.owner_holds, hphase]; rfl
    done_iff := by rw [h.done_iff, hphase]; rfl
    active_iff := by rw [h.active_iff, hphase]; simp
    spawned_iff := by simp [hactive, Owner.isEarly]
    idle := fun _ => Or.inr (Or.inl rfl)
    drowsy := (nomatch ·)
    blocked := (nomatch ·)
    joined := fun _ => (nomatch ·)
    late := (nomatch ·)
    timedOut := fun _ => hflag
    interrupts := by simp [h.interrupts, hflag] }

/-- The destructor begins, or has nothing to do. -/
theorem inv_destroy (hphase : s.owner = .working) :
    Inv { s with owner := if s.active then .locking else .destroyed } := by
  have howner : s.mutex ≠ some .owner := by
    rw [ne_eq, ← h.owner_holds, hphase]
    simp [Owner.holds]
  have hdone : s.done = false := by
    rw [← Bool.not_eq_true, h.done_iff, hphase]
    exact fun hboth => nomatch hboth.2
  by_cases hactive : s.active = true
  · rw [if_pos hactive]
    exact inv_advance h hactive (by rw [hphase]; rfl) rfl h.thread_holds (iff_of_false (nomatch ·) howner)
      hdone (fun _ => hdone) (fun _ => rfl) (nomatch ·)
  · have hthread : s.thread = .unspawned := by
      by_contra hne
      exact hactive (h.spawned_iff.mp hne).1
    rw [if_neg hactive]
    exact { h with
      owner_holds := iff_of_false (by simp [Owner.holds]) howner
      done_iff := by simp [hdone, hactive]
      active_iff := by rw [h.active_iff, hphase]; simp
      spawned_iff := by simp [hthread, hactive]
      idle := fun _ => Or.inr (Or.inr rfl)
      blocked := by simp [hthread]
      joined := fun htrue => absurd htrue hactive }

/-- The notification wakes the thread if it sleeps. -/
theorem inv_notify (hphase : s.owner = .notifying) :
    Inv { s with thread := s.thread.notify, owner := .joining } := by
  have hactive : s.active = true :=
    active_of_owner h (by simp [hphase]) (by simp [hphase]) (by simp [hphase])
  have hdone : s.done = true := h.done_iff.mpr ⟨hactive, by rw [hphase]; rfl⟩
  -- without its thread this is one of the destructor's steps
  have hother (hne : s.thread ≠ .blocked) : Inv { s with owner := .joining } := by
    refine inv_advance h hactive (by rw [hphase]; rfl) rfl h.thread_holds ?_ hdone h.drowsy
      (absurd · hne) (nomatch ·)
    rw [← h.owner_holds, hphase]
    rfl
  by_cases hblocked : s.thread = .blocked
  · have hflag : s.timedOut = false := by
      rw [h.timedOut (by simp [hblocked]), hblocked]
      rfl
    rw [hblocked, Thread.notify]
    exact { h with
      thread_holds := by rw [← h.thread_holds, hblocked]; rfl
      owner_holds := by rw [← h.owner_holds, hphase]; rfl
      done_iff := by simp [hdone, hactive, Owner.hasMarked]
      active_iff := by rw [h.active_iff, hphase]; simp
      spawned_iff := by simp [hactive, Owner.isEarly]
      idle := fun hidle => by simp [hactive] at hidle
      drowsy := (nomatch ·)
      blocked := (nomatch ·)
      joined := fun _ => (nomatch ·)
      late := (nomatch ·)
      timedOut := fun _ => hflag
      interrupts := by simp [h.interrupts, hflag] }
  · have hnotify : s.thread.notify = s.thread := by
      cases hthread : s.thread <;> first | rfl | exact absurd hthread hblocked
    rw [hnotify]
    exact hother hblocked

theorem inv_owner (hst : ownerStep s = some t) : Inv t := by
  have hactive (hun : s.owner ≠ .unconstructed) (hworking : s.owner ≠ .working)
      (hdestroyed : s.owner ≠ .destroyed) := active_of_owner h hun hworking hdestroyed
  have howner := h.owner_holds
  cases hphase : s.owner with
  | unconstructed => exact inv_construct h hphase hst
  | spawning =>
      rw [ownerStep, hphase] at hst
      cases hst
      exact inv_spawn h hphase
  | working =>
      rw [ownerStep, hphase] at hst
      cases hst
      exact inv_destroy h hphase
  | notifying =>
      rw [ownerStep, hphase] at hst
      cases hst
      exact inv_notify h hphase
  | destroyed =>
      rw [ownerStep, hphase] at hst
      exact nomatch hst
  | locking =>
      simp only [ownerStep, hphase] at hst
      simp only [hphase, ne_eq, reduceCtorEq, not_false_eq_true, forall_const] at hactive
      split_ifs at hst with hmutex
      cases hst
      -- the thread does not have the mutex, so it has not looked at `done` yet
      have hfree : s.thread.holds = false := by
        rw [← Bool.not_eq_true, h.thread_holds, hmutex]
        simp
      have hdone : s.done = false := by
        rw [← Bool.not_eq_true, h.done_iff, hphase]
        exact fun hboth => nomatch hboth.2
      exact inv_advance h hactive (by rw [hphase]; rfl) rfl (by simp [hfree]) (by simp [Owner.holds])
        hdone (fun _ => hdone) (fun _ => rfl) (nomatch ·)
  | holding =>
      rw [ownerStep, hphase] at hst
      simp only [hphase, ne_eq, reduceCtorEq, not_false_eq_true, forall_const] at hactive
      cases hst
      have hmutex : s.mutex = some .owner := howner.mp (by rw [hphase]; rfl)
      refine inv_advance h hactive (by rw [hphase]; rfl) rfl h.thread_holds (by simp [hmutex, Owner.holds])
        rfl (fun hdrowsy => ?_) (fun _ => rfl) (nomatch ·)
      -- a drowsy thread holds the mutex too
      have hboth := h.thread_holds.mp (by rw [hdrowsy]; rfl)
      rw [hmutex] at hboth
      exact nomatch hboth
  | marked =>
      rw [ownerStep, hphase] at hst
      simp only [hphase, ne_eq, reduceCtorEq, not_false_eq_true, forall_const] at hactive
      cases hst
      have hmutex : s.mutex = some .owner := howner.mp (by rw [hphase]; rfl)
      have hdone : s.done = true := h.done_iff.mpr ⟨hactive, by rw [hphase]; rfl⟩
      refine inv_advance h hactive (by rw [hphase]; rfl) rfl ?_ (by simp [Owner.holds]) hdone h.drowsy
        (fun _ => rfl) (nomatch ·)
      rw [h.thread_holds, hmutex]
      simp
  -- `join` waits for the end of the thread, and that is what `destroyed` asks for
  | joining =>
      simp only [ownerStep, hphase] at hst
      simp only [hphase, ne_eq, reduceCtorEq, not_false_eq_true, forall_const] at hactive
      split_ifs at hst with hended
      cases hst
      have hdone : s.done = true := h.done_iff.mpr ⟨hactive, by rw [hphase]; rfl⟩
      refine inv_advance h hactive (by rw [hphase]; rfl) rfl h.thread_holds ?_ hdone h.drowsy
        (fun hblocked => ?_) (fun _ => hended)
      · rw [← howner, hphase]
        rfl
      · rw [hended] at hblocked
        exact nomatch hblocked

/-! ## A step of the thread -/

/-- A step of the thread, to a phase in which `Interrupt()` has not been called or just is. -/
theorem inv_move {p : Thread} {mutex : Option Holder} {timedOut : Bool} {interrupts : Nat}
    (hspawned : s.thread ≠ .unspawned) (hp : p ≠ .unspawned) (hlast : s.thread ≠ .ended)
    (hthread : p.holds = true ↔ mutex = some .thread)
    (howner : s.owner.holds = true ↔ mutex = some .owner)
    (hdrowsy : p = .drowsy → s.done = false) (hblocked : p = .blocked → s.owner.hasNotified = false)
    (hlate : p.late = true → s.deadline ≤ s.now) (hflag : p ≠ .ended → timedOut = p.stored)
    (hcalls : interrupts = if timedOut = true ∧ (p = .interrupting ∨ p = .ended) then 1 else 0) :
    Inv { s with thread := p, mutex, timedOut, interrupts } where
  thread_holds := hthread
  owner_holds := howner
  done_iff := h.done_iff
  active_iff := h.active_iff
  spawned_iff := iff_of_true hp (h.spawned_iff.mp hspawned)
  idle := h.idle
  drowsy := hdrowsy
  blocked := hblocked
  joined := fun hactive hdestroyed => absurd (h.joined hactive hdestroyed) hlast
  late := hlate
  timedOut := hflag
  interrupts := hcalls

/-- A thread that has not called `Interrupt()`. -/
theorem interrupts_eq_zero (hcalling : s.thread ≠ .interrupting) (hended : s.thread ≠ .ended) :
    s.interrupts = 0 := by
  rw [h.interrupts, if_neg]
  rintro ⟨-, heq | heq⟩
  · exact hcalling heq
  · exact hended heq

/-- Who takes the free mutex looks at `done` next. -/
theorem inv_take {timeout : Bool}
    (hphase : s.thread = .entering ∧ timeout = false ∨ s.thread = .woken timeout)
    (hmutex : s.mutex = none) :
    Inv { s with mutex := some .thread, thread := .checking timeout } := by
  have hfree : ¬ s.owner.holds = true := by
    rw [h.owner_holds, hmutex]
    simp
  have hzero : s.interrupts = 0 := by
    apply interrupts_eq_zero h <;> rcases hphase with ⟨heq, -⟩ | heq <;> simp [heq]
  have hflag : s.timedOut = false := by
    rcases hphase with ⟨heq, -⟩ | heq <;> rw [h.timedOut (by simp [heq]), heq] <;> rfl
  refine inv_move h ?_ (by simp) ?_ (by simp [Thread.holds]) (iff_of_false hfree (by simp)) (nomatch ·)
    (nomatch ·) (fun htimeout => h.late ?_) (fun _ => hflag) (by simp [hzero])
  · rcases hphase with ⟨heq, -⟩ | heq <;> simp [heq]
  · rcases hphase with ⟨heq, -⟩ | heq <;> simp [heq]
  · rcases hphase with ⟨-, rfl⟩ | heq
    · exact nomatch htimeout
    · rw [heq]
      exact htimeout

theorem inv_thread (hst : threadStep s = some t) : Inv t := by
  have hflag := h.timedOut
  have hzero := interrupts_eq_zero h
  have hmutex (hholds : s.thread.holds = true) : s.mutex = some .thread := h.thread_holds.mp hholds
  have howner (hholds : s.thread.holds = true) : ¬ s.owner.holds = true := by
    rw [h.owner_holds, hmutex hholds]
    simp
  cases hphase : s.thread with
  | unspawned | blocked | ended =>
      rw [threadStep, hphase] at hst
      exact nomatch hst
  | entering =>
      simp only [threadStep, hphase] at hst
      split_ifs at hst with hfree
      cases hst
      exact inv_take h (Or.inl ⟨hphase, rfl⟩) hfree
  | woken timeout =>
      simp only [threadStep, hphase] at hst
      split_ifs at hst with hfree
      cases hst
      exact inv_take h (Or.inr hphase) hfree
  | checking timeout =>
      have hm := hmutex (by rw [hphase]; rfl)
      have ho := howner (by rw [hphase]; rfl)
      have hf : s.timedOut = false := by rw [hflag (by simp [hphase]), hphase]; rfl
      have hz := hzero (by simp [hphase]) (by simp [hphase])
      have hmove {p : Thread} (hp : p.holds = true) (hdrowsy : p = .drowsy → s.done = false)
          (hlate : p.late = true → s.deadline ≤ s.now) (hstored : p.stored = false) :
          Inv { s with thread := p } := by
        refine inv_move h (by simp [hphase]) ?_ (by simp [hphase]) (iff_of_true hp hm)
          (iff_of_false ho (by simp [hm])) hdrowsy ?_ hlate (fun _ => by rw [hf, hstored]) (by simp [hf, hz])
        · rintro rfl
          exact nomatch hp
        · rintro rfl
          exact nomatch hp
      simp only [threadStep, hphase] at hst
      split_ifs at hst with hdone htimeout
      · cases hst
        exact hmove rfl (nomatch ·) (nomatch ·) rfl
      · cases hst
        refine hmove rfl (nomatch ·) (fun _ => h.late ?_) rfl
        rw [hphase]
        exact htimeout
      · cases hst
        exact hmove rfl (fun _ => Bool.not_eq_true _ ▸ hdone) (nomatch ·) rfl
  | drowsy =>
      rw [threadStep, hphase] at hst
      cases hst
      have ho := howner (by rw [hphase]; rfl)
      have hf : s.timedOut = false := by rw [hflag (by simp [hphase]), hphase]; rfl
      have hz := hzero (by simp [hphase]) (by simp [hphase])
      refine inv_move h (by simp [hphase]) (by simp) (by simp [hphase]) (by simp [Thread.holds])
        (iff_of_false ho (by simp)) (nomatch ·) (fun _ => ?_) (nomatch ·) (fun _ => hf) (by simp [hz])
      -- `done` is not set, so the destructor has not come to the notification
      by_contra hnotified
      have hmarked := Owner.hasMarked_of_hasNotified (Bool.not_eq_false _ ▸ hnotified)
      have hdone := h.done_iff.mpr ⟨(h.spawned_iff.mp (by simp [hphase])).1, hmarked⟩
      rw [h.drowsy hphase] at hdone
      exact nomatch hdone
  | leaving =>
      rw [threadStep, hphase] at hst
      cases hst
      have ho := howner (by rw [hphase]; rfl)
      have hf : s.timedOut = false := by rw [hflag (by simp [hphase]), hphase]; rfl
      have hz := hzero (by simp [hphase]) (by simp [hphase])
      exact inv_move h (by simp [hphase]) (by simp) (by simp [hphase]) (by simp [Thread.holds])
        (iff_of_false ho (by simp)) (nomatch ·) (nomatch ·) (nomatch ·) (absurd rfl ·) (by simp [hf, hz])
  | overdue =>
      rw [threadStep, hphase] at hst
      cases hst
      have hm := hmutex (by rw [hphase]; rfl)
      have ho := howner (by rw [hphase]; rfl)
      have hz := hzero (by simp [hphase]) (by simp [hphase])
      exact inv_move h (by simp [hphase]) (by simp) (by simp [hphase]) (iff_of_true rfl hm)
        (iff_of_false ho (by simp [hm])) (nomatch ·) (nomatch ·) (fun _ => h.late (by rw [hphase]; rfl))
        (fun _ => rfl) (by simp [hz])
  | flagged =>
      rw [threadStep, hphase] at hst
      cases hst
      have ho := howner (by rw [hphase]; rfl)
      have hf : s.timedOut = true := by rw [hflag (by simp [hphase]), hphase]; rfl
      have hz := hzero (by simp [hphase]) (by simp [hphase])
      exact inv_move h (by simp [hphase]) (by simp) (by simp [hphase]) (by simp [Thread.holds])
        (iff_of_false ho (by simp)) (nomatch ·) (nomatch ·) (fun _ => h.late (by rw [hphase]; rfl))
        (fun _ => hf) (by simp [hz])
  | released =>
      rw [threadStep, hphase] at hst
      cases hst
      have hf : s.timedOut = true := by rw [hflag (by simp [hphase]), hphase]; rfl
      have hz := hzero (by simp [hphase]) (by simp [hphase])
      have hm := h.thread_holds
      rw [hphase] at hm
      exact inv_move h (by simp [hphase]) (by simp) (by simp [hphase]) hm h.owner_holds (nomatch ·)
        (nomatch ·) (fun _ => h.late (by rw [hphase]; rfl)) (fun _ => hf) (by simp [hz, hf])
  | interrupting =>
      rw [threadStep, hphase] at hst
      cases hst
      have hf : s.timedOut = true := by rw [hflag (by simp [hphase]), hphase]; rfl
      have hone := h.interrupts
      have hm := h.thread_holds
      rw [hphase] at hm
      exact inv_move h (by simp [hphase]) (by simp) (by simp [hphase]) hm h.owner_holds (nomatch ·)
        (nomatch ·) (nomatch ·) (absurd rfl ·) (by simp [hone, hf, hphase])

/-! ## A step of the wait -/

theorem inv_wake {timeout : Bool} (hphase : s.thread = .blocked ∨ ∃ b, s.thread = .woken b)
    (hlate : timeout = true → s.deadline ≤ s.now) : Inv { s with thread := .woken timeout } := by
  have hf : s.timedOut = false := by
    rcases hphase with heq | ⟨b, heq⟩ <;> rw [h.timedOut (by simp [heq]), heq] <;> rfl
  have hz : s.interrupts = 0 := by
    apply interrupts_eq_zero h <;> rcases hphase with heq | ⟨b, heq⟩ <;> simp [heq]
  have hm : s.mutex ≠ some .thread := by
    rw [ne_eq, ← h.thread_holds]
    rcases hphase with heq | ⟨b, heq⟩ <;> rw [heq] <;> exact (nomatch ·)
  refine inv_move h ?_ (by simp) ?_ (iff_of_false (nomatch ·) hm) h.owner_holds (nomatch ·) (nomatch ·) hlate
    (fun _ => hf) (by simp [hz])
  · rcases hphase with heq | ⟨b, heq⟩ <;> simp [heq]
  · rcases hphase with heq | ⟨b, heq⟩ <;> simp [heq]

theorem inv_step {a : Action} (hst : step s a = some t) : Inv t := by
  cases a with
  | tick ns =>
      cases hst
      exact inv_tick h ns
  | owner => exact inv_owner h hst
  | thread => exact inv_thread h hst
  | timeout =>
      simp only [step, timeoutStep] at hst
      split at hst
      · next hphase =>
        split_ifs at hst with hlate
        cases hst
        exact inv_wake h (Or.inl hphase) fun _ => hlate
      · next timeout hphase =>
        split_ifs at hst with hlate
        cases hst
        exact inv_wake h (Or.inr ⟨timeout, hphase⟩) fun _ => hlate
      · exact nomatch hst
  | spurious =>
      simp only [step] at hst
      split at hst
      · next hphase =>
        cases hst
        exact inv_wake h (Or.inl hphase) (nomatch ·)
      · exact nomatch hst

end

end Harbor.Watchdog
