import Harbor.Lib.Runs

set_option autoImplicit false

/-! # Query timeouts and interrupts of one session

The atomics of a `HarborSession` that three parties share without the session lock: the
`QueryExecutionGuard` of the request that holds the lock, the timeout sweeper
(`SessionManager::TimeoutSweepOnce`) and the callers of `SessionManager::InterruptSession`.
Every atomic load, store or read-modify-write, every reading of the steady clock and every
`Connection::Interrupt()` is one step, so a run of `step` is one interleaving of the three.

The guard is built and destroyed while the session lock is held, so at most one is in
progress at any time; there is one sweeper thread, and any number of `InterruptSession`
calls may be under way at once.
-/

namespace Harbor.QueryTimeout

/-! ## The clock -/

/-- 64-bit two's complement. -/
def wrap64 (x : Int) : Int := Int.bmod x (2 ^ 64)

/-- `duration_cast<milliseconds>` of a time point in nanoseconds: rounded towards zero. -/
def toMillis (ns : Int) : Int := ns.tdiv 1000000

/-- The deadline a `QueryExecutionGuard` computes when the steady clock shows `now`
nanoseconds: `now + seconds(static_cast<int64_t>(timeout_seconds))` in 64-bit nanoseconds,
cast to milliseconds; `0` when no timeout is set. -/
def deadlineMs (now : Int) (timeoutSeconds : Nat) : Int :=
  if timeoutSeconds > 0 then
    toMillis (wrap64 (now + wrap64 (wrap64 timeoutSeconds * 1000000000)))
  else 0

theorem toMillis_mono {a b : Int} (h : a ≤ b) : toMillis a ≤ toMillis b :=
  Int.tdiv_le_tdiv (by omega) h

/-! ## The shared atomics -/

/-- Why a query was interrupted. -/
inductive InterruptCause where
  | none
  | timeout
  | userCancel
  | disconnect
  deriving DecidableEq, Repr

/-- The atomics of a `HarborSession`. `queryGeneration` and `timedOutGeneration` are
`uint64_t`: they count modulo `2 ^ 64`. -/
structure SessionAtomics where
  queryInFlight : Bool := false
  queryDeadlineMs : Int := 0
  queryGeneration : Nat := 0
  timedOutGeneration : Nat := 0
  interruptCause : InterruptCause := .none
  deriving DecidableEq, Repr

/-- The next value of the `uint64_t` counter `query_generation`. -/
def nextGeneration (gen : Nat) : Nat := (gen + 1) % 2 ^ 64

/-! ## The three parties -/

/-- How far the `QueryExecutionGuard` of the lock holder has got. `gen` is `my_generation`. -/
inductive GuardPhase where
  /-- No guard. -/
  | none
  /-- Constructor, after `query_generation.fetch_add`. -/
  | counted (gen : Nat) (timeoutSeconds : Nat)
  /-- Constructor, after the reset of `interrupt_cause`. -/
  | cleared (gen : Nat) (timeoutSeconds : Nat)
  /-- Constructor, after reading the clock. -/
  | timed (gen : Nat) (deadline : Int)
  /-- Constructor, after the store to `query_deadline_ms`. -/
  | armed (gen : Nat) (deadline : Int)
  /-- Constructed: `query_in_flight` is set. -/
  | live (gen : Nat) (deadline : Int)
  /-- Destructor, after clearing `query_deadline_ms`. -/
  | disarming (gen : Nat) (deadline : Int)
  deriving DecidableEq, Repr

/-- How far the sweeper has got with this session in the current `TimeoutSweepOnce`. -/
inductive SweepPhase where
  | idle
  /-- `now_ms` is read. -/
  | clocked (nowMs : Int)
  /-- `query_in_flight` was seen true. -/
  | sawInFlight (nowMs : Int)
  /-- `query_deadline_ms` was seen set and overdue. -/
  | overdue
  /-- `query_generation` is read. -/
  | gotGeneration (gen : Nat)
  /-- `timed_out_generation` is written; `Interrupt()` comes next. -/
  | recorded (gen : Nat)
  deriving DecidableEq, Repr

/-- One session together with everybody who works on its atomics. `calls` are the
`InterruptSession` calls that have stored their cause and not yet called `Interrupt()`. -/
structure State where
  /-- The steady clock, in nanoseconds. -/
  now : Int
  session : SessionAtomics := {}
  guard : GuardPhase := .none
  sweeper : SweepPhase := .idle
  calls : List Nat := []
  deriving DecidableEq, Repr

/-- A session nobody has used yet, at the time `now`. -/
def State.initial (now : Int) : State := { now }

inductive Action where
  /-- Time passes. -/
  | tick (ns : Nat)
  /-- The lock holder starts constructing a guard: `fetch_add` on `query_generation`. -/
  | construct (timeoutSeconds : Nat)
  /-- The next step of the constructor or destructor in progress. -/
  | guard
  /-- The lock holder starts destroying the guard: `query_deadline_ms := 0`. -/
  | destroy
  /-- The sweeper's next step. -/
  | sweep
  /-- `InterruptSession`, call `i`: the store to `interrupt_cause`. -/
  | storeCause (i : Nat) (cause : InterruptCause)
  /-- `InterruptSession`, call `i`: `Connection::Interrupt()`. -/
  | interrupt (i : Nat)
  deriving DecidableEq, Repr

/-! ## The step function -/

/-- The next step of `QueryExecutionGuard::QueryExecutionGuard` or of its destructor. -/
def guardStep (s : State) : Option State :=
  match s.guard with
  | .none => none
  | .counted gen timeoutSeconds =>
      some { s with
        session := { s.session with interruptCause := .none }
        guard := .cleared gen timeoutSeconds }
  | .cleared gen timeoutSeconds =>
      some { s with guard := .timed gen (deadlineMs s.now timeoutSeconds) }
  | .timed gen deadline =>
      some { s with
        session := { s.session with queryDeadlineMs := deadline }
        guard := .armed gen deadline }
  | .armed gen deadline =>
      some { s with
        session := { s.session with queryInFlight := true }
        guard := .live gen deadline }
  | .live _ _ => none
  | .disarming _ _ =>
      some { s with
        session := { s.session with queryInFlight := false }
        guard := .none }

/-- The sweeper's next step on this session (`SessionManager::TimeoutSweepOnce`). -/
def sweepStep (s : State) : State :=
  match s.sweeper with
  | .idle => { s with sweeper := .clocked (toMillis s.now) }
  | .clocked nowMs =>
      { s with sweeper := if s.session.queryInFlight then .sawInFlight nowMs else .idle }
  | .sawInFlight nowMs =>
      if s.session.queryDeadlineMs = 0 then { s with sweeper := .idle }
      else if nowMs ≤ s.session.queryDeadlineMs then { s with sweeper := .idle }
      else { s with sweeper := .overdue }
  | .overdue => { s with sweeper := .gotGeneration s.session.queryGeneration }
  | .gotGeneration gen =>
      { s with
        session := { s.session with timedOutGeneration := gen }
        sweeper := .recorded gen }
  -- `Connection::Interrupt()`: no atomic of the session changes
  | .recorded _ => { s with sweeper := .idle }

def step (s : State) : Action → Option State
  | .tick ns => some { s with now := s.now + ns }
  | .construct timeoutSeconds =>
      match s.guard with
      | .none =>
          let gen := nextGeneration s.session.queryGeneration
          some { s with
            session := { s.session with queryGeneration := gen }
            guard := .counted gen timeoutSeconds }
      | _ => none
  | .guard => guardStep s
  | .destroy =>
      match s.guard with
      | .live gen deadline =>
          some { s with
            session := { s.session with queryDeadlineMs := 0 }
            guard := .disarming gen deadline }
      | _ => none
  | .sweep => some (sweepStep s)
  | .storeCause i cause =>
      if i ∈ s.calls then none
      else some { s with
        session := { s.session with interruptCause := cause }
        calls := i :: s.calls }
  | .interrupt i =>
      if i ∈ s.calls then some { s with calls := s.calls.erase i } else none

/-! ## What the guard reports -/

/-- `QueryExecutionGuard::TimedOut` for the guard with `my_generation = gen`. -/
def timedOut (s : State) (gen : Nat) : Bool := s.session.timedOutGeneration == gen

/-- `QueryExecutionGuard::Cause`: two loads, the first in the state `s`, the second in the
state `t`, which is the same or a later one. -/
def cause (s t : State) (gen : Nat) : InterruptCause :=
  if timedOut s gen then .timeout else t.session.interruptCause

end Harbor.QueryTimeout
