import Harbor.Lib.Runs
import Harbor.Lib.Bytes

set_option autoImplicit false

/-! # The server of the process

`HarborServerState` holds the one server of the process, and `Start`, `Stop` and `Wait` may be
called by any number of threads. The model is a step function: each critical section under
`state_mu` and each blocking step is one action, so a run of `step` is one interleaving.

`Start` keeps `state_mu` while it constructs, binds, registers and starts to listen, so it is a
sequence of actions during which no other call gets the mutex. `Stop` takes the server out in one
critical section and closes it afterwards without the mutex. `Wait` is one critical section that
ends in `cv.wait`, and one more for every time it wakes up.
-/

namespace Harbor.Server

/-! ## Servers -/

/-- A `HarborHttpServer`: its identity as an object and the canonical form of its `ListenUri()`. -/
structure HttpServer where
  serial : Nat
  canonicalUri : Bytes
  deriving DecidableEq, Repr

/-- How far `HarborServerState::Start` has got, under the mutex. -/
inductive StartPhase where
  /-- `server` was seen null; the new server is constructed. -/
  | constructed
  /-- `Bind()` has returned. -/
  | bound
  /-- `RegisterBuiltinHandlers()` has returned. -/
  | registered
  /-- `StartListening()` has returned: the listener thread runs. -/
  | listening
  deriving DecidableEq, Repr

/-- How far `HarborHttpServer::Close()` has got. -/
inductive ClosePhase where
  | entered
  /-- `StopAccepting()` has returned. -/
  | stoppedAccepting
  /-- `ShutdownHandlers()` has returned; the drain loop comes next. -/
  | draining
  /-- The drain loop is left; the listener is joined and the handlers are destroyed next. -/
  | drained
  deriving DecidableEq, Repr

structure Starting where
  server : HttpServer
  phase : StartPhase
  deriving DecidableEq, Repr

/-- A call of `Stop` that owns `to_destroy` and is inside its `Close()`. -/
structure Closing where
  server : HttpServer
  phase : ClosePhase
  deriving DecidableEq, Repr

/-- A call of `Wait` that is blocked in `cv.wait`; `notified` when `notify_all` has been called
since it last went to sleep. -/
structure Waiter where
  call : Nat
  myGeneration : Nat
  notified : Bool
  deriving DecidableEq, Repr

/-- What the calls have done so far, oldest first. Nothing in the source reads it. -/
inductive Event where
  | started (generation : Nat)
  | stopped (generation : Nat)
  | waitBegan (call generation : Nat)
  | waitReturned (call generation : Nat)
  deriving DecidableEq, Repr

/-- `HarborServerState` and the calls in progress. `starting` is the call of `Start` that holds
`state_mu`. The two counters are `uint64_t` in the source and go up by one with each server that is
installed; a process is taken to install fewer than 2^64, so that they do not wrap around. -/
structure State where
  server : Option HttpServer := none
  generation : Nat := 0
  stoppedGeneration : Nat := 0
  starting : Option Starting := none
  closing : List Closing := []
  waiters : List Waiter := []
  /-- The number of `HarborHttpServer` objects constructed so far. -/
  constructed : Nat := 0
  log : List Event := []
  deriving DecidableEq, Repr

/-- No server, and nobody has called anything yet. -/
def State.initial : State := {}

inductive Action where
  /-- `Start`: lock `state_mu`, look at `server`, construct the new server. -/
  | startEnter (canonicalUri : Bytes)
  /-- `Start`: `Bind()` returns or throws. -/
  | startBind (ok : Bool)
  /-- `Start`: `RegisterBuiltinHandlers()` returns or throws (a malformed CORS setting). -/
  | startRegister (ok : Bool)
  /-- `Start`: `StartListening()` returns or throws (no thread). -/
  | startListen (ok : Bool)
  /-- `Start`: install the server and unlock. -/
  | startInstall
  /-- `Stop`: its critical section. -/
  | stop (canonicalUri : Bytes)
  /-- The next step of the `Close()` of this server; `drained` when `DrainActiveRequests` has seen
  no active request. -/
  | close (serial : Nat) (drained : Bool)
  /-- `Wait`: lock, capture the generation, check the condition, go to sleep. -/
  | waitBegin (call : Nat)
  /-- `Wait`: wake up (notified or not), lock, check the condition again. -/
  | wake (call : Nat)
  deriving DecidableEq, Repr

/-! ## The step function -/

/-- `HarborServerState::Start`, the part before the first blocking call. -/
def startEnter (s : State) (canonicalUri : Bytes) : Option State :=
  match s.starting with
  | some _ => none
  | none =>
      match s.server with
      -- "harbor server is already running": the exception unlocks
      | some _ => some s
      | none =>
          some { s with
            starting := some ⟨⟨s.constructed, canonicalUri⟩, .constructed⟩
            constructed := s.constructed + 1 }

/-- The next call of `Start`, expected in the phase `before`: on success the phase is `after`; when
it throws, the server is destroyed without ever having listened and the mutex is released. -/
def startStep (s : State) (before after : StartPhase) (ok : Bool) : Option State :=
  match s.starting with
  | none => none
  | some starting =>
      if starting.phase = before then
        if ok then some { s with starting := some { starting with phase := after } }
        else some { s with starting := none }
      else none

/-- `server = std::move(srv); generation++;` -/
def startInstall (s : State) : Option State :=
  match s.starting with
  | none => none
  | some starting =>
      if starting.phase = .listening then
        some { s with
          server := some starting.server
          generation := s.generation + 1
          starting := none
          log := s.log ++ [.started (s.generation + 1)] }
      else none

/-- `HarborServerState::Stop` up to the end of its critical section. -/
def stop (s : State) (canonicalUri : Bytes) : Option State :=
  match s.starting with
  | some _ => none
  | none =>
      match s.server with
      | none => some s
      | some server =>
          if server.canonicalUri ≠ canonicalUri then some s
          else
            some { s with
              server := none
              stoppedGeneration := s.generation
              closing := s.closing ++ [⟨server, .entered⟩]
              waiters := s.waiters.map fun w => { w with notified := true }
              log := s.log ++ [.stopped s.generation] }

/-- The next step of `HarborHttpServer::Close`; `none` when it has completed. -/
def Closing.step (closing : Closing) (drained : Bool) : Option Closing :=
  match closing.phase with
  | .entered => some { closing with phase := .stoppedAccepting }
  | .stoppedAccepting => some { closing with phase := .draining }
  -- a drain attempt that times out is followed by another one
  | .draining => some { closing with phase := if drained then .drained else .draining }
  | .drained => none

/-- One step of the `Close()` of the server `serial`. -/
def close (s : State) (serial : Nat) (drained : Bool) : Option State :=
  if s.closing.any (·.server.serial = serial) then
    some { s with
      closing := s.closing.filterMap fun c =>
        if c.server.serial = serial then c.step drained else some c }
  else none

/-- `HarborServerState::Wait` up to the first time it sleeps. -/
def waitBegin (s : State) (call : Nat) : Option State :=
  match s.starting with
  | some _ => none
  | none =>
      if s.waiters.any (·.call = call) then none
      else
        match s.server with
        -- "harbor_wait called with no server running"
        | none => some s
        | some _ =>
            let log := s.log ++ [.waitBegan call s.generation]
            if s.stoppedGeneration ≥ s.generation then
              some { s with log := log ++ [.waitReturned call s.generation] }
            else some { s with waiters := s.waiters ++ [⟨call, s.generation, false⟩], log }

/-- `cv.wait` of one blocked call wakes up. -/
def wake (s : State) (call : Nat) : Option State :=
  match s.starting with
  | some _ => none
  | none =>
      match s.waiters.find? (·.call = call) with
      | none => none
      | some w =>
          if s.stoppedGeneration ≥ w.myGeneration then
            some { s with
              waiters := s.waiters.filter (·.call ≠ call)
              log := s.log ++ [.waitReturned call w.myGeneration] }
          else
            some { s with
              waiters := s.waiters.map fun v =>
                if v.call = call then { v with notified := false } else v }

def step (s : State) : Action → Option State
  | .startEnter canonicalUri => startEnter s canonicalUri
  | .startBind ok => startStep s .constructed .bound ok
  | .startRegister ok => startStep s .bound .registered ok
  | .startListen ok => startStep s .registered .listening ok
  | .startInstall => startInstall s
  | .stop canonicalUri => stop s canonicalUri
  | .close serial drained => close s serial drained
  | .waitBegin call => waitBegin s call
  | .wake call => wake s call

/-! ## What a call can do -/

/-- Before `StartListening()` a new server is local to `Start`; the other calls do not see it. -/
theorem startEnter_cases {s t : State} {canonicalUri : Bytes}
    (h : startEnter s canonicalUri = some t) :
    s.starting = none ∧ (t = s ∨ s.server = none ∧ t = { s with
      starting := some ⟨⟨s.constructed, canonicalUri⟩, .constructed⟩
      constructed := s.constructed + 1 }) := by
  unfold startEnter at h
  cases hstarting : s.starting with
  | some starting => simp [hstarting] at h
  | none =>
      refine ⟨rfl, ?_⟩
      cases hserver : s.server with
      | some server =>
          left
          simpa [hstarting, hserver] using h.symm
      | none =>
          right
          refine ⟨rfl, ?_⟩
          simpa [hstarting, hserver] using h.symm

theorem startStep_cases {s t : State} {before after : StartPhase} {ok : Bool}
    (h : startStep s before after ok = some t) :
    ∃ server, s.starting = some ⟨server, before⟩ ∧
      t = { s with starting := if ok then some ⟨server, after⟩ else none } := by
  unfold startStep at h
  cases hstarting : s.starting with
  | none => simp [hstarting] at h
  | some starting =>
      obtain ⟨server, phase⟩ := starting
      simp only [hstarting] at h
      by_cases hphase : phase = before
      · rw [if_pos hphase] at h
        refine ⟨server, by rw [hphase], ?_⟩
        cases ok with
        | false => simpa using h.symm
        | true => simpa using h.symm
      · rw [if_neg hphase] at h
        cases h

theorem startInstall_cases {s t : State} (h : startInstall s = some t) :
    ∃ server, s.starting = some ⟨server, .listening⟩ ∧ t = { s with
      server := some server
      generation := s.generation + 1
      starting := none
      log := s.log ++ [.started (s.generation + 1)] } := by
  unfold startInstall at h
  cases hstarting : s.starting with
  | none => simp [hstarting] at h
  | some starting =>
      obtain ⟨server, phase⟩ := starting
      simp only [hstarting] at h
      by_cases hphase : phase = .listening
      · rw [if_pos hphase] at h
        exact ⟨server, by rw [hphase], by simpa using h.symm⟩
      · rw [if_neg hphase] at h
        cases h

/-- `Stop` has no effect, or it takes out the server it was meant for. -/
theorem stop_cases {s t : State} {canonicalUri : Bytes} (h : stop s canonicalUri = some t) :
    s.starting = none ∧
      ((∀ server, s.server = some server → server.canonicalUri ≠ canonicalUri) ∧ t = s ∨
        ∃ server, s.server = some server ∧ server.canonicalUri = canonicalUri ∧ t = { s with
          server := none
          stoppedGeneration := s.generation
          closing := s.closing ++ [⟨server, .entered⟩]
          waiters := s.waiters.map fun w => { w with notified := true }
          log := s.log ++ [.stopped s.generation] }) := by
  unfold stop at h
  cases hstarting : s.starting with
  | some starting => simp [hstarting] at h
  | none =>
      refine ⟨rfl, ?_⟩
      cases hserver : s.server with
      | none =>
          left
          refine ⟨by simp, ?_⟩
          simpa [hstarting, hserver] using h.symm
      | some server =>
          simp only [hstarting, hserver] at h
          by_cases huri : server.canonicalUri = canonicalUri
          · right
            rw [if_neg (not_not.mpr huri)] at h
            exact ⟨server, rfl, huri, by simpa using h.symm⟩
          · left
            rw [if_pos huri] at h
            refine ⟨?_, by simpa using h.symm⟩
            intro other hother
            cases hother
            exact huri

theorem close_cases {s t : State} {serial : Nat} {drained : Bool}
    (h : close s serial drained = some t) :
    t = { s with closing := s.closing.filterMap fun c =>
      if c.server.serial = serial then c.step drained else some c } := by
  unfold close at h
  split at h
  · simpa using h.symm
  · cases h

theorem waitBegin_cases {s t : State} {call : Nat} (h : waitBegin s call = some t) :
    s.starting = none ∧ (∀ w ∈ s.waiters, w.call ≠ call) ∧
      (t = s ∨ ∃ server, s.server = some server ∧
        (s.generation ≤ s.stoppedGeneration ∧ t = { s with
            log := s.log ++ [.waitBegan call s.generation] ++ [.waitReturned call s.generation] } ∨
          s.stoppedGeneration < s.generation ∧ t = { s with
            waiters := s.waiters ++ [⟨call, s.generation, false⟩]
            log := s.log ++ [.waitBegan call s.generation] })) := by
  unfold waitBegin at h
  cases hstarting : s.starting with
  | some starting => simp [hstarting] at h
  | none =>
      refine ⟨rfl, ?_⟩
      simp only [hstarting] at h
      by_cases hcall : s.waiters.any (·.call = call)
      · simp [hcall] at h
      · rw [if_neg hcall] at h
        refine ⟨by simpa using hcall, ?_⟩
        cases hserver : s.server with
        | none =>
            left
            simpa [hserver] using h.symm
        | some server =>
            right
            refine ⟨server, rfl, ?_⟩
            simp only [hserver] at h
            by_cases hstopped : s.stoppedGeneration ≥ s.generation
            · left
              rw [if_pos hstopped] at h
              exact ⟨hstopped, by simpa using h.symm⟩
            · right
              rw [if_neg hstopped] at h
              exact ⟨by omega, by simpa using h.symm⟩

theorem wake_cases {s t : State} {call : Nat} (h : wake s call = some t) :
    s.starting = none ∧ ∃ w ∈ s.waiters, w.call = call ∧
      (w.myGeneration ≤ s.stoppedGeneration ∧ t = { s with
          waiters := s.waiters.filter (·.call ≠ call)
          log := s.log ++ [.waitReturned call w.myGeneration] } ∨
        s.stoppedGeneration < w.myGeneration ∧ t = { s with
          waiters := s.waiters.map fun v =>
            if v.call = call then { v with notified := false } else v }) := by
  unfold wake at h
  cases hstarting : s.starting with
  | some starting => simp [hstarting] at h
  | none =>
      refine ⟨rfl, ?_⟩
      simp only [hstarting] at h
      cases hfind : s.waiters.find? (·.call = call) with
      | none => simp [hfind] at h
      | some w =>
          have hmem := List.mem_of_find?_eq_some hfind
          have hcall : w.call = call := by simpa using List.find?_some hfind
          refine ⟨w, hmem, hcall, ?_⟩
          simp only [hfind] at h
          by_cases hstopped : s.stoppedGeneration ≥ w.myGeneration
          · left
            rw [if_pos hstopped] at h
            exact ⟨hstopped, by simpa using h.symm⟩
          · right
            rw [if_neg hstopped] at h
            exact ⟨by omega, by simpa using h.symm⟩

end Harbor.Server
