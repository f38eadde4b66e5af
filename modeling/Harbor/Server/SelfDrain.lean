import Harbor.Server.State

set_option autoImplicit false

/-! # The threads that close a server

The threads of the process over the calls of `Server.State`: a thread may be inside a request of a
server, with an `ActiveRequestGuard` of it alive, and may be inside the `Close()` of one. The SQL of a
request runs on the thread of the request, and the functions it calls (`harbor_stop`, `quack_stop`)
call `Stop`, which calls `Close()` on the same thread. `DrainActiveRequests` sees no active
request once no thread has a guard of the server.
-/

namespace Harbor.SelfDrain

open Runs
open Server (HttpServer)

/-- The lifecycle, and for each of the `n` threads the server it has a guard of and the server it is
closing. -/
structure State (n : Nat) where
  server : Server.State := .initial
  guardOf : Fin n → Option Nat := fun _ => none
  closing : Fin n → Option Nat := fun _ => none

inductive Action (n : Nat) where
  /-- A request reaches a handler of the server: the guard is made. -/
  | enter (thread : Fin n) (serial : Nat)
  /-- The last guard of the request ends. -/
  | leave (thread : Fin n)
  /-- `Stop`, called by SQL that runs on this thread, in a request or not. -/
  | stop (thread : Fin n) (canonicalUri : Bytes)
  /-- The next step of the `Close()` that the thread is in. -/
  | close (thread : Fin n)
  /-- A step of `Start` or `Wait`. -/
  | lifecycle (a : Server.Action)
  deriving DecidableEq, Repr

variable {n : Nat}

/-- The handlers of the server can be reached. -/
def serves (s : Server.State) (serial : Nat) : Bool :=
  s.server.any (fun server => server.serial = serial) ||
    s.starting.any (fun starting =>
      starting.phase = .listening && decide (starting.server.serial = serial)) ||
    s.closing.any fun c => c.server.serial = serial && decide (c.phase ≠ .drained)

def isClosing (s : Server.State) (serial : Nat) : Bool :=
  s.closing.any fun c => c.server.serial = serial

/-- No thread has a guard of the server. -/
def State.drained (s : State n) (serial : Nat) : Bool :=
  decide (∀ thread, s.guardOf thread ≠ some serial)

/-- What `Stop` takes out, if anything. -/
def stopTakes (s : Server.State) (canonicalUri : Bytes) : Option Nat :=
  match s.server with
  | none => none
  | some server => if server.canonicalUri = canonicalUri then some server.serial else none

def step (s : State n) : Action n → Option (State n)
  | .enter thread serial =>
      if s.guardOf thread = none ∧ s.closing thread = none ∧ serves s.server serial = true then
        some { s with guardOf := Function.update s.guardOf thread (some serial) }
      else none
  | .leave thread =>
      -- a thread inside `Close()` does not get to the end of its handler
      if s.closing thread = none then
        some { s with guardOf := Function.update s.guardOf thread none }
      else none
  | .stop thread canonicalUri =>
      if s.closing thread = none then
        (Server.step s.server (.stop canonicalUri)).map fun server =>
          { s with
            server
            closing := Function.update s.closing thread (stopTakes s.server canonicalUri) }
      else none
  | .close thread =>
      match s.closing thread with
      | none => none
      | some serial =>
          (Server.step s.server (.close serial (s.drained serial))).map fun server =>
            if isClosing server serial then { s with server }
            else { s with server, closing := Function.update s.closing thread none }
  | .lifecycle (.stop _) => none
  | .lifecycle (.close _ _) => none
  | .lifecycle a => (Server.step s.server a).map fun server => { s with server }

/-! ## The property -/

/-- No thread is inside the `Close()` of a server that it has a guard of. -/
def NoSelfDrain (s : State n) : Prop :=
  ∀ thread serial, s.guardOf thread = some serial → s.closing thread ≠ some serial

/-- `Stop` is not called inside a request of the server it stops. -/
def NotFromInside (s : State n) : Action n → Prop
  | .stop thread canonicalUri =>
      ∀ server, s.server.server = some server → server.canonicalUri = canonicalUri →
        s.guardOf thread ≠ some server.serial
  | _ => True

theorem stopTakes_eq_some {s : Server.State} {canonicalUri : Bytes} {serial : Nat} :
    stopTakes s canonicalUri = some serial ↔
      ∃ server, s.server = some server ∧ server.canonicalUri = canonicalUri ∧
        server.serial = serial := by
  rw [stopTakes]
  cases s.server with
  | none => simp
  | some server =>
      by_cases huri : server.canonicalUri = canonicalUri <;> simp [huri]

/-- A step of the lifecycle leaves the threads as they are. -/
theorem lifecycle_step {s t : State n} {a : Server.Action} (h : step s (.lifecycle a) = some t) :
    ∃ server, Server.step s.server a = some server ∧ t = { s with server } ∧
      server.closing = s.server.closing := by
  have hmap (hother : step s (.lifecycle a) =
      (Server.step s.server a).map fun server => { s with server }) :
      ∃ server, Server.step s.server a = some server ∧ t = { s with server } := by
    rw [hother] at h
    obtain ⟨server, hserver, rfl⟩ := Option.map_eq_some_iff.mp h
    exact ⟨server, hserver, rfl⟩
  cases a with
  | stop canonicalUri => exact nomatch h
  | close serial drained => exact nomatch h
  | startEnter canonicalUri =>
      obtain ⟨server, hserver, rfl⟩ := hmap rfl
      obtain ⟨_, rfl | ⟨_, rfl⟩⟩ := Server.startEnter_cases hserver <;> exact ⟨_, hserver, rfl, rfl⟩
  | startBind ok =>
      obtain ⟨server, hserver, rfl⟩ := hmap rfl
      obtain ⟨_, _, rfl⟩ := Server.startStep_cases hserver
      exact ⟨_, hserver, rfl, rfl⟩
  | startRegister ok =>
      obtain ⟨server, hserver, rfl⟩ := hmap rfl
      obtain ⟨_, _, rfl⟩ := Server.startStep_cases hserver
      exact ⟨_, hserver, rfl, rfl⟩
  | startListen ok =>
      obtain ⟨server, hserver, rfl⟩ := hmap rfl
      obtain ⟨_, _, rfl⟩ := Server.startStep_cases hserver
      exact ⟨_, hserver, rfl, rfl⟩
  | startInstall =>
      obtain ⟨server, hserver, rfl⟩ := hmap rfl
      obtain ⟨_, _, rfl⟩ := Server.startInstall_cases hserver
      exact ⟨_, hserver, rfl, rfl⟩
  | waitBegin call =>
      obtain ⟨server, hserver, rfl⟩ := hmap rfl
      obtain ⟨_, _, rfl | ⟨_, _, ⟨_, rfl⟩ | ⟨_, rfl⟩⟩⟩ := Server.waitBegin_cases hserver <;>
        exact ⟨_, hserver, rfl, rfl⟩
  | wake call =>
      obtain ⟨server, hserver, rfl⟩ := hmap rfl
      obtain ⟨_, _, _, _, ⟨_, rfl⟩ | ⟨_, rfl⟩⟩ := Server.wake_cases hserver <;>
        exact ⟨_, hserver, rfl, rfl⟩

/-- Only a `Stop` from inside leads to a thread that drains itself. -/
theorem noSelfDrain_step_iff {s t : State n} {a : Action n} (hs : NoSelfDrain s)
    (h : step s a = some t) : NoSelfDrain t ↔ NotFromInside s a := by
  cases a with
  | enter thread serial =>
      rw [step] at h
      split_ifs at h with hok
      cases h
      refine ⟨fun _ => trivial, fun _ thread' serial' hguard => ?_⟩
      by_cases hthread : thread' = thread
      · subst hthread
        rw [show s.closing thread' = none from hok.2.1]
        simp
      · exact hs thread' serial' ((Function.update_of_ne hthread _ _).symm.trans hguard)
  | leave thread =>
      rw [step] at h
      split_ifs at h with hok
      cases h
      refine ⟨fun _ => trivial, fun _ thread' serial' hguard => ?_⟩
      by_cases hthread : thread' = thread
      · subst hthread
        rw [show s.closing thread' = none from hok]
        simp
      · exact hs thread' serial' ((Function.update_of_ne hthread _ _).symm.trans hguard)
  | stop thread canonicalUri =>
      rw [step] at h
      split_ifs at h with hok
      obtain ⟨server, hserver, rfl⟩ := Option.map_eq_some_iff.mp h
      constructor
      · -- the stopped server is the one this thread now drains
        intro hno taken htaken huri hguard
        refine hno thread taken.serial hguard ?_
        show Function.update s.closing thread _ thread = _
        rw [Function.update_self, stopTakes_eq_some]
        exact ⟨taken, htaken, huri, rfl⟩
      · intro hout thread' serial' hguard
        show Function.update s.closing thread _ thread' ≠ _
        by_cases hthread : thread' = thread
        · subst hthread
          rw [Function.update_self, ne_eq, stopTakes_eq_some]
          rintro ⟨taken, htaken, huri, rfl⟩
          exact hout taken htaken huri hguard
        · rw [Function.update_of_ne hthread]
          exact hs thread' serial' hguard
  | close thread =>
      rw [step] at h
      split at h
      · cases h
      · next serial hclosing =>
        obtain ⟨server, hserver, rfl⟩ := Option.map_eq_some_iff.mp h
        refine ⟨fun _ => trivial, fun _ => ?_⟩
        -- the drain goes on, or ends and the thread closes nothing any more
        split_ifs with hstill
        · exact hs
        · intro thread' serial' hguard
          show Function.update s.closing thread none thread' ≠ _
          by_cases hthread : thread' = thread
          · rw [hthread, Function.update_self]
            simp
          · rw [Function.update_of_ne hthread]
            exact hs thread' serial' hguard
  | lifecycle a =>
      obtain ⟨server, _, rfl, _⟩ := lifecycle_step h
      exact ⟨fun _ => trivial, fun _ => hs⟩

/-! ## What happens to a thread that drains itself -/

/-- A thread waits for its own guard, in a `Close()` that has not left the drain loop. -/
def Stuck (thread : Fin n) (serial : Nat) (s : State n) : Prop :=
  s.guardOf thread = some serial ∧ s.closing thread = some serial ∧
    ∃ c ∈ s.server.closing, c.server.serial = serial ∧ c.phase ≠ .drained

theorem stuck_step {thread : Fin n} {serial : Nat} (s : State n) (a : Action n) (t : State n)
    (hs : Stuck thread serial s) (_ : True) (h : step s a = some t) : Stuck thread serial t := by
  obtain ⟨hguard, hclosing, c, hc, hserial, hphase⟩ := hs
  cases a with
  -- a thread whose drain loop runs enters no handler, so it is another thread
  | enter thread' serial' =>
      rw [step] at h
      split_ifs at h with hok
      cases h
      have hne : thread ≠ thread' := by
        rintro rfl
        rw [hok.2.1] at hclosing
        cases hclosing
      exact ⟨(Function.update_of_ne hne _ _).trans hguard, hclosing, c, hc, hserial, hphase⟩
  | leave thread' =>
      rw [step] at h
      split_ifs at h with hok
      cases h
      have hne : thread ≠ thread' := by
        rintro rfl
        rw [hok] at hclosing
        cases hclosing
      exact ⟨(Function.update_of_ne hne _ _).trans hguard, hclosing, c, hc, hserial, hphase⟩
  | stop thread' canonicalUri =>
      rw [step] at h
      split_ifs at h with hok
      obtain ⟨server, hserver, rfl⟩ := Option.map_eq_some_iff.mp h
      have hne : thread ≠ thread' := by
        rintro rfl
        rw [hok] at hclosing
        cases hclosing
      refine ⟨hguard, (Function.update_of_ne hne _ _).trans hclosing, c, ?_, hserial, hphase⟩
      obtain ⟨_, ⟨_, rfl⟩ | ⟨_, _, _, rfl⟩⟩ := Server.stop_cases hserver
      · exact hc
      · exact List.mem_append_left _ hc
  | close thread' =>
      rw [step] at h
      split at h
      · cases h
      · next serial' hclosing' =>
        obtain ⟨server, hserver, rfl⟩ := Option.map_eq_some_iff.mp h
        have hserver := Server.close_cases hserver
        -- the guard keeps the drain loop from ending
        have hstill : ∃ c ∈ server.closing, c.server.serial = serial ∧ c.phase ≠ .drained := by
          have hnot : s.drained serial = false := by
            rw [State.drained, decide_eq_false_iff_not]
            exact fun hall => hall thread hguard
          rw [hserver]
          -- one round of the loop moves this server on at most to `draining`, and no other server
          by_cases hser : serial = serial'
          · subst hser
            rw [hnot]
            obtain ⟨srv, phase⟩ := c
            cases phase with
            | entered =>
                exact ⟨⟨srv, .stoppedAccepting⟩, List.mem_filterMap.mpr
                  ⟨_, hc, by rw [if_pos hserial]; rfl⟩, hserial, by simp⟩
            | stoppedAccepting =>
                exact ⟨⟨srv, .draining⟩, List.mem_filterMap.mpr
                  ⟨_, hc, by rw [if_pos hserial]; rfl⟩, hserial, by simp⟩
            | draining =>
                exact ⟨⟨srv, .draining⟩, List.mem_filterMap.mpr
                  ⟨_, hc, by rw [if_pos hserial]; rfl⟩, hserial, by simp⟩
            | drained => exact absurd rfl hphase
          · refine ⟨c, List.mem_filterMap.mpr ⟨c, hc, ?_⟩, hserial, hphase⟩
            rw [if_neg (by rw [hserial]; exact hser)]
        -- the loop of another thread may end; that of `thread` has the server left
        split_ifs with hleft
        · exact ⟨hguard, hclosing, hstill⟩
        · refine ⟨hguard, ?_, hstill⟩
          have hne : thread ≠ thread' := by
            rintro rfl
            rw [hclosing, Option.some.injEq] at hclosing'
            subst hclosing'
            obtain ⟨c, hc, hserial, _⟩ := hstill
            exact hleft (List.any_eq_true.mpr ⟨c, hc, by simpa using hserial⟩)
          exact (Function.update_of_ne hne _ _).trans hclosing
  | lifecycle a =>
      obtain ⟨server, _, rfl, hsame⟩ := lifecycle_step h
      exact ⟨hguard, hclosing, c, by rw [hsame]; exact hc, hserial, hphase⟩

/-- **A `Stop` from inside never returns**, whatever happens then. -/
theorem stuck_of_stop {s t : State n} {thread : Fin n} {canonicalUri : Bytes} {server : HttpServer}
    (hserver : s.server.server = some server) (huri : server.canonicalUri = canonicalUri)
    (hguard : s.guardOf thread = some server.serial)
    (h : step s (.stop thread canonicalUri) = some t) (as : List (Action n)) (u : State n)
    (hrun : run step t as = some u) : Stuck thread server.serial u := by
  refine run_invariant (I := Stuck thread server.serial) stuck_step ?_
    (meets_true as t) hrun
  rw [step] at h
  split_ifs at h with hok
  obtain ⟨after, hafter, rfl⟩ := Option.map_eq_some_iff.mp h
  refine ⟨hguard, ?_, ⟨server, .entered⟩, ?_, rfl, by simp⟩
  · show Function.update s.closing thread _ thread = _
    rw [Function.update_self, stopTakes_eq_some]
    exact ⟨server, hserver, huri, rfl⟩
  · obtain ⟨_, ⟨hother, _⟩ | ⟨taken, htaken, _, rfl⟩⟩ := Server.stop_cases hafter
    · exact absurd huri (hother server hserver)
    · rw [hserver, Option.some.injEq] at htaken
      subst htaken
      exact List.mem_append_right _ List.mem_cons_self

/-! ## The result -/

/-- **No request drains itself exactly when no `Stop` is called inside a request of the server it
stops.** -/
theorem no_self_drain_iff (n : Nat) (as : List (Action n)) (s : State n)
    (hrun : run step {} as = some s) :
    Always step NoSelfDrain ({} : State n) as ↔ Meets step NotFromInside ({} : State n) as :=
  always_iff_meets (I := fun _ => True) (fun _ _ _ _ _ => trivial)
    (fun _ _ _ _ hs h => noSelfDrain_step_iff hs h) trivial (fun _ _ h => nomatch h) hrun

/-- A server that listens at `uri`. -/
def started (uri : Bytes) : List (Action 2) :=
  [.lifecycle (.startEnter uri), .lifecycle (.startBind true), .lifecycle (.startRegister true),
    .lifecycle (.startListen true), .lifecycle .startInstall]

/-- One thread stops the server while the other one is in a request, which ends. -/
def stoppedOutside (uri : Bytes) : List (Action 2) :=
  started uri ++ [.enter 1 0, .stop 0 uri, .close 0, .close 0, .leave 1, .close 0, .close 0]

theorem no_self_drain_iff_stoppedOutside :
    Always step NoSelfDrain ({} : State 2) (stoppedOutside (lit "quack:localhost")) ↔
      Meets step NotFromInside ({} : State 2) (stoppedOutside (lit "quack:localhost")) :=
  no_self_drain_iff 2 (stoppedOutside (lit "quack:localhost"))
    ((run step {} (stoppedOutside (lit "quack:localhost"))).getD {}) rfl

/-- A request runs `SELECT * FROM harbor_stop()`. -/
def stoppedInside (uri : Bytes) : List (Action 2) := started uri ++ [.enter 1 0, .stop 1 uri]

theorem self_drain_stoppedInside :
    ¬ ∀ (n : Nat) (as : List (Action n)) (s : State n), run step {} as = some s →
      NoSelfDrain s := by
  intro h
  have hrun : run step {} (stoppedInside (lit "quack:localhost")) =
      some ((run step {} (stoppedInside (lit "quack:localhost"))).getD {}) := rfl
  exact h 2 _ _ hrun 1 0 rfl rfl

end Harbor.SelfDrain
