import Harbor.Lib.Latch
import Mathlib.Algebra.BigOperators.Group.Finset.Basic
import Mathlib.Data.Fintype.Prod

set_option autoImplicit false

/-! # Draining the active requests

`ActiveRequestGuard` and `HarborHttpServer::Close`: `active_requests`, `drain_mu` and `cv_no_active` are
a latch whose tokens are the guards. A request has up to two of them, the one its handler makes on
entry and, for a streamed response, the one in its `StreamingCtx`. `guard` is the first member of
`StreamingCtx`, so it is the last one that is destroyed with it.

The counter is an `idx_t`: it does not wrap, since the guards it counts are objects in the same
address space.
-/

namespace Harbor.Drain

open Finset

/-- The guards of a request: that of its handler, which `/localEvents` gives to its response instead of
ending it with the handler, and that of its `StreamingCtx`. -/
inductive Which where
  | handler
  | context
  deriving DecidableEq, Repr

instance : Fintype Which := ⟨{.handler, .context}, fun w => by cases w <;> decide⟩

/-- Where the handler of a request is. -/
inductive Stage where
  /-- Not called, or over with its response sent. -/
  | idle
  | handling
  /-- The `StreamingCtx` is made; the handler goes on to fill it. -/
  | prepared
  /-- Something threw in `prepared`: the `StreamingCtx` is destroyed before the handler's guard. -/
  | unwinding
  /-- The handler has returned, and the response is streamed. -/
  | streaming
  deriving DecidableEq, Repr

/-- Where `Close` is with its loop. -/
inductive Closing where
  | idle
  | draining
  | drained
  deriving DecidableEq, Repr

/-- A server with up to `n` requests at once. -/
structure State (n : Nat) where
  latch : Latch.State (Fin n × Which) := {}
  stage : Fin n → Stage := fun _ => .idle
  close : Closing := .idle

inductive Action (n : Nat) where
  /-- The handler is entered: its guard is made. -/
  | enter (i : Fin n)
  /-- The `StreamingCtx` and its guard are made. -/
  | makeContext (i : Fin n)
  /-- The guard of the handler ends, at a `return` or when an exception leaves the handler. -/
  | leaveHandler (i : Fin n)
  /-- An exception after the `StreamingCtx` was made: it is destroyed, its guard last. -/
  | unwindContext (i : Fin n)
  /-- The response is over, or given up: the closure that holds the `StreamingCtx` is destroyed. -/
  | destroyContext (i : Fin n)
  /-- The next step in the destructor of a guard that was the last one. -/
  | guard (i : Fin n) (which : Which)
  | reset (i : Fin n) (which : Which)
  /-- The next step of `Close`, from its loop on. -/
  | close
  | timeout
  | spurious
  deriving DecidableEq, Repr

variable {n : Nat}

/-- A step of the latch that goes with a new stage of a request. -/
def State.latchStep (s : State n) (a : Latch.Action (Fin n × Which)) (stage : Fin n → Stage) :
    Option (State n) :=
  (Latch.step s.latch a).map fun latch => { s with latch, stage }

def State.toStage (s : State n) (i : Fin n) (p : Stage) : Fin n → Stage :=
  Function.update s.stage i p

/-- No destructor of a guard is under way on the thread of the request. -/
def State.between (s : State n) (i : Fin n) (which : Which) : Bool :=
  match s.latch.tokens (i, which) with
  | .owing | .holding | .notified => false
  | _ => true

/-- The next step of `Close`: `while (!DrainActiveRequests(..)) { if (active_requests == 0) break; }`. -/
def closeStep (s : State n) : Option (State n) :=
  match s.close with
  | .idle => (Latch.step s.latch .wait).map fun latch => { s with latch, close := .draining }
  | .draining =>
      match s.latch.waiter with
      | .returned true => some { s with close := .drained }
      | .returned false =>
          if s.latch.count = 0 then some { s with close := .drained }
          else (Latch.step s.latch .wait).map fun latch => { s with latch }
      | _ => (Latch.step s.latch .waiter).map fun latch => { s with latch }
  | .drained => none

def step (s : State n) : Action n → Option (State n)
  | .enter i =>
      match s.stage i with
      | .idle => s.latchStep (.enter (i, .handler)) (s.toStage i .handling)
      | _ => none
  | .makeContext i =>
      match s.stage i with
      | .handling => s.latchStep (.enter (i, .context)) (s.toStage i .prepared)
      | _ => none
  | .leaveHandler i =>
      match s.stage i with
      | .handling => s.latchStep (.leave (i, .handler)) (s.toStage i .idle)
      | .prepared => s.latchStep (.leave (i, .handler)) (s.toStage i .streaming)
      | .unwinding =>
          if s.between i .context then s.latchStep (.leave (i, .handler)) (s.toStage i .idle)
          else none
      | _ => none
  | .unwindContext i =>
      match s.stage i with
      | .prepared => s.latchStep (.leave (i, .context)) (s.toStage i .unwinding)
      | _ => none
  | .destroyContext i =>
      match s.stage i with
      | .streaming =>
          if s.between i .handler then s.latchStep (.leave (i, .context)) (s.toStage i .idle)
          else none
      | _ => none
  | .guard i which => s.latchStep (.token (i, which)) s.stage
  | .reset i which => s.latchStep (.reset (i, which)) s.stage
  | .close => closeStep s
  | .timeout => s.latchStep .timeout s.stage
  | .spurious => s.latchStep .spurious s.stage

/-! ## Invariants -/

/-- The guards that a request has alive at each stage. -/
def Stage.alive : Stage → Which → Bool
  | .idle, _ => false
  | .handling, .handler => true
  | .handling, .context => false
  | .prepared, _ => true
  | .unwinding, .handler => true
  | .unwinding, .context => false
  | .streaming, .handler => false
  | .streaming, .context => true

/-- The latch is as the library says, and the live guards are those of the stages. -/
structure Inv (s : State n) : Prop where
  latch : Latch.Inv s.latch
  alive : ∀ i which, s.latch.tokens (i, which) = .live ↔ (s.stage i).alive which = true

theorem inv_initial : Inv ({} : State n) where
  latch := Latch.inv_initial
  alive := fun i which => by simp [Stage.alive]

/-- What part of the counter is due to a request. -/
def attributed (s : State n) (i : Fin n) : Nat :=
  (univ.filter fun which => s.latch.tokens (i, which) = .live).card

theorem count_eq_sum {s : State n} (h : Inv s) : s.latch.count = ∑ i, attributed s i := by
  rw [h.latch.count_eq, Latch.live]
  simp only [attributed, Finset.card_filter, Fintype.sum_prod_type]

/-- A request that has been entered and whose response is not over has a part in the counter. -/
theorem attributed_pos {s : State n} (h : Inv s) {i : Fin n} (hi : s.stage i ≠ .idle) :
    1 ≤ attributed s i := by
  have hsome : ∃ which, (s.stage i).alive which = true := by
    cases hstage : s.stage i with
    | idle => exact absurd hstage hi
    | handling => exact ⟨.handler, rfl⟩
    | prepared => exact ⟨.handler, rfl⟩
    | unwinding => exact ⟨.handler, rfl⟩
    | streaming => exact ⟨.context, rfl⟩
  obtain ⟨which, hwhich⟩ := hsome
  apply Finset.card_pos.mpr
  exact ⟨which, Finset.mem_filter.mpr ⟨Finset.mem_univ _, (h.alive i which).mpr hwhich⟩⟩

/-! ## One step -/

section

variable {s t : State n} (h : Inv s)
include h

/-- A step of the latch that makes no guard and ends none. -/
theorem inv_quiet {a : Latch.Action (Fin n × Which)} (hst : s.latchStep a s.stage = some t)
    (ha : ∀ g, Latch.LiveAfter s.latch g a ↔ s.latch.tokens g = .live) : Inv t := by
  obtain ⟨latch, hlatch, rfl⟩ := Option.map_eq_some_iff.mp hst
  refine ⟨Latch.inv_step s.latch a latch h.latch hlatch, fun i which => ?_⟩
  rw [Latch.live_step hlatch, ha]
  exact h.alive i which

/-- A step of the latch on a guard of one request, which goes to another stage. -/
theorem inv_toStage {a : Latch.Action (Fin n × Which)} {i : Fin n} {p : Stage}
    (hst : s.latchStep a (s.toStage i p) = some t)
    (hother : ∀ k which, k ≠ i →
      (Latch.LiveAfter s.latch (k, which) a ↔ s.latch.tokens (k, which) = .live))
    (hself : ∀ which, Latch.LiveAfter s.latch (i, which) a ↔ p.alive which = true) : Inv t := by
  obtain ⟨latch, hlatch, rfl⟩ := Option.map_eq_some_iff.mp hst
  refine ⟨Latch.inv_step s.latch a latch h.latch hlatch, fun k which => ?_⟩
  rw [Latch.live_step hlatch]
  show _ ↔ (Function.update s.stage i p k).alive which = true
  by_cases hk : k = i
  · subst hk
    rw [hself, Function.update_self]
  · rw [hother k which hk, Function.update_of_ne hk]
    exact h.alive k which

/-- A guard is made. -/
theorem inv_enter {i : Fin n} {which : Which} {p : Stage}
    (hst : s.latchStep (.enter (i, which)) (s.toStage i p) = some t)
    (hself : ∀ w, p.alive w = true ↔ w = which ∨ (s.stage i).alive w = true) : Inv t := by
  refine inv_toStage h hst (fun k w hk => ?_) fun w => ?_
  · simp [Latch.LiveAfter, hk]
  · rw [Latch.LiveAfter, h.alive, hself]
    simp

/-- A guard ends. -/
theorem inv_leave {i : Fin n} {which : Which} {p : Stage}
    (hst : s.latchStep (.leave (i, which)) (s.toStage i p) = some t)
    (hself : ∀ w, p.alive w = true ↔ w ≠ which ∧ (s.stage i).alive w = true) : Inv t := by
  refine inv_toStage h hst (fun k w hk => ?_) fun w => ?_
  · simp [Latch.LiveAfter, hk]
  · rw [Latch.LiveAfter, h.alive, hself]
    simp

theorem inv_close (hst : closeStep s = some t) : Inv t := by
  -- a step of the waiter
  have hwait (a : Latch.Action (Fin n × Which)) (close : Closing)
      (ha : ∀ g, Latch.LiveAfter s.latch g a ↔ s.latch.tokens g = .live)
      (ht : ((Latch.step s.latch a).map fun latch => { s with latch, close }) = some t) : Inv t := by
    obtain ⟨latch, hlatch, rfl⟩ := Option.map_eq_some_iff.mp ht
    refine ⟨Latch.inv_step s.latch a latch h.latch hlatch, fun i which => ?_⟩
    rw [Latch.live_step hlatch, ha]
    exact h.alive i which
  rw [closeStep] at hst
  split at hst
  · exact hwait .wait .draining (fun _ => Iff.rfl) hst
  · split at hst
    · cases hst
      exact ⟨h.latch, h.alive⟩
    · split_ifs at hst
      · cases hst
        exact ⟨h.latch, h.alive⟩
      · exact hwait .wait s.close (fun _ => Iff.rfl) hst
    · exact hwait .waiter s.close (fun _ => Iff.rfl) hst
  · exact nomatch hst

end

theorem inv_step (s : State n) (a : Action n) (t : State n) (h : Inv s) (_ : True)
    (hst : step s a = some t) : Inv t := by
  cases a with
  | enter i =>
      rw [step] at hst
      split at hst
      · next hi => exact inv_enter h hst (fun w => by rw [hi]; cases w <;> decide)
      · exact nomatch hst
  | makeContext i =>
      rw [step] at hst
      split at hst
      · next hi => exact inv_enter h hst (fun w => by rw [hi]; cases w <;> decide)
      · exact nomatch hst
  | leaveHandler i =>
      rw [step] at hst
      split at hst
      · next hi => exact inv_leave h hst (fun w => by rw [hi]; cases w <;> decide)
      · next hi => exact inv_leave h hst (fun w => by rw [hi]; cases w <;> decide)
      · next hi =>
        split_ifs at hst
        exact inv_leave h hst (fun w => by rw [hi]; cases w <;> decide)
      · exact nomatch hst
  | unwindContext i =>
      rw [step] at hst
      split at hst
      · next hi => exact inv_leave h hst (fun w => by rw [hi]; cases w <;> decide)
      · exact nomatch hst
  | destroyContext i =>
      rw [step] at hst
      split at hst
      · next hi =>
        split_ifs at hst
        exact inv_leave h hst (fun w => by rw [hi]; cases w <;> decide)
      · exact nomatch hst
  | guard i which => exact inv_quiet h hst fun _ => Iff.rfl
  | reset i which => exact inv_quiet h hst fun _ => Iff.rfl
  | close => exact inv_close h hst
  | timeout => exact inv_quiet h hst fun _ => Iff.rfl
  | spurious => exact inv_quiet h hst fun _ => Iff.rfl

/-! ## The result -/

/-- **Drain accounting.** In every run: `active_requests` is the number of live guards, and the sum of
what the requests have in it; a request has something in it from the entry of its handler to the end of
its response; and whenever `Close` is blocked while the counter is zero, the destructor of some guard
is about to notify it. -/
theorem drain_accounting (n : Nat) (as : List (Action n)) (s : State n)
    (hrun : Runs.run step {} as = some s) :
    s.latch.count = (univ.filter fun g => s.latch.tokens g = .live).card ∧
      s.latch.count = ∑ i, attributed s i ∧
      (∀ i, s.stage i ≠ .idle → 1 ≤ attributed s i) ∧
      (s.latch.waiter = .blocked → s.latch.count = 0 →
        ∃ g, s.latch.tokens g = .owing ∨ s.latch.tokens g = .holding) := by
  have h : Inv s := Runs.run_invariant inv_step inv_initial (Runs.meets_true as _) hrun
  exact ⟨h.latch.count_eq, count_eq_sum h, fun i => attributed_pos h,
    Latch.notifier_of_blocked h.latch⟩

/-- A response is streamed, `Close` goes to sleep meanwhile, and the `StreamingCtx` is destroyed. -/
def lastStream : List (Action 1) :=
  [.enter 0, .makeContext 0, .leaveHandler 0, .close, .close, .close, .close, .destroyContext 0]

/-- After `lastStream` the counter is zero, `Close` is asleep, and the last guard is to notify it. -/
def lastStreamState : State 1 :=
  { latch := {
      tokens := Function.update (Function.update (Function.update (Function.update
        (fun _ => .unborn) (0, .handler) .live) (0, .context) .live) (0, .handler) .dead)
        (0, .context) .owing
      waiter := .blocked }
    stage := Function.update (Function.update (Function.update (Function.update
      (fun _ => .idle) 0 .handling) 0 .prepared) 0 .streaming) 0 .idle
    close := .draining }

theorem drain_accounting_lastStream :
    Runs.run step {} lastStream = some lastStreamState ∧
      lastStreamState.latch.count =
        (univ.filter fun g => lastStreamState.latch.tokens g = .live).card ∧
      lastStreamState.latch.count = ∑ i, attributed lastStreamState i ∧
      (∀ i, lastStreamState.stage i ≠ .idle → 1 ≤ attributed lastStreamState i) ∧
      (lastStreamState.latch.waiter = .blocked → lastStreamState.latch.count = 0 →
        ∃ g, lastStreamState.latch.tokens g = .owing ∨
          lastStreamState.latch.tokens g = .holding) :=
  ⟨rfl, drain_accounting 1 lastStream lastStreamState rfl⟩

end Harbor.Drain
