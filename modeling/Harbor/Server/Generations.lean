import Harbor.Server.State

set_option autoImplicit false

/-! # Generations and waiters

`Start` and `Stop` keep two counters, and `Wait` captures the first one and sleeps until the second
has reached what it captured. The invariant ties the counters to the installed server and to the
waiters: a waiter has been notified exactly when its condition is true. From it, `wait_protocol`.
-/

namespace Harbor.Server

open Runs

/-! ## The property -/

/-- Whoever returned from `Wait` had begun in the generation it captured and returned after that
generation had been stopped. -/
def ReturnsStopped (log : List Event) : Prop :=
  ∀ before call g after, log = before ++ .waitReturned call g :: after →
    .waitBegan call g ∈ before ∧ .stopped g ∈ before

/-- The two steps that take effect on the shared state: `Start` installs its server, `Stop` takes out
the server with its URI. The steps of a `Start` that fails and a `Stop` with another URI are none. -/
def Commits (s : State) (a : Action) : Prop :=
  a = .startInstall ∨ ∃ server, s.server = some server ∧ a = .stop server.canonicalUri

def SameServer (s t : State) : Prop :=
  t.generation = s.generation ∧ t.stoppedGeneration = s.stoppedGeneration ∧ t.server = s.server

theorem ReturnsStopped.snoc {log : List Event} {e : Event} (h : ReturnsStopped log)
    (he : ∀ call g, e = .waitReturned call g → .waitBegan call g ∈ log ∧ .stopped g ∈ log) :
    ReturnsStopped (log ++ [e]) := by
  intro before call g after heq
  rcases List.eq_nil_or_concat after with rfl | ⟨rest, last, rfl⟩
  · obtain ⟨rfl, hlast⟩ := List.append_inj' heq rfl
    exact he call g (by simpa using hlast)
  · refine h before call g rest ?_
    have hsplit : log ++ [e] = (before ++ .waitReturned call g :: rest) ++ [last] := by
      rw [heq, List.concat_eq_append, List.append_assoc, List.cons_append]
    exact (List.append_inj' hsplit rfl).1

/-! ## The invariant -/

/-- What every run keeps. -/
structure GenInv (s : State) : Prop where
  le : s.stoppedGeneration ≤ s.generation
  /-- A new generation starts only when the one before it has been stopped. -/
  next : s.generation ≤ s.stoppedGeneration + 1
  installed : s.server.isSome = true ↔ s.stoppedGeneration < s.generation
  /-- While `Start` holds the mutex no server is installed. -/
  alone : s.starting.isSome = true → s.server = none
  stopped : ∀ g, 0 < g → g ≤ s.stoppedGeneration → .stopped g ∈ s.log
  calls : (s.waiters.map (·.call)).Nodup
  captured : ∀ w ∈ s.waiters, 0 < w.myGeneration ∧ w.myGeneration ≤ s.generation
  began : ∀ w ∈ s.waiters, .waitBegan w.call w.myGeneration ∈ s.log
  /-- A waiter has been notified exactly when its condition is true. -/
  woken : ∀ w ∈ s.waiters, w.notified = true ↔ w.myGeneration ≤ s.stoppedGeneration
  returns : ReturnsStopped s.log

theorem genInv_initial : GenInv .initial where
  le := le_rfl
  next := Nat.zero_le 1
  installed := by decide
  alone := fun h => by cases h
  stopped := fun g hpos hle => by
    have hzero : g ≤ 0 := hle
    omega
  calls := List.nodup_nil
  captured := fun w hw => by cases hw
  began := fun w hw => by cases hw
  woken := fun w hw => by cases hw
  returns := fun before call g after h => by simp [State.initial] at h

/-! ## Steps -/

/-- A step that changes `starting` only. -/
theorem GenInv.moveStart {s : State} (hs : GenInv s) (starting : Option Starting) (n : Nat)
    (h : starting.isSome = true → s.server = none) :
    GenInv { s with starting := starting, constructed := n } :=
  ⟨hs.le, hs.next, hs.installed, h, hs.stopped, hs.calls, hs.captured, hs.began, hs.woken,
    hs.returns⟩

/-- `Start` installs a server of the next generation. -/
theorem genInv_startInstall {s t : State} (hs : GenInv s) (h : startInstall s = some t) :
    GenInv t := by
  obtain ⟨server, hstarting, rfl⟩ := startInstall_cases h
  have hnone : s.server = none := hs.alone (by rw [hstarting]; rfl)
  have hidle : ¬ s.stoppedGeneration < s.generation := fun hlt => by
    have hsome := hs.installed.mpr hlt
    rw [hnone] at hsome
    cases hsome
  have hle := hs.le
  refine ⟨?_, ?_, ?_, (fun h => by cases h), ?_, hs.calls, ?_, ?_, hs.woken, ?_⟩
  · show s.stoppedGeneration ≤ s.generation + 1
    omega
  · show s.generation + 1 ≤ s.stoppedGeneration + 1
    omega
  · show (some server).isSome = true ↔ s.stoppedGeneration < s.generation + 1
    simp only [Option.isSome_some, true_iff]
    omega
  · intro g hpos hg
    exact List.mem_append_left _ (hs.stopped g hpos hg)
  · intro w hw
    obtain ⟨hpos, hcap⟩ := hs.captured w hw
    exact ⟨hpos, Nat.le_succ_of_le hcap⟩
  · intro w hw
    exact List.mem_append_left _ (hs.began w hw)
  · exact hs.returns.snoc fun call g he => by cases he

/-- `Stop` makes the condition of every waiter true and notifies every waiter. -/
theorem genInv_stop {s t : State} {canonicalUri : Bytes} (hs : GenInv s)
    (h : stop s canonicalUri = some t) : GenInv t := by
  obtain ⟨hstarting, ⟨_, rfl⟩ | ⟨server, hserver, _, rfl⟩⟩ := stop_cases h
  · exact hs
  have hrunning : s.stoppedGeneration < s.generation := hs.installed.mp (by rw [hserver]; rfl)
  have hnext := hs.next
  refine ⟨le_rfl, Nat.le_succ _, ?_, fun _ => rfl, ?_, ?_, ?_, ?_, ?_, ?_⟩
  · show (none : Option HttpServer).isSome = true ↔ s.generation < s.generation
    simp
  · intro g hpos hg
    have hg : g ≤ s.generation := hg
    by_cases hcurrent : g = s.generation
    · rw [hcurrent]
      exact List.mem_append_right _ (by simp)
    · exact List.mem_append_left _ (hs.stopped g hpos (by omega))
  · rw [List.map_map]
    exact hs.calls
  · intro w hw
    obtain ⟨v, hv, rfl⟩ := List.mem_map.mp hw
    exact hs.captured v hv
  · intro w hw
    obtain ⟨v, hv, rfl⟩ := List.mem_map.mp hw
    exact List.mem_append_left _ (hs.began v hv)
  · intro w hw
    obtain ⟨v, hv, rfl⟩ := List.mem_map.mp hw
    exact ⟨fun _ => (hs.captured v hv).2, fun _ => rfl⟩
  · exact hs.returns.snoc fun call g he => by cases he

/-- `Wait` goes to sleep with its condition false. -/
theorem genInv_waitBegin {s t : State} {call : Nat} (hs : GenInv s)
    (h : waitBegin s call = some t) : GenInv t := by
  obtain ⟨_, hfresh, rfl | ⟨server, hserver, hcase⟩⟩ := waitBegin_cases h
  · exact hs
  have hrunning : s.stoppedGeneration < s.generation := hs.installed.mp (by rw [hserver]; rfl)
  rcases hcase with ⟨hstopped, _⟩ | ⟨_, rfl⟩
  · omega
  refine ⟨hs.le, hs.next, hs.installed, hs.alone, ?_, ?_, ?_, ?_, ?_, ?_⟩
  · intro g hpos hg
    exact List.mem_append_left _ (hs.stopped g hpos hg)
  · rw [List.map_append, List.nodup_append]
    refine ⟨hs.calls, List.nodup_singleton _, ?_⟩
    intro c hc d hd
    obtain ⟨w, hw, rfl⟩ := List.mem_map.mp hc
    rw [List.mem_singleton.mp hd]
    exact hfresh w hw
  · intro w hw
    rcases List.mem_append.mp hw with hw | hw
    · exact hs.captured w hw
    · rw [List.mem_singleton] at hw
      subst hw
      exact ⟨by show 0 < s.generation; omega, le_rfl⟩
  · intro w hw
    rcases List.mem_append.mp hw with hw | hw
    · exact List.mem_append_left _ (hs.began w hw)
    · rw [List.mem_singleton] at hw
      subst hw
      exact List.mem_append_right _ (by simp)
  · intro w hw
    rcases List.mem_append.mp hw with hw | hw
    · exact hs.woken w hw
    · rw [List.mem_singleton] at hw
      subst hw
      show false = true ↔ s.generation ≤ s.stoppedGeneration
      simp only [Bool.false_eq_true, false_iff]
      omega
  · exact hs.returns.snoc fun call g he => by cases he

/-- `Wait` returns when its condition is true, and sleeps again when it is not. -/
theorem genInv_wake {s t : State} {call : Nat} (hs : GenInv s) (h : wake s call = some t) :
    GenInv t := by
  obtain ⟨_, w, hw, hcall, ⟨hstopped, rfl⟩ | ⟨hrunning, rfl⟩⟩ := wake_cases h
  · -- the call returns: its waiter leaves and the return is recorded
    refine ⟨hs.le, hs.next, hs.installed, hs.alone, ?_, ?_, ?_, ?_, ?_, ?_⟩
    · intro g hpos hg
      exact List.mem_append_left _ (hs.stopped g hpos hg)
    · exact hs.calls.sublist (List.filter_sublist.map _)
    · intro v hv
      exact hs.captured v (List.mem_of_mem_filter hv)
    · intro v hv
      exact List.mem_append_left _ (hs.began v (List.mem_of_mem_filter hv))
    · intro v hv
      exact hs.woken v (List.mem_of_mem_filter hv)
    · refine hs.returns.snoc fun c g he => ?_
      cases he
      exact ⟨hcall ▸ hs.began w hw, hs.stopped _ (hs.captured w hw).1 hstopped⟩
  · -- the call that sleeps again is the one whose condition is false
    have hasleep : ∀ u ∈ s.waiters, u.call = call → s.stoppedGeneration < u.myGeneration := by
      intro u hu hc
      have huw : u = w := List.inj_on_of_nodup_map hs.calls hu hw (by rw [hc, hcall])
      exact huw ▸ hrunning
    refine ⟨hs.le, hs.next, hs.installed, hs.alone, hs.stopped, ?_, ?_, ?_, ?_, hs.returns⟩
    · rw [List.map_map]
      refine (List.map_congr_left fun v _ => ?_) ▸ hs.calls
      show v.call = (if v.call = call then { v with notified := false } else v).call
      split <;> rfl
    · intro v hv
      obtain ⟨u, hu, rfl⟩ := List.mem_map.mp hv
      have hcap := hs.captured u hu
      split
      · exact hcap
      · exact hcap
    · intro v hv
      obtain ⟨u, hu, rfl⟩ := List.mem_map.mp hv
      have hbegan := hs.began u hu
      split
      · exact hbegan
      · exact hbegan
    · intro v hv
      obtain ⟨u, hu, rfl⟩ := List.mem_map.mp hv
      by_cases hc : u.call = call
      · rw [if_pos hc]
        have hlt := hasleep u hu hc
        show false = true ↔ u.myGeneration ≤ s.stoppedGeneration
        simp only [Bool.false_eq_true, false_iff]
        omega
      · rw [if_neg hc]
        exact hs.woken u hu

/-- `Close()` does not touch what `Wait` looks at. -/
theorem genInv_close {s t : State} {serial : Nat} {drained : Bool} (hs : GenInv s)
    (h : close s serial drained = some t) : GenInv t := by
  obtain rfl := close_cases h
  exact ⟨hs.le, hs.next, hs.installed, hs.alone, hs.stopped, hs.calls, hs.captured, hs.began,
    hs.woken, hs.returns⟩

theorem genInv_startStep {s t : State} {before after : StartPhase} {ok : Bool} (hs : GenInv s)
    (h : startStep s before after ok = some t) : GenInv t := by
  obtain ⟨server, hstarting, rfl⟩ := startStep_cases h
  exact hs.moveStart _ s.constructed fun _ => hs.alone (by rw [hstarting]; rfl)

theorem genInv_step {s t : State} {a : Action} (hs : GenInv s) (h : step s a = some t) :
    GenInv t := by
  cases a with
  | startEnter canonicalUri =>
      obtain ⟨_, rfl | ⟨hserver, rfl⟩⟩ := startEnter_cases h
      · exact hs
      · exact hs.moveStart _ _ fun _ => hserver
  | startBind ok => exact genInv_startStep hs h
  | startRegister ok => exact genInv_startStep hs h
  | startListen ok => exact genInv_startStep hs h
  | startInstall => exact genInv_startInstall hs h
  | stop canonicalUri => exact genInv_stop hs h
  | close serial drained => exact genInv_close hs h
  | waitBegin call => exact genInv_waitBegin hs h
  | wake call => exact genInv_wake hs h

/-- Every step but the two that commit leaves the counters and the installed server as they are. -/
theorem sameServer_step {s t : State} {a : Action} (ha : ¬ Commits s a) (h : step s a = some t) :
    SameServer s t := by
  cases a with
  | startEnter canonicalUri =>
      obtain ⟨_, rfl | ⟨_, rfl⟩⟩ := startEnter_cases h
      · exact ⟨rfl, rfl, rfl⟩
      · exact ⟨rfl, rfl, rfl⟩
  | startBind ok | startRegister ok | startListen ok =>
      obtain ⟨server, _, rfl⟩ := startStep_cases h
      exact ⟨rfl, rfl, rfl⟩
  | startInstall => exact absurd (Or.inl rfl) ha
  | stop canonicalUri =>
      obtain ⟨_, ⟨_, rfl⟩ | ⟨server, hserver, huri, rfl⟩⟩ := stop_cases h
      · exact ⟨rfl, rfl, rfl⟩
      · exact absurd (Or.inr ⟨server, hserver, by rw [huri]⟩) ha
  | close serial drained =>
      obtain rfl := close_cases h
      exact ⟨rfl, rfl, rfl⟩
  | waitBegin call =>
      obtain ⟨_, _, rfl | ⟨server, _, ⟨_, rfl⟩ | ⟨_, rfl⟩⟩⟩ := waitBegin_cases h
      · exact ⟨rfl, rfl, rfl⟩
      · exact ⟨rfl, rfl, rfl⟩
      · exact ⟨rfl, rfl, rfl⟩
  | wake call =>
      obtain ⟨_, w, _, _, ⟨_, rfl⟩ | ⟨_, rfl⟩⟩ := wake_cases h
      · exact ⟨rfl, rfl, rfl⟩
      · exact ⟨rfl, rfl, rfl⟩

/-! ## Runs -/

theorem genInv_run {as : List Action} {s : State} (hrun : run step .initial as = some s) :
    GenInv s := by
  have hmeets : Meets step (fun _ _ => True) .initial as := meets_of_forall (fun _ _ => trivial) as _
  exact run_invariant (fun s a t hs _ h => genInv_step hs h) genInv_initial hmeets hrun

/-- Steps that do not commit leave the server alone, however many calls they belong to. -/
theorem sameServer_run {bs : List Action} {s t : State}
    (hbs : Meets step (fun u b => ¬ Commits u b) s bs) (hrun : run step s bs = some t) :
    SameServer s t := by
  refine run_invariant (I := fun u => SameServer s u) ?_ ⟨rfl, rfl, rfl⟩ hbs hrun
  intro u b v ⟨hgen, hstopped, hserver⟩ hb h
  obtain ⟨hgen', hstopped', hserver'⟩ := sameServer_step hb h
  exact ⟨hgen'.trans hgen, hstopped'.trans hstopped, hserver'.trans hserver⟩

/-- **The protocol of `Start`, `Stop` and `Wait`, in every state of every run:** the stopped
generation is not ahead; a server is installed exactly while it is behind; calls that do not commit
change neither the counters nor the server; a `Wait` returns after the generation it began in has
been stopped; and a sleeping waiter whose condition is true has been notified. -/
theorem wait_protocol {as : List Action} {s : State} (hrun : run step .initial as = some s) :
    s.stoppedGeneration ≤ s.generation ∧
      (s.server.isSome = true ↔ s.stoppedGeneration < s.generation) ∧
      (∀ (bs : List Action) (t : State), Meets step (fun u b => ¬ Commits u b) s bs →
        run step s bs = some t → SameServer s t) ∧
      ReturnsStopped s.log ∧
      ∀ w ∈ s.waiters, w.myGeneration ≤ s.stoppedGeneration → w.notified = true := by
  have hs := genInv_run hrun
  refine ⟨hs.le, hs.installed, ?_, hs.returns, ?_⟩
  · intro bs t hbs hrun
    exact sameServer_run hbs hrun
  · intro w hw hstopped
    exact (hs.woken w hw).mpr hstopped

/-- A `Wait` on the first generation wakes up when the second one already runs. -/
theorem wait_protocol_restartRun :
    let uri := lit "harbor:127.0.0.1:9494"
    let start : List Action :=
      [.startEnter uri, .startBind true, .startRegister true, .startListen true, .startInstall]
    let as : List Action := start ++ [.waitBegin 0, .stop uri] ++ start ++ [.waitBegin 1, .wake 0]
    let s := (run step .initial as).getD .initial
    s.log = [.started 1, .waitBegan 0 1, .stopped 1, .started 2, .waitBegan 1 2, .waitReturned 0 1] ∧
      s.stoppedGeneration ≤ s.generation ∧ ReturnsStopped s.log ∧
      ∀ w ∈ s.waiters, w.myGeneration ≤ s.stoppedGeneration → w.notified = true := by
  intro uri start as s
  have hrun : run step .initial as = some s := by rfl
  obtain ⟨hle, _, _, hreturns, hwoken⟩ := wait_protocol hrun
  exact ⟨by rfl, hle, hreturns, hwoken⟩

end Harbor.Server
