import Harbor.Server.State

set_option autoImplicit false

/-! # At most one server

`Stop` takes the server out of the shared state before it closes it, and `Start` looks at the shared
state only. A `Start` that reaches `StartListening()` while a stopped server is still being closed
makes it two servers; `one_server_iff` shows that this is the only way.
-/

namespace Harbor.Server

open Runs

/-! ## The property -/

/-- The server of a `Start` that has called `StartListening()` and not yet installed it. -/
def Starting.listening? (starting : Starting) : Option HttpServer :=
  if starting.phase = .listening then some starting.server else none

/-- The servers that have been started and whose `Close()` has not completed. -/
def State.live (s : State) : List HttpServer :=
  s.server.toList ++ (s.starting.bind Starting.listening?).toList ++ s.closing.map (·.server)

def AtMostOne (s : State) : Prop := s.live.length ≤ 1

/-- `StartListening()` is not called while the `Close()` of a stopped server is under way. -/
def CloseDone (s : State) : Action → Prop
  | .startListen true => s.closing = []
  | _ => True

/-! ## What a step does to the live servers -/

/-- While `Start` holds the mutex no server is installed. -/
def StartAlone (s : State) : Prop := ∀ starting, s.starting = some starting → s.server = none

theorem startAlone_step {s t : State} {a : Action} (hs : StartAlone s) (h : step s a = some t) :
    StartAlone t := by
  intro starting hstarting
  cases a with
  | startEnter canonicalUri =>
      obtain ⟨_, rfl | ⟨hserver, rfl⟩⟩ := startEnter_cases h
      · exact hs starting hstarting
      · exact hserver
  | startBind ok | startRegister ok | startListen ok =>
      obtain ⟨server, hbefore, rfl⟩ := startStep_cases h
      exact hs _ hbefore
  -- the server that was starting has become the server
  | startInstall =>
      obtain ⟨server, _, rfl⟩ := startInstall_cases h
      cases hstarting
  | stop canonicalUri =>
      obtain ⟨hnone, ⟨_, rfl⟩ | ⟨server, _, _, rfl⟩⟩ := stop_cases h
      · exact hs starting hstarting
      · rfl
  | close serial drained =>
      obtain rfl := close_cases h
      exact hs starting hstarting
  | waitBegin call =>
      obtain ⟨_, _, rfl | ⟨server, _, ⟨_, rfl⟩ | ⟨_, rfl⟩⟩⟩ := waitBegin_cases h
      · exact hs starting hstarting
      · exact hs starting hstarting
      · exact hs starting hstarting
  | wake call =>
      obtain ⟨_, w, _, _, ⟨_, rfl⟩ | ⟨_, rfl⟩⟩ := wake_cases h
      · exact hs starting hstarting
      · exact hs starting hstarting

/-- `Close()` never adds a live server. -/
theorem length_closing_le (closing : List Closing) (serial : Nat) (drained : Bool) :
    (closing.filterMap fun c =>
      if c.server.serial = serial then c.step drained else some c).length ≤ closing.length :=
  List.length_filterMap_le _ _

/-- The only step that can add to the live servers is `StartListening()`. -/
theorem live_step {s t : State} {a : Action} (ha : a ≠ .startListen true)
    (hs : StartAlone s) (h : step s a = some t) : t.live.length ≤ s.live.length := by
  unfold State.live
  cases a with
  | startEnter canonicalUri =>
      obtain ⟨hnone, rfl | ⟨_, rfl⟩⟩ := startEnter_cases h
      · exact le_rfl
      · simp [hnone, Starting.listening?]
  | startBind ok =>
      obtain ⟨server, hbefore, rfl⟩ := startStep_cases h
      cases ok <;> simp [hbefore, Starting.listening?]
  | startRegister ok =>
      obtain ⟨server, hbefore, rfl⟩ := startStep_cases h
      cases ok <;> simp [hbefore, Starting.listening?]
  | startListen ok =>
      obtain ⟨server, hbefore, rfl⟩ := startStep_cases h
      cases ok with
      | false => simp [hbefore, Starting.listening?]
      | true => exact absurd rfl ha
  | startInstall =>
      obtain ⟨server, hlistening, rfl⟩ := startInstall_cases h
      simp [hlistening, Starting.listening?, hs _ hlistening]
  | stop canonicalUri =>
      obtain ⟨hnone, ⟨_, rfl⟩ | ⟨server, hserver, _, rfl⟩⟩ := stop_cases h
      · exact le_rfl
      · simp only [hnone, hserver, Option.bind_none, Option.toList_none, Option.toList_some,
          List.nil_append, List.map_append, List.length_append, List.length_map, List.map_cons,
          List.map_nil, List.length_cons, List.length_nil]
        omega
  | close serial drained =>
      obtain rfl := close_cases h
      have hle := length_closing_le s.closing serial drained
      simp only [List.length_append, List.length_map]
      omega
  | waitBegin call =>
      obtain ⟨_, _, rfl | ⟨server, _, ⟨_, rfl⟩ | ⟨_, rfl⟩⟩⟩ := waitBegin_cases h
      · exact le_rfl
      · exact le_rfl
      · exact le_rfl
  | wake call =>
      obtain ⟨_, w, _, _, ⟨_, rfl⟩ | ⟨_, rfl⟩⟩ := wake_cases h
      · exact le_rfl
      · exact le_rfl

/-- `StartListening()` makes it one live server more than are still being closed. -/
theorem live_startListen {s t : State} (hs : StartAlone s)
    (h : step s (.startListen true) = some t) : t.live.length = s.closing.length + 1 := by
  obtain ⟨server, hbefore, rfl⟩ := startStep_cases h
  unfold State.live
  simp only [hs _ hbefore, if_true, Option.bind_some, Starting.listening?, Option.toList_none,
    Option.toList_some, List.nil_append, List.length_append, List.length_cons, List.length_nil,
    List.length_map]
  omega

/-- A step from at most one live server leads to at most one exactly if it is allowed. -/
theorem atMostOne_step_iff {s t : State} {a : Action} (hs : StartAlone s) (hone : AtMostOne s)
    (h : step s a = some t) : AtMostOne t ↔ CloseDone s a := by
  by_cases ha : a = .startListen true
  · subst ha
    unfold AtMostOne CloseDone
    rw [live_startListen hs h, ← List.length_eq_zero_iff]
    omega
  · have hle := live_step ha hs h
    have hdone : CloseDone s a := by
      unfold CloseDone
      split
      · exact absurd rfl ha
      · trivial
    exact ⟨fun _ => hdone, fun _ => le_trans hle hone⟩

/-! ## The result -/

/-- **At most one server is live at every moment of a run exactly when no `Start` of the run calls
`StartListening()` while the `Close()` of a stopped server is under way.** -/
theorem one_server_iff {as : List Action} {s : State} (hrun : run step .initial as = some s) :
    Always step AtMostOne .initial as ↔ Meets step CloseDone .initial as := by
  refine always_iff_meets (I := StartAlone) (fun s a t hs h => startAlone_step hs h)
    (fun s a t hs hone h => atMostOne_step_iff hs hone h) ?_ ?_ hrun
  · intro starting h
    cases h
  · exact Nat.zero_le 1

/-- One server is started and stopped; the next one is started after its `Close()` has completed. -/
theorem one_server_iff_restartRun :
    let uri := lit "harbor:127.0.0.1:9494"
    let start : List Action :=
      [.startEnter uri, .startBind true, .startRegister true, .startListen true, .startInstall]
    let closing : List Action :=
      [.stop uri, .close 0 false, .close 0 false, .close 0 false, .close 0 true, .close 0 false]
    Always step AtMostOne .initial (start ++ closing ++ start) ↔
      Meets step CloseDone .initial (start ++ closing ++ start) := by
  intro uri start closing
  exact one_server_iff (s := (run step .initial (start ++ closing ++ start)).getD .initial)
    (by rfl)

/-- The next server is started while the stopped one is still draining. -/
theorem two_servers_drainingRun :
    ¬ ∀ (as : List Action) (s : State), run step .initial as = some s →
      Always step AtMostOne .initial as := by
  intro h
  let uri := lit "harbor:127.0.0.1:9494"
  let start : List Action :=
    [.startEnter uri, .startBind true, .startRegister true, .startListen true, .startInstall]
  let as : List Action := start ++ [.stop uri, .close 0 false, .close 0 false] ++ start
  have hrun : run step .initial as = some ((run step .initial as).getD .initial) := by
    rfl
  have htwo : ((run step .initial as).getD .initial).live.length = 2 := by
    rfl
  have hone : AtMostOne ((run step .initial as).getD .initial) := (h as _ hrun).of_run hrun
  unfold AtMostOne at hone
  omega

end Harbor.Server
