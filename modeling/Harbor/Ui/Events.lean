import Harbor.Lib.Bytes
import Harbor.Lib.Runs

set_option autoImplicit false

/-! # Server-sent events

`EventDispatcher` hands events to the clients of `/localEvents`. A client waits for the next event at most
five seconds at a time; the wait may end at any time, by the timer, by a notification or spuriously, and
what is written then is decided by the numbers of the events. The numbers are 32-bit integers, which
wrap around.

The critical sections of the mutex are the steps. The state has in addition all events so far, and of
each wait when it began.
-/

namespace Harbor.Ui.Events

open Runs

/-- `MAX_EVENT_WAIT_COUNT`. -/
def maxEventWaitCount : Nat := 3

/-- `EMPTY_SSE_MESSAGE`. -/
def emptySseMessage : Bytes := lit ":\r\r"

/-- A client in `cv.wait_for`, and the number of events there were before. -/
structure Wait where
  client : Nat
  targetId : BitVec 32
  start : Nat
deriving DecidableEq, Repr

/-- What a call of `WaitEvent` comes to. -/
inductive Outcome where
  | refused
  | closed
  | wrote (what : Bytes)
deriving DecidableEq, Repr

/-- A call that has returned: the numbers of events before and after it, whether it waited, whether the
dispatcher was closed when it ended, and what it came to. -/
structure Returned where
  client : Nat
  start : Nat
  stop : Nat
  waited : Bool
  closed : Bool
  outcome : Outcome
deriving DecidableEq, Repr

/-- An `EventDispatcher`. -/
structure State where
  nextId : BitVec 32 := 0
  currentId : BitVec 32 := -1
  waitCount : Nat := 0
  message : Bytes := []
  closed : Bool := false
  waiting : List Wait := []
  events : List Bytes := []
  returned : List Returned := []
deriving Repr

inductive Action where
  /-- `WaitEvent`, up to the wait. -/
  | waitEvent (client : Nat)
  /-- `WaitEvent` behind the wait. -/
  | wake (client : Nat)
  | sendEvent (message : Bytes)
  | close
deriving Repr

/-- What `WaitEvent` does behind the wait. -/
def State.outcome (s : State) (w : Wait) : Outcome :=
  if s.closed then .closed
  else if s.currentId = w.targetId then .wrote s.message
  else .wrote emptySseMessage

def State.sendEvent (s : State) (message : Bytes) : State :=
  if s.closed then s
  else
    { s with
      currentId := s.nextId
      nextId := s.nextId + 1
      message
      events := s.events ++ [message] }

def State.close (s : State) : State :=
  if s.closed then s
  else { s with currentId := s.nextId, nextId := s.nextId + 1, closed := true }

/-- The state after a step; a connection is in one call at a time. -/
def step (s : State) : Action → Option State
  | .waitEvent client =>
      if client ∈ s.waiting.map Wait.client then none
      else if s.closed ∨ s.waitCount ≥ maxEventWaitCount then
        some { s with
          returned := s.returned ++
            [⟨client, s.events.length, s.events.length, false, s.closed, .refused⟩] }
      else
        some { s with
          waitCount := s.waitCount + 1
          waiting := s.waiting ++ [⟨client, s.nextId, s.events.length⟩] }
  | .wake client =>
      match s.waiting.find? fun w => w.client == client with
      | none => none
      | some w =>
          some { s with
            waitCount := s.waitCount - 1
            waiting := s.waiting.erase w
            returned := s.returned ++
              [⟨client, w.start, s.events.length, true, s.closed, s.outcome w⟩] }
  | .sendEvent message => some (s.sendEvent message)
  | .close => some s.close

/-! ## The invariant -/

/-- A wait that ended before `Close` wrote the event exactly if it was the only one of its time, up to a
multiple of the range of the numbers, and the empty message else; one that ended later wrote nothing. -/
def Returned.Told (events : List Bytes) (r : Returned) : Prop :=
  if r.closed then r.outcome = .closed
  else ∃ what, r.outcome = .wrote what ∧
    if (r.stop - r.start) % 2 ^ 32 = 1 then events[r.stop - 1]? = some what
    else what = emptySseMessage

def Returned.Right (events : List Bytes) (r : Returned) : Prop :=
  r.start ≤ r.stop ∧ r.stop ≤ events.length ∧
    if r.waited then r.Told events else r.outcome = .refused

structure Inv (s : State) : Prop where
  count : s.waitCount = s.waiting.length
  atMost : s.waitCount ≤ maxEventWaitCount
  clients : (s.waiting.map Wait.client).Nodup
  begun : ∀ w ∈ s.waiting, w.start ≤ s.events.length
  previous : s.closed = false → s.currentId = s.nextId - 1
  /-- The number that a wait is for is that of the first event after its beginning. -/
  target : s.closed = false → ∀ w ∈ s.waiting,
    s.nextId = w.targetId + BitVec.ofNat 32 (s.events.length - w.start)
  last : s.events ≠ [] → s.events[s.events.length - 1]? = some s.message
  right : ∀ r ∈ s.returned, r.Right s.events
  apart : s.returned.Pairwise fun a b => a.client = b.client → a.stop ≤ b.start
  later : ∀ r ∈ s.returned, ∀ w ∈ s.waiting, r.client = w.client → r.stop ≤ w.start

theorem Returned.Told.append {events : List Bytes} {r : Returned} (h : r.Told events)
    (message : Bytes) : r.Told (events ++ [message]) := by
  rw [Returned.Told] at h ⊢
  split_ifs at h ⊢
  · exact h
  · obtain ⟨what, hwhat, hold⟩ := h
    have hlt : r.stop - 1 < events.length := (List.getElem?_eq_some_iff.mp hold).1
    exact ⟨what, hwhat, by rw [List.getElem?_append_left hlt, hold]⟩
  · exact h

theorem Returned.Right.append {events : List Bytes} {r : Returned} (h : r.Right events)
    (message : Bytes) : r.Right (events ++ [message]) := by
  obtain ⟨hstart, hstop, htold⟩ := h
  refine ⟨hstart, hstop.trans (by simp), ?_⟩
  split_ifs at htold ⊢
  · exact htold.append message
  · exact htold

/-- The number before the current one is the first one if there were one event, or full rounds more. -/
theorem add_sub_one_eq_iff (id : BitVec 32) (count : Nat) :
    id + BitVec.ofNat 32 count - 1 = id ↔ count % 2 ^ 32 = 1 := by
  have hone : (1 : BitVec 32).toNat = 1 := rfl
  have hlt := id.isLt
  rw [← BitVec.toNat_inj, BitVec.toNat_sub, BitVec.toNat_add, BitVec.toNat_ofNat, hone]
  omega

/-- The event that is written is the one the numbers say, or none. -/
theorem Inv.right_outcome {s : State} (hs : Inv s) {w : Wait} (hw : w ∈ s.waiting) :
    Returned.Right s.events ⟨w.client, w.start, s.events.length, true, s.closed, s.outcome w⟩ := by
  refine ⟨hs.begun w hw, le_rfl, ?_⟩
  rw [if_pos rfl, Returned.Told, State.outcome]
  dsimp only
  cases hclosed : s.closed with
  | true => rfl
  | false =>
      have hiff : s.currentId = w.targetId ↔ (s.events.length - w.start) % 2 ^ 32 = 1 := by
        rw [hs.previous hclosed, hs.target hclosed w hw]
        exact add_sub_one_eq_iff _ _
      simp only [Bool.false_eq_true, if_false]
      by_cases hone : (s.events.length - w.start) % 2 ^ 32 = 1
      · refine ⟨s.message, if_pos (hiff.mpr hone), ?_⟩
        rw [if_pos hone]
        refine hs.last fun hnil => ?_
        rw [hnil] at hone
        simp at hone
      · refine ⟨emptySseMessage, if_neg fun heq => hone (hiff.mp heq), ?_⟩
        rw [if_neg hone]

/-! ## The steps -/

theorem step_waitEvent {s t : State} {client : Nat} (h : step s (.waitEvent client) = some t) :
    client ∉ s.waiting.map Wait.client ∧
      (t = { s with
          returned := s.returned ++
            [⟨client, s.events.length, s.events.length, false, s.closed, .refused⟩] } ∨
        s.closed = false ∧ s.waitCount < maxEventWaitCount ∧
          t = { s with
            waitCount := s.waitCount + 1
            waiting := s.waiting ++ [⟨client, s.nextId, s.events.length⟩] }) := by
  unfold step at h
  dsimp only at h
  split at h
  · cases h
  · rename_i hclient
    refine ⟨hclient, ?_⟩
    split at h
    · exact Or.inl (Option.some.inj h).symm
    · rename_i hroom
      rw [not_or] at hroom
      exact Or.inr ⟨by simpa using hroom.1, Nat.lt_of_not_ge hroom.2, (Option.some.inj h).symm⟩

theorem step_wake {s t : State} {client : Nat} (h : step s (.wake client) = some t) :
    ∃ w ∈ s.waiting, w.client = client ∧
      t = { s with
        waitCount := s.waitCount - 1
        waiting := s.waiting.erase w
        returned := s.returned ++
          [⟨w.client, w.start, s.events.length, true, s.closed, s.outcome w⟩] } := by
  unfold step at h
  dsimp only at h
  split at h
  · cases h
  · rename_i w hfind
    have hclient : w.client = client := by simpa using List.find?_some hfind
    refine ⟨w, List.mem_of_find?_eq_some hfind, hclient, ?_⟩
    rw [hclient]
    exact (Option.some.inj h).symm

theorem sendEvent_cases (s : State) (message : Bytes) :
    s.closed = true ∧ s.sendEvent message = s ∨
      s.closed = false ∧ s.sendEvent message =
        { s with
          currentId := s.nextId
          nextId := s.nextId + 1
          message
          events := s.events ++ [message] } := by
  unfold State.sendEvent
  cases s.closed <;> simp

theorem close_cases (s : State) :
    s.closed = true ∧ s.close = s ∨
      s.close = { s with currentId := s.nextId, nextId := s.nextId + 1, closed := true } := by
  unfold State.close
  cases s.closed <;> simp

theorem Inv.waitEvent {s t : State} {client : Nat} (hs : Inv s)
    (h : step s (.waitEvent client) = some t) : Inv t := by
  obtain ⟨hclient, rfl | ⟨hopen, hroom, rfl⟩⟩ := step_waitEvent h
  · refine { hs with right := fun r hr => ?_, apart := ?_, later := fun r hr w hw hsame => ?_ }
    · obtain hr | hr := List.mem_append.mp hr
      · exact hs.right r hr
      · rw [List.mem_singleton.mp hr]
        exact ⟨le_rfl, le_rfl, rfl⟩
    · refine List.pairwise_append.mpr ⟨hs.apart, List.pairwise_singleton _ _, fun a ha b hb _ => ?_⟩
      rw [List.mem_singleton.mp hb]
      exact (hs.right a ha).2.1
    · obtain hr | hr := List.mem_append.mp hr
      · exact hs.later r hr w hw hsame
      · rw [List.mem_singleton.mp hr] at hsame
        exact absurd (List.mem_map.mpr ⟨w, hw, hsame.symm⟩) hclient
  · have hwaiting : ∀ {w}, w ∈ s.waiting ++ [⟨client, s.nextId, s.events.length⟩] →
        w ∈ s.waiting ∨ w = ⟨client, s.nextId, s.events.length⟩ := by
      intro w hw
      obtain hw | hw := List.mem_append.mp hw
      · exact Or.inl hw
      · exact Or.inr (List.mem_singleton.mp hw)
    constructor
    · simp [hs.count]
    · exact hroom
    · rw [List.map_append, List.nodup_append]
      refine ⟨hs.clients, List.nodup_singleton _, fun a ha b hb hab => ?_⟩
      rw [List.map_singleton, List.mem_singleton] at hb
      rw [hab, hb] at ha
      exact hclient ha
    · intro w hw
      obtain hw | rfl := hwaiting hw
      · exact hs.begun w hw
      · exact le_rfl
    · exact hs.previous
    · intro _ w hw
      obtain hw | rfl := hwaiting hw
      · exact hs.target hopen w hw
      · simp
    · exact hs.last
    · exact hs.right
    · exact hs.apart
    · intro r hr w hw hsame
      obtain hw | rfl := hwaiting hw
      · exact hs.later r hr w hw hsame
      · exact (hs.right r hr).2.1

theorem Inv.wake {s t : State} {client : Nat} (hs : Inv s) (h : step s (.wake client) = some t) :
    Inv t := by
  obtain ⟨w, hw, -, rfl⟩ := step_wake h
  have hleft : ∀ {v}, v ∈ s.waiting.erase w → v ∈ s.waiting := List.mem_of_mem_erase
  have hright := hs.right_outcome hw
  constructor
  · rw [List.length_erase_of_mem hw, hs.count]
  · exact (Nat.sub_le _ _).trans hs.atMost
  · exact hs.clients.sublist (List.erase_sublist.map _)
  · exact fun v hv => hs.begun v (hleft hv)
  · exact hs.previous
  · exact fun hopen v hv => hs.target hopen v (hleft hv)
  · exact hs.last
  · intro r hr
    obtain hr | hr := List.mem_append.mp hr
    · exact hs.right r hr
    · rw [List.mem_singleton.mp hr]
      exact hright
  · refine List.pairwise_append.mpr ⟨hs.apart, List.pairwise_singleton _ _, fun a ha b hb hsame => ?_⟩
    rw [List.mem_singleton.mp hb] at hsame ⊢
    exact hs.later a ha w hw hsame
  · intro r hr v hv hsame
    obtain hr | hr := List.mem_append.mp hr
    · exact hs.later r hr v (hleft hv) hsame
    · -- the client of `w` has no second wait
      rw [List.mem_singleton.mp hr] at hsame
      have hnodup : s.waiting.Nodup := hs.clients.of_map
      have hvw : v = w := List.inj_on_of_nodup_map hs.clients (hleft hv) hw hsame.symm
      rw [hvw] at hv
      exact absurd hv hnodup.not_mem_erase

theorem Inv.sendEvent {s : State} (hs : Inv s) (message : Bytes) : Inv (s.sendEvent message) := by
  obtain ⟨-, heq⟩ | ⟨hopen, heq⟩ := sendEvent_cases s message
  · rw [heq]
    exact hs
  · rw [heq]
    constructor
    · exact hs.count
    · exact hs.atMost
    · exact hs.clients
    · intro w hw
      exact (hs.begun w hw).trans (by simp)
    · intro _
      exact (BitVec.add_sub_cancel _ _).symm
    · intro _ w hw
      have hbegun := hs.begun w hw
      have hlength : (s.events ++ [message]).length - w.start = s.events.length - w.start + 1 := by
        rw [List.length_append, List.length_singleton]
        omega
      dsimp only
      rw [hlength, hs.target hopen w hw, BitVec.ofNat_add, ← BitVec.add_assoc]
      rfl
    · intro _
      simp
    · exact fun r hr => (hs.right r hr).append message
    · exact hs.apart
    · exact hs.later

theorem Inv.close {s : State} (hs : Inv s) : Inv s.close := by
  obtain ⟨-, heq⟩ | heq := close_cases s
  · rw [heq]
    exact hs
  · rw [heq]
    exact
      { hs with
        previous := fun hopen => (Bool.noConfusion hopen)
        target := fun hopen => (Bool.noConfusion hopen) }

theorem inv_step {s t : State} {a : Action} (hs : Inv s) (h : step s a = some t) : Inv t := by
  cases a with
  | waitEvent client => exact hs.waitEvent h
  | wake client => exact hs.wake h
  | sendEvent message =>
      obtain rfl := Option.some.inj h
      exact hs.sendEvent message
  | close =>
      obtain rfl := Option.some.inj h
      exact hs.close

theorem inv_run {as : List Action} {s : State} (hrun : run step {} as = some s) : Inv s := by
  refine run_invariant (I := Inv) (fun _ _ _ hs _ h => inv_step hs h) ?_
    (meets_true _ _) hrun
  constructor
  · rfl
  · exact Nat.zero_le _
  · exact List.nodup_nil
  · intro w hw
    cases hw
  · exact fun _ => rfl
  · intro _ w hw
    cases hw
  · exact fun hne => absurd rfl hne
  · intro r hr
    cases hr
  · exact List.Pairwise.nil
  · intro r hr
    cases hr

/-- **What a client of `/localEvents` is told.** In every run of any number of clients, with any number of
events and waits that end at any time: at most three clients wait, and they are counted right; a wait
that ends before the dispatcher is closed writes the event that came in its time when there was exactly
one (or one more than a multiple of 2^32), and an empty message else, so that of two events in one wait
neither is written; a wait that ends later writes nothing; and the times of the calls of a client do not
overlap. -/
theorem events_written {as : List Action} {s : State} (hrun : run step {} as = some s) :
    (s.waitCount = s.waiting.length ∧ s.waitCount ≤ 3) ∧
      (∀ r ∈ s.returned, r.waited = true →
        if r.closed then r.outcome = .closed
        else ∃ what, r.outcome = .wrote what ∧
          if (r.stop - r.start) % 2 ^ 32 = 1 then s.events[r.stop - 1]? = some what
          else what = emptySseMessage) ∧
      s.returned.Pairwise fun a b => a.client = b.client → a.stop ≤ b.start := by
  have hs := inv_run hrun
  refine ⟨⟨hs.count, hs.atMost⟩, fun r hr hwaited => ?_, hs.apart⟩
  obtain ⟨-, -, htold⟩ := hs.right r hr
  rwa [if_pos hwaited] at htold

/-- The first client misses two events, the second is told of the one that came in its time, the third is
still waiting at `Close`. -/
def twoEvents : List Action :=
  [.waitEvent 0, .sendEvent (lit "a"), .waitEvent 1, .sendEvent (lit "b"), .waitEvent 2, .wake 0, .wake 1,
    .close, .wake 2, .waitEvent 0]

theorem events_written_two :
    let s := (run step {} twoEvents).get rfl
    s.returned = [⟨0, 0, 2, true, false, .wrote emptySseMessage⟩,
        ⟨1, 1, 2, true, false, .wrote (lit "b")⟩, ⟨2, 2, 2, true, true, .closed⟩,
        ⟨0, 2, 2, false, true, .refused⟩] ∧
      (s.waitCount = s.waiting.length ∧ s.waitCount ≤ 3) ∧
      (∀ r ∈ s.returned, r.waited = true →
        if r.closed then r.outcome = .closed
        else ∃ what, r.outcome = .wrote what ∧
          if (r.stop - r.start) % 2 ^ 32 = 1 then s.events[r.stop - 1]? = some what
          else what = emptySseMessage) ∧
      s.returned.Pairwise fun a b => a.client = b.client → a.stop ≤ b.start := by
  intro s
  have hrun : run step {} twoEvents = some s := (Option.some_get _).symm
  exact ⟨by decide, events_written hrun⟩

/-! ## After `Close` -/

theorem closed_step {s t : State} {a : Action} (hclosed : s.closed = true) (h : step s a = some t) :
    t.closed = true ∧ t.waiting.Sublist s.waiting ∧ t.events = s.events ∧
      ∃ later, t.returned = s.returned ++ later ∧
        ∀ r ∈ later, r.outcome = .refused ∨ r.outcome = .closed := by
  cases a with
  | waitEvent client =>
      obtain ⟨-, rfl | ⟨hopen, -⟩⟩ := step_waitEvent h
      · refine ⟨hclosed, List.Sublist.refl _, rfl, _, rfl, fun r hr => ?_⟩
        rw [List.mem_singleton.mp hr]
        exact Or.inl rfl
      · exact absurd (hopen.symm.trans hclosed) Bool.false_ne_true
  | wake client =>
      obtain ⟨w, hw, -, rfl⟩ := step_wake h
      refine ⟨hclosed, List.erase_sublist, rfl, _, rfl, fun r hr => ?_⟩
      rw [List.mem_singleton.mp hr]
      exact Or.inr (if_pos hclosed)
  | sendEvent message =>
      obtain rfl := Option.some.inj h
      rw [State.sendEvent, if_pos hclosed]
      exact ⟨hclosed, List.Sublist.refl _, rfl, [], (List.append_nil _).symm, fun r hr => by cases hr⟩
  | close =>
      obtain rfl := Option.some.inj h
      rw [State.close, if_pos hclosed]
      exact ⟨hclosed, List.Sublist.refl _, rfl, [], (List.append_nil _).symm, fun r hr => by cases hr⟩

/-- **After `Close` the waits only end.** In every run from a closed dispatcher nothing is written any more,
each call returns false, and no call waits that did not wait before. -/
theorem closed_run {as : List Action} {s t : State} (hclosed : s.closed = true)
    (hrun : run step s as = some t) :
    t.closed = true ∧ t.waiting.Sublist s.waiting ∧ t.events = s.events ∧
      ∃ later, t.returned = s.returned ++ later ∧
        ∀ r ∈ later, r.outcome = .refused ∨ r.outcome = .closed := by
  refine run_invariant
    (I := fun t => t.closed = true ∧ t.waiting.Sublist s.waiting ∧ t.events = s.events ∧
      ∃ later, t.returned = s.returned ++ later ∧
        ∀ r ∈ later, r.outcome = .refused ∨ r.outcome = .closed) ?_ ?_ (meets_true _ _) hrun
  · rintro u a v ⟨hu, hwaiting, hevents, later, hlater, hall⟩ - h
    obtain ⟨hv, hwaiting', hevents', more, hmore, hall'⟩ := closed_step hu h
    refine ⟨hv, hwaiting'.trans hwaiting, hevents'.trans hevents, later ++ more, ?_, fun r hr => ?_⟩
    · rw [hmore, hlater, List.append_assoc]
    · obtain hr | hr := List.mem_append.mp hr
      · exact hall r hr
      · exact hall' r hr
  · exact ⟨hclosed, List.Sublist.refl _, rfl, [], (List.append_nil _).symm, fun r hr => by cases hr⟩

theorem closed_run_twoWaiting :
    let s := (run step {} [.waitEvent 0, .waitEvent 1, .sendEvent (lit "a"), .close]).get rfl
    let t := (run step s [.wake 1, .waitEvent 1, .sendEvent (lit "b"), .wake 0]).get rfl
    t.closed = true ∧ t.waiting.Sublist s.waiting ∧ t.events = s.events ∧
      ∃ later, t.returned = s.returned ++ later ∧
        ∀ r ∈ later, r.outcome = .refused ∨ r.outcome = .closed := by
  intro s t
  have hrun : run step s [.wake 1, .waitEvent 1, .sendEvent (lit "b"), .wake 0] = some t :=
    (Option.some_get _).symm
  exact closed_run rfl hrun

end Harbor.Ui.Events
