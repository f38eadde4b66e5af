import Harbor.Lib.Bytes
import Harbor.Lib.Runs
import Harbor.Lib.Store

set_option autoImplicit false

/-! # Local transactions on one Quack session

An attached catalog has one session on the server, and all local transactions send their requests
there. `QuackTransaction` begins the remote transaction with its first query; the rows of an INSERT are
appended without it. The model has any number of local transactions. A call first decides what it
sends, and the requests go out one by one, so that those of other transactions may come in between.

What `RequestInternal` is asked to send comes to the engine of the server any number of times: not at all
when the message cannot be sent or the server turns it down, and more than once when the HTTP library
tries again. Whatever came, the answer may be lost (`Failed to send message`), and after a timeout a request
may still come when its call is over. The engine is any session of a transactional store, with a note of who
began its open transaction.
-/

namespace Harbor.Quack.Transaction

open Runs

/-! ## The client -/

inductive QuackTransactionState where
  | notYetStarted
  | started
  | finished
deriving DecidableEq, Repr

/-- What is done in a transaction: a text that neither begins nor ends one, and the rows of an
`APPEND_REQUEST` of `QuackInsert::Sink`. -/
inductive Write (Q A : Type) where
  | query (sql : Q)
  | append (rows : A)
deriving DecidableEq, Repr

/-- What is sent; the texts of the first three are `BEGIN TRANSACTION`, `COMMIT` and `ROLLBACK`. -/
abbrev Request (Q A : Type) := Statement (Write Q A)

/-- The methods of a `QuackTransaction`, and the `Sink` of an insert, which does not look at it. -/
inductive Call (Q A : Type) where
  | query (sql : Q)
  | forceStart
  | commit
  | rollback
  | append (rows : A)
deriving DecidableEq, Repr

variable {Q A σ D ω : Type}

def Call.isAppend : Call Q A → Bool
  | .append _ => true
  | _ => false

/-- The state a method leaves, and what it sends; the state is set before the request is sent. -/
def call : QuackTransactionState → Call Q A → QuackTransactionState × List (Request Q A)
  | .notYetStarted, .query sql => (.started, [.begin, .run (.query sql)])
  | state, .query sql => (state, [.run (.query sql)])
  | .notYetStarted, .forceStart => (.started, [.begin])
  | state, .forceStart => (state, [])
  | .started, .commit => (.finished, [.commit])
  | state, .commit => (state, [])
  | .started, .rollback => (.finished, [.rollback])
  | state, .rollback => (state, [])
  | state, .append rows => (state, [.run (.append rows)])

/-- A `QuackTransaction`, what the method that it is in still has to send, and the request that is under
way with what the server has made of it so far. -/
structure Local (Q A : Type) where
  state : QuackTransactionState := .notYetStarted
  contextAlive : Bool := true
  pending : List (Request Q A) := []
  inFlight : Option (Request Q A × Option Bool) := none
deriving Repr

/-- No method of the transaction is running. -/
def Local.isIdle (l : Local Q A) : Bool := l.pending.isEmpty && l.inFlight.isNone

/-! ## The steps -/

/-- A request the engine got, whether it succeeded, who had begun the transaction that was open, and whether
no call waited for it any more. -/
structure Entry (Q A : Type) where
  transaction : Nat
  request : Request Q A
  ok : Bool
  owner : Option Nat
  late : Bool
deriving DecidableEq, Repr

def Entry.outcome (e : Entry Q A) : Request Q A × Bool := (e.request, e.ok)

structure State (σ Q A : Type) where
  locals : Nat → Local Q A := fun _ => {}
  remote : σ
  owner : Option Nat := none
  sent : List (Nat × Request Q A) := []
  log : List (Entry Q A) := []

inductive Action (Q A ω : Type) where
  | call (i : Nat) (call : Call Q A)
  /-- The next request of the call. -/
  | send (i : Nat)
  /-- The request comes to the engine. -/
  | deliver (i : Nat) (w : ω)
  /-- The request is over; with an error the rest of the call is not sent. -/
  | finish (i : Nat) (ok : Bool)
  /-- The `k`-th of all requests that were sent comes to the engine, and no call waits for the answer. -/
  | late (k : Nat) (w : ω)
  /-- The `ClientContext` is destroyed: from here on the queries are silently ignored. -/
  | destroyContext (i : Nat)
deriving DecidableEq, Repr

def State.setLocal (s : State σ Q A) (i : Nat) (l : Local Q A) : State σ Q A :=
  { s with locals := Function.update s.locals i l }

/-- Who began the transaction that is open after a request. -/
def ownerAfter (owner : Option Nat) (i : Nat) : Request Q A → Bool → Bool → Option Nat
  | _, _, false => none
  | .begin, true, true => some i
  | _, _, true => owner

variable (store : Store σ (Write Q A) D ω)

/-- A request comes to the engine. -/
def State.exec (s : State σ Q A) (i : Nat) (request : Request Q A) (late : Bool) (w : ω) : State σ Q A :=
  let (ok, remote) := store.exec s.remote request w
  { s with
    remote
    owner := ownerAfter s.owner i request ok (store.isOpen remote)
    log := s.log ++ [⟨i, request, ok, s.owner, late⟩] }

/-- The call that waits for it gets the answer. -/
def State.deliver (s : State σ Q A) (i : Nat) (request : Request Q A) (w : ω) : State σ Q A :=
  (s.exec store i request false w).setLocal i
    { s.locals i with inFlight := some (request, some (store.exec s.remote request w).1) }

def step (s : State σ Q A) : Action Q A ω → Option (State σ Q A)
  | .call i c =>
      if (s.locals i).isIdle && ((s.locals i).contextAlive || !c.isAppend) then
        some (s.setLocal i
          { s.locals i with
            state := (call (s.locals i).state c).1
            pending := (call (s.locals i).state c).2 })
      else none
  | .send i =>
      match (s.locals i).inFlight, (s.locals i).pending with
      | none, request :: pending =>
          if (s.locals i).contextAlive then
            some { s.setLocal i { s.locals i with pending, inFlight := some (request, none) } with
              sent := s.sent ++ [(i, request)] }
          else some (s.setLocal i { s.locals i with pending })
      | _, _ => none
  | .deliver i w =>
      match (s.locals i).inFlight with
      | none => none
      | some (request, _) => some (s.deliver store i request w)
  | .finish i ok =>
      match (s.locals i).inFlight with
      | none => none
      | some (_, answer) =>
          if ok = true → answer = some true then
            some (s.setLocal i
              { s.locals i with
                inFlight := none
                pending := if ok then (s.locals i).pending else [] })
          else none
  | .late k w =>
      match s.sent[k]? with
      | none => none
      | some (i, request) => some (s.exec store i request true w)
  | .destroyContext i =>
      if (s.locals i).inFlight.isNone then
        some (s.setLocal i { s.locals i with contextAlive := false })
      else none

/-- The state at first. -/
def start (remote : σ) : State σ Q A := { remote }

/-! ## One step -/

section Steps

variable {store} {s t : State σ Q A} {i : Nat}

theorem step_call {c : Call Q A} (h : step store s (.call i c) = some t) :
    (s.locals i).pending = [] ∧ (s.locals i).inFlight = none ∧
      (c.isAppend = true → (s.locals i).contextAlive = true) ∧
      t = s.setLocal i
        { s.locals i with
          state := (call (s.locals i).state c).1
          pending := (call (s.locals i).state c).2 } := by
  unfold step at h
  dsimp only at h
  split at h
  · rename_i hidle
    simp only [Local.isIdle, Bool.and_eq_true, List.isEmpty_iff, Option.isNone_iff_eq_none,
      Bool.or_eq_true, Bool.not_eq_true'] at hidle
    obtain ⟨⟨hpending, hinFlight⟩, halive⟩ := hidle
    refine ⟨hpending, hinFlight, fun happend => ?_, (Option.some.inj h).symm⟩
    exact halive.resolve_right fun hnot => Bool.false_ne_true (hnot.symm.trans happend)
  · cases h

theorem step_send (h : step store s (.send i) = some t) :
    ∃ request pending, (s.locals i).inFlight = none ∧ (s.locals i).pending = request :: pending ∧
      ((s.locals i).contextAlive = true ∧
          t = { s.setLocal i { s.locals i with pending, inFlight := some (request, none) } with
            sent := s.sent ++ [(i, request)] } ∨
        (s.locals i).contextAlive = false ∧ t = s.setLocal i { s.locals i with pending }) := by
  unfold step at h
  dsimp only at h
  split at h
  · rename_i request pending hinFlight hpending
    refine ⟨request, pending, hinFlight, hpending, ?_⟩
    split at h
    · rename_i halive
      exact Or.inl ⟨halive, (Option.some.inj h).symm⟩
    · rename_i halive
      exact Or.inr ⟨by simpa using halive, (Option.some.inj h).symm⟩
  · cases h

theorem step_deliver {w : ω} (h : step store s (.deliver i w) = some t) :
    ∃ request answer ok remote, (s.locals i).inFlight = some (request, answer) ∧
      store.exec s.remote request w = (ok, remote) ∧
      t = { s.setLocal i { s.locals i with inFlight := some (request, some ok) } with
        remote
        owner := ownerAfter s.owner i request ok (store.isOpen remote)
        log := s.log ++ [⟨i, request, ok, s.owner, false⟩] } := by
  unfold step at h
  dsimp only at h
  split at h
  · cases h
  · rename_i request answer hinFlight
    exact ⟨request, answer, _, _, hinFlight, rfl, (Option.some.inj h).symm⟩

theorem step_late {k : Nat} {w : ω} (h : step store s (.late k w) = some t) :
    ∃ i request ok remote, (i, request) ∈ s.sent ∧ store.exec s.remote request w = (ok, remote) ∧
      t = { s with
        remote
        owner := ownerAfter s.owner i request ok (store.isOpen remote)
        log := s.log ++ [⟨i, request, ok, s.owner, true⟩] } := by
  unfold step at h
  dsimp only at h
  split at h
  · cases h
  · rename_i i request hsent
    exact ⟨i, request, _, _, List.mem_of_getElem? hsent, rfl, (Option.some.inj h).symm⟩

theorem step_finish {ok : Bool} (h : step store s (.finish i ok) = some t) :
    ∃ request answer, (s.locals i).inFlight = some (request, answer) ∧ (ok = true → answer = some true) ∧
      t = s.setLocal i
        { s.locals i with
          inFlight := none
          pending := if ok then (s.locals i).pending else [] } := by
  unfold step at h
  dsimp only at h
  split at h
  · cases h
  · rename_i request answer hinFlight
    split at h
    · rename_i hanswer
      exact ⟨request, answer, hinFlight, hanswer, (Option.some.inj h).symm⟩
    · cases h

theorem step_destroyContext (h : step store s (.destroyContext i) = some t) :
    (s.locals i).inFlight = none ∧ t = s.setLocal i { s.locals i with contextAlive := false } := by
  unfold step at h
  dsimp only at h
  split at h
  · rename_i hnone
    exact ⟨Option.isNone_iff_eq_none.mp hnone, (Option.some.inj h).symm⟩
  · cases h

@[simp] theorem setLocal_self (s : State σ Q A) (i : Nat) (l : Local Q A) : (s.setLocal i l).locals i = l := by
  simp only [State.setLocal, Function.update_self]

theorem setLocal_other (s : State σ Q A) {i j : Nat} (h : j ≠ i) (l : Local Q A) :
    (s.setLocal i l).locals j = s.locals j := by
  simp only [State.setLocal, Function.update_of_ne h]

end Steps

/-! ## What is sent, and what comes to the engine -/

/-- The requests that one transaction has sent. -/
def sentOf (i : Nat) (sent : List (Nat × Request Q A)) : List (Request Q A) :=
  sent.filterMap fun x => if x.1 = i then some x.2 else none

/-- Those the engine got while the call waited. -/
def deliveredOf (i : Nat) (log : List (Entry Q A)) : List (Request Q A) :=
  log.filterMap fun e => if e.transaction = i ∧ e.late = false then some e.request else none

theorem sentOf_append (i : Nat) (sent later : List (Nat × Request Q A)) :
    sentOf i (sent ++ later) = sentOf i sent ++ sentOf i later :=
  List.filterMap_append

theorem deliveredOf_append (i : Nat) (log later : List (Entry Q A)) :
    deliveredOf i (log ++ later) = deliveredOf i log ++ deliveredOf i later :=
  List.filterMap_append

theorem sentOf_self (i : Nat) (request : Request Q A) : sentOf i [(i, request)] = [request] := by
  simp [sentOf]

theorem sentOf_other {i j : Nat} (h : i ≠ j) (request : Request Q A) : sentOf j [(i, request)] = [] := by
  simp [sentOf, h]

theorem deliveredOf_self (i : Nat) (request : Request Q A) (ok : Bool) (owner : Option Nat) :
    deliveredOf i [⟨i, request, ok, owner, false⟩] = [request] := by
  simp [deliveredOf]

theorem deliveredOf_other {i j : Nat} (h : i ≠ j) (request : Request Q A) (ok : Bool)
    (owner : Option Nat) : deliveredOf j [⟨i, request, ok, owner, false⟩] = [] := by
  simp [deliveredOf, h]

theorem deliveredOf_late (i j : Nat) (request : Request Q A) (ok : Bool) (owner : Option Nat) :
    deliveredOf j [⟨i, request, ok, owner, true⟩] = [] := by
  simp [deliveredOf]

/-- Of what is sent each comes any number of times, in order. -/
inductive Repeated {α : Type} : List α → List α → Prop where
  | nil : Repeated [] []
  | send {sent got : List α} (a : α) : Repeated sent got → Repeated (sent ++ [a]) got
  | deliver {sent got : List α} {a : α} : Repeated (sent ++ [a]) got → Repeated (sent ++ [a]) (got ++ [a])

theorem Repeated.subset {α : Type} {sent got : List α} (h : Repeated sent got) : got ⊆ sent := by
  induction h with
  | nil => exact List.Subset.refl _
  | send a _ ih => exact List.Subset.trans ih (List.subset_append_left _ _)
  | deliver _ ih => exact List.append_subset.mpr ⟨ih, List.subset_append_right _ _⟩

/-- What may be sent for a transaction: its BEGIN, queries, its end, and queries behind it; and rows at any
time. -/
def protocol : QuackTransactionState → Request Q A → Option QuackTransactionState
  | state, .run (.append _) => some state
  | .notYetStarted, .begin => some .started
  | .started, .run (.query _) => some .started
  | .started, .commit => some .finished
  | .started, .rollback => some .finished
  | .finished, .run (.query _) => some .finished
  | _, _ => none

def IsQuery (request : Request Q A) : Prop := ∃ sql, request = .run (.query sql)

/-- A method sends what comes next. -/
theorem run_protocol_call (state : QuackTransactionState) (c : Call Q A) :
    run protocol state (call state c).2 = some (call state c).1 := by
  cases state <;> cases c <;> rfl

theorem call_tail (state : QuackTransactionState) (c : Call Q A) :
    ∀ request ∈ (call state c).2.tail, IsQuery request := by
  cases state <;> cases c <;> simp [call, IsQuery]

/-- A query leaves the state as it is. -/
theorem protocol_query {state next : QuackTransactionState} {request : Request Q A} (hquery : IsQuery request)
    (h : protocol state request = some next) : next = state ∧ state ≠ .notYetStarted := by
  obtain ⟨sql, rfl⟩ := hquery
  cases state with
  | notYetStarted => cases h
  | started => exact ⟨(Option.some.inj h).symm, QuackTransactionState.noConfusion⟩
  | finished => exact ⟨(Option.some.inj h).symm, QuackTransactionState.noConfusion⟩

theorem run_protocol_queries {pending : List (Request Q A)} (hqueries : ∀ r ∈ pending, IsQuery r) :
    ∀ {state state' : QuackTransactionState}, run protocol state pending = some state' →
      state = state' := by
  induction pending with
  | nil =>
      intro state state' h
      exact Option.some.inj h
  | cons r pending ih =>
      intro state state' h
      rw [run_cons] at h
      obtain ⟨next, hnext, hrest⟩ := Option.bind_eq_some_iff.mp h
      obtain ⟨rfl, -⟩ := protocol_query (hqueries r List.mem_cons_self) hnext
      exact ih (fun r hr => hqueries r (List.mem_cons_of_mem _ hr)) hrest

/-- What holds of one transaction, of what it has sent and of what the engine got of that. -/
structure Orderly (l : Local Q A) (sent delivered : List (Request Q A)) : Prop where
  protocol : (run protocol .notYetStarted sent).isSome
  alive : l.contextAlive = true → run Transaction.protocol .notYetStarted (sent ++ l.pending) = some l.state
  queries : ∀ r ∈ l.pending.tail, IsQuery r
  following : l.inFlight ≠ none → l.contextAlive = true ∧ ∀ r ∈ l.pending, IsQuery r
  repeated : Repeated sent delivered
  underWay : ∀ r answer, l.inFlight = some (r, answer) →
    ∃ before, sent = before ++ [r] ∧ (answer = none → Repeated before delivered)

/-- How far the requests have come without the one that is under way. -/
theorem Orderly.before {l : Local Q A} {sent delivered : List (Request Q A)} (h : Orderly l sent delivered)
    {r : Request Q A} {answer : Option Bool} (hinFlight : l.inFlight = some (r, answer)) :
    ∃ before state, sent = before ++ [r] ∧ (answer = none → Repeated before delivered) ∧
      run Transaction.protocol .notYetStarted before = some state ∧
      Transaction.protocol state r = some l.state := by
  obtain ⟨before, hsent, hrepeated⟩ := h.underWay r answer hinFlight
  obtain ⟨halive, hqueries⟩ := h.following (by simp [hinFlight])
  have hrun := h.alive halive
  rw [hsent, List.append_assoc, run_append] at hrun
  obtain ⟨state, hstate, hrest⟩ := Option.bind_eq_some_iff.mp hrun
  rw [List.singleton_append, run_cons] at hrest
  obtain ⟨next, hnext, hrest⟩ := Option.bind_eq_some_iff.mp hrest
  rw [← run_protocol_queries hqueries hrest]
  exact ⟨before, state, hsent, hrepeated, hstate, hnext⟩

section Orderly

variable {store} {s t : State σ Q A}

/-- The transaction of a step; the others do not take part in it. What comes late is of no call. -/
def Action.actor : Action Q A ω → Option Nat
  | .call i _ | .send i | .deliver i _ | .finish i _ | .destroyContext i => some i
  | .late _ _ => none

theorem step_other {a : Action Q A ω} (h : step store s a = some t) {j : Nat} (hj : some j ≠ a.actor) :
    t.locals j = s.locals j ∧ sentOf j t.sent = sentOf j s.sent ∧
      deliveredOf j t.log = deliveredOf j s.log := by
  have hne : ∀ {i}, a.actor = some i → j ≠ i := fun hactor hji => hj (by rw [hactor, hji])
  cases a with
  | call i c =>
      obtain ⟨-, -, -, rfl⟩ := step_call h
      exact ⟨setLocal_other s (hne rfl) _, rfl, rfl⟩
  | send i =>
      obtain ⟨request, pending, -, -, ⟨-, rfl⟩ | ⟨-, rfl⟩⟩ := step_send h
      · refine ⟨setLocal_other s (hne rfl) _, ?_, rfl⟩
        rw [sentOf_append, sentOf_other (i := i) (hne rfl).symm, List.append_nil]
      · exact ⟨setLocal_other s (hne rfl) _, rfl, rfl⟩
  | deliver i w =>
      obtain ⟨request, answer, ok, remote, -, -, rfl⟩ := step_deliver h
      refine ⟨setLocal_other s (hne rfl) _, rfl, ?_⟩
      rw [deliveredOf_append, deliveredOf_other (i := i) (hne rfl).symm, List.append_nil]
  | finish i ok =>
      obtain ⟨request, answer, -, -, rfl⟩ := step_finish h
      exact ⟨setLocal_other s (hne rfl) _, rfl, rfl⟩
  | late k w =>
      obtain ⟨i, request, ok, remote, -, -, rfl⟩ := step_late h
      refine ⟨rfl, rfl, ?_⟩
      rw [deliveredOf_append, deliveredOf_late, List.append_nil]
  | destroyContext i =>
      obtain ⟨-, rfl⟩ := step_destroyContext h
      exact ⟨setLocal_other s (hne rfl) _, rfl, rfl⟩

theorem orderly_step {a : Action Q A ω} {i : Nat}
    (hs : Orderly (s.locals i) (sentOf i s.sent) (deliveredOf i s.log)) (h : step store s a = some t) :
    Orderly (t.locals i) (sentOf i t.sent) (deliveredOf i t.log) := by
  by_cases hi : some i = a.actor
  swap
  · obtain ⟨hlocal, hsent, hdelivered⟩ := step_other h hi
    rwa [hlocal, hsent, hdelivered]
  cases a with
  | call j c =>
      obtain rfl := Option.some.inj hi
      obtain ⟨hpending, hnone, -, rfl⟩ := step_call h
      rw [setLocal_self]
      refine ⟨hs.protocol, fun halive => ?_, call_tail _ c, fun hne => absurd hnone hne, hs.repeated, ?_⟩
      · have hbefore := hs.alive halive
        rw [hpending, List.append_nil] at hbefore
        exact (run_append_of_run hbefore _).trans (run_protocol_call _ c)
      · intro r answer hinFlight
        cases hnone.symm.trans hinFlight
  | send j =>
      obtain rfl := Option.some.inj hi
      obtain ⟨request, pending, hnone, hpending, ⟨halive, rfl⟩ | ⟨hdead, rfl⟩⟩ := step_send h
      · have hqueries := hs.queries
        have hrun := hs.alive halive
        rw [hpending] at hqueries hrun
        have hsplit : run protocol .notYetStarted (sentOf i s.sent ++ [request] ++ pending) =
            some (s.locals i).state := by
          rw [List.append_assoc]
          exact hrun
        have hsent : sentOf i (s.sent ++ [(i, request)]) = sentOf i s.sent ++ [request] := by
          rw [sentOf_append, sentOf_self]
        dsimp only
        rw [setLocal_self, hsent]
        refine ⟨?_, fun _ => hsplit, fun r hr => hqueries r (List.mem_of_mem_tail hr),
          fun _ => ⟨halive, hqueries⟩, hs.repeated.send _, ?_⟩
        · rw [run_append] at hsplit
          obtain ⟨state, hstate, -⟩ := Option.bind_eq_some_iff.mp hsplit
          rw [hstate]
          rfl
        · intro r answer hinFlight
          cases hinFlight
          exact ⟨_, rfl, fun _ => hs.repeated⟩
      · have hqueries := hs.queries
        rw [hpending] at hqueries
        rw [setLocal_self]
        refine ⟨hs.protocol, fun halive => ?_, fun r hr => hqueries r (List.mem_of_mem_tail hr),
          fun hne => absurd hnone hne, hs.repeated, hs.underWay⟩
        exact absurd (hdead.symm.trans halive) Bool.false_ne_true
  | deliver j w =>
      obtain rfl := Option.some.inj hi
      obtain ⟨request, answer, ok, remote, hinFlight, -, rfl⟩ := step_deliver h
      obtain ⟨before, hsent, hrepeated⟩ := hs.underWay _ _ hinFlight
      have hlog : deliveredOf i (s.log ++ [⟨i, request, ok, s.owner, false⟩]) =
          deliveredOf i s.log ++ [request] := by
        rw [deliveredOf_append, deliveredOf_self]
      have hmore : Repeated (sentOf i s.sent) (deliveredOf i s.log ++ [request]) := by
        have hagain := hs.repeated
        rw [hsent] at hagain ⊢
        exact hagain.deliver
      dsimp only
      rw [setLocal_self, hlog]
      refine ⟨hs.protocol, hs.alive, hs.queries, fun _ => hs.following (by simp [hinFlight]), hmore, ?_⟩
      intro r answer' hinFlight'
      cases hinFlight'
      exact ⟨before, hsent, fun hnone => by cases hnone⟩
  | finish j ok =>
      obtain rfl := Option.some.inj hi
      obtain ⟨request, answer, hinFlight, -, rfl⟩ := step_finish h
      obtain ⟨halive, hqueries⟩ := hs.following (by simp [hinFlight])
      rw [setLocal_self]
      refine ⟨hs.protocol, fun _ => ?_, ?_, fun hne => absurd rfl hne, hs.repeated,
        fun r answer hnone => by cases hnone⟩
      · have hrun := hs.alive halive
        dsimp only
        split
        · exact hrun
        · -- what is not sent any more are queries
          rw [run_append] at hrun
          obtain ⟨state, hstate, hrest⟩ := Option.bind_eq_some_iff.mp hrun
          rw [List.append_nil, ← run_protocol_queries hqueries hrest]
          exact hstate
      · dsimp only
        split
        · exact fun r hr => hqueries r (List.mem_of_mem_tail hr)
        · exact fun r hr => by cases hr
  | late k w => cases hi
  | destroyContext j =>
      obtain rfl := Option.some.inj hi
      obtain ⟨hnone, rfl⟩ := step_destroyContext h
      rw [setLocal_self]
      exact ⟨hs.protocol, fun halive => (by cases halive), hs.queries, fun hne => absurd hnone hne,
        hs.repeated, hs.underWay⟩

theorem orderly_run {remote : σ} {as : List (Action Q A ω)}
    (hrun : run (step store) (start remote) as = some s) (i : Nat) : Orderly (s.locals i) (sentOf i s.sent) (deliveredOf i s.log) := by
  have hstart : Orderly (Q := Q) (A := A) {} [] [] :=
    ⟨rfl, fun _ => rfl, fun r hr => (by cases hr), fun hne => absurd rfl hne, .nil,
      fun r answer h => (by cases h)⟩
  exact run_invariant (I := fun s => Orderly (s.locals i) (sentOf i s.sent) (deliveredOf i s.log))
    (fun _ _ _ hs _ h => orderly_step hs h) hstart (meets_true _ _) hrun

/-- What was sent stays sent. -/
theorem sent_step {a : Action Q A ω} (h : step store s a = some t) :
    t.sent = s.sent ∨ ∃ i request pending, a = .send i ∧ (s.locals i).pending = request :: pending ∧
      t.sent = s.sent ++ [(i, request)] := by
  cases a with
  | call i c =>
      obtain ⟨-, -, -, rfl⟩ := step_call h
      exact Or.inl rfl
  | send i =>
      obtain ⟨request, pending, -, hpending, ⟨-, rfl⟩ | ⟨-, rfl⟩⟩ := step_send h
      · exact Or.inr ⟨i, request, pending, rfl, hpending, rfl⟩
      · exact Or.inl rfl
  | deliver i w =>
      obtain ⟨request, answer, ok, remote, -, -, rfl⟩ := step_deliver h
      exact Or.inl rfl
  | finish i ok =>
      obtain ⟨request, answer, -, -, rfl⟩ := step_finish h
      exact Or.inl rfl
  | late k w =>
      obtain ⟨i, request, ok, remote, -, -, rfl⟩ := step_late h
      exact Or.inl rfl
  | destroyContext i =>
      obtain ⟨-, rfl⟩ := step_destroyContext h
      exact Or.inl rfl

theorem log_step {a : Action Q A ω} (h : step store s a = some t) :
    t.log = s.log ∨ ∃ e, t.log = s.log ++ [e] ∧ (e.late = true → (e.transaction, e.request) ∈ s.sent) := by
  cases a with
  | call i c =>
      obtain ⟨-, -, -, rfl⟩ := step_call h
      exact Or.inl rfl
  | send i =>
      obtain ⟨request, pending, -, -, ⟨-, rfl⟩ | ⟨-, rfl⟩⟩ := step_send h
      · exact Or.inl rfl
      · exact Or.inl rfl
  | deliver i w =>
      obtain ⟨request, answer, ok, remote, -, -, rfl⟩ := step_deliver h
      exact Or.inr ⟨_, rfl, fun hlate => by cases hlate⟩
  | finish i ok =>
      obtain ⟨request, answer, -, -, rfl⟩ := step_finish h
      exact Or.inl rfl
  | late k w =>
      obtain ⟨i, request, ok, remote, hsent, -, rfl⟩ := step_late h
      exact Or.inr ⟨_, rfl, fun _ => hsent⟩
  | destroyContext i =>
      obtain ⟨-, rfl⟩ := step_destroyContext h
      exact Or.inl rfl

theorem late_sent_run {remote : σ} {as : List (Action Q A ω)}
    (hrun : run (step store) (start remote) as = some s) :
    ∀ e ∈ s.log, e.late = true → (e.transaction, e.request) ∈ s.sent := by
  refine run_invariant (I := fun s => ∀ e ∈ s.log, e.late = true → (e.transaction, e.request) ∈ s.sent)
    (fun s a t hs _ h e he hlate => ?_) (fun e he => by cases he) (meets_true _ _) hrun
  have hold : (e.transaction, e.request) ∈ s.sent → (e.transaction, e.request) ∈ t.sent := by
    obtain hsent | ⟨i, request, pending, -, -, hsent⟩ := sent_step h
    · rw [hsent]
      exact id
    · rw [hsent]
      exact List.mem_append_left _
  obtain hlog | ⟨e', hlog, hnew⟩ := log_step h
  · exact hold (hs e (hlog ▸ he) hlate)
  · rw [hlog, List.mem_append, List.mem_singleton] at he
    obtain he | rfl := he
    · exact hold (hs e he hlate)
    · exact hold (hnew hlate)

end Orderly

/-- **What the server is sent for a transaction.** In every run of any number of local transactions, with
requests that are lost, repeated or fail and contexts that are destroyed at any time: the requests of each
of them begin with its BEGIN, rows apart, have at most one COMMIT or ROLLBACK, and nothing but queries
otherwise; each of them comes to the engine any number of times, in this order, while its call waits; and
what comes later is one of them. -/
theorem transaction_protocol {remote : σ} {as : List (Action Q A ω)} {s : State σ Q A}
    (hrun : run (step store) (start remote) as = some s) (i : Nat) :
    (run protocol .notYetStarted (sentOf i s.sent)).isSome ∧
      Repeated (sentOf i s.sent) (deliveredOf i s.log) ∧
      ∀ e ∈ s.log, e.transaction = i → e.late = true → e.request ∈ sentOf i s.sent := by
  refine ⟨(orderly_run hrun i).protocol, (orderly_run hrun i).repeated, fun e he hi hlate => ?_⟩
  exact List.mem_filterMap.mpr ⟨_, late_sent_run hrun e he hlate, if_pos hi⟩

/-- A row is appended, and then a table is to be created in the transaction: its BEGIN is lost, the ROLLBACK
is sent without it, and then the BEGIN comes after all. -/
def lostBegin : List (Action Bytes Bytes Bool) :=
  [.call 0 (.append (lit "row")), .send 0, .deliver 0 true, .finish 0 true,
    .call 0 (.query (lit "CREATE TABLE t(i INT)")), .send 0, .finish 0 false,
    .call 0 .rollback, .send 0, .deliver 0 true, .deliver 0 true, .finish 0 false, .late 1 true]

theorem transaction_protocol_lostBegin :
    let s := (run (step Store.doing) (start {}) lostBegin).get rfl
    sentOf 0 s.sent = [.run (.append (lit "row")), .begin, .rollback] ∧
      deliveredOf 0 s.log = [.run (.append (lit "row")), .rollback, .rollback] ∧
      Store.doing.isOpen s.remote = true ∧
      (run protocol .notYetStarted (sentOf 0 s.sent)).isSome ∧
      Repeated (sentOf 0 s.sent) (deliveredOf 0 s.log) ∧
      ∀ e ∈ s.log, e.transaction = 0 → e.late = true → e.request ∈ sentOf 0 s.sent := by
  intro s
  have hrun : run (step Store.doing) (start {}) lostBegin = some s := (Option.some_get _).symm
  exact ⟨rfl, rfl, rfl, transaction_protocol Store.doing hrun 0⟩

/-! ## Whose transaction a request is in -/

/-- No BEGIN is refused or lost, no request comes to the engine twice or late, and nothing is queried in a
transaction that is over (its object is gone then). -/
def Smooth (s : State σ Q A) : Action Q A ω → Prop
  | .call i (.query _) => (s.locals i).state ≠ .finished
  | .deliver i w =>
      match (s.locals i).inFlight with
      | none => True
      | some (request, answer) =>
          answer = none ∧ (request = .begin → (store.exec s.remote request w).1 = true)
  | .finish i _ => (s.locals i).inFlight ≠ some (.begin, none)
  | .late _ _ => False
  | _ => True

instance decidableSmooth [DecidableEq Q] [DecidableEq A] (s : State σ Q A) :
    ∀ a, Decidable (Smooth store s a)
  | .call i (.query _) => inferInstanceAs (Decidable ((s.locals i).state ≠ .finished))
  | .call _ .forceStart | .call _ .commit | .call _ .rollback | .call _ (.append _) => isTrue trivial
  | .deliver i w =>
      match h : (s.locals i).inFlight with
      | none => isTrue (by simp [Smooth, h])
      | some (request, answer) =>
          decidable_of_iff (answer = none ∧ (request = .begin → (store.exec s.remote request w).1 = true))
            (by simp [Smooth, h])
  | .finish i _ => inferInstanceAs (Decidable ((s.locals i).inFlight ≠ some (.begin, none)))
  | .late _ _ => isFalse id
  | .send _ | .destroyContext _ => isTrue trivial

/-- What has to be in the transaction that its local transaction began. -/
def Belongs (request : Request Q A) : Prop := IsQuery request ∨ request = .commit ∨ request = .rollback

def Begun (i : Nat) (log : List (Entry Q A)) : Prop :=
  ∃ e ∈ log, e.transaction = i ∧ e.request = .begin ∧ e.ok = true

def Ended (i : Nat) (log : List (Entry Q A)) : Prop :=
  ∃ e ∈ log, e.transaction = i ∧ (e.request = .commit ∨ e.request = .rollback)

structure Owning (s : State σ Q A) : Prop where
  isOpen : s.owner ≠ none → store.isOpen s.remote = true
  holds : ∀ i, Begun i s.log → ¬ Ended i s.log → s.owner = some i
  begun : ∀ i, .begin ∈ sentOf i s.sent → (s.locals i).inFlight = some (.begin, none) ∨ Begun i s.log
  late : ∀ i, (s.locals i).state = .finished → (∀ r ∈ (s.locals i).pending, ¬ IsQuery r) ∧
    ∀ r answer, (s.locals i).inFlight = some (r, answer) → ¬ IsQuery r
  own : ∀ e ∈ s.log, Belongs e.request → e.owner = some e.transaction
  inTime : ∀ e ∈ s.log, e.late = false

theorem protocol_end {state next : QuackTransactionState} {request : Request Q A}
    (hend : request = .commit ∨ request = .rollback) (h : protocol state request = some next) :
    state = .started ∧ next = .finished := by
  obtain rfl | rfl := hend
  all_goals
    cases state with
    | notYetStarted => cases h
    | started => exact ⟨rfl, (Option.some.inj h).symm⟩
    | finished => cases h

/-- What is under way has begun and not ended. -/
theorem run_protocol_started {requests : List (Request Q A)} :
    ∀ {state : QuackTransactionState}, run protocol state requests = some .started →
      (state = .started ∨ state = .notYetStarted ∧ .begin ∈ requests) ∧
        .commit ∉ requests ∧ .rollback ∉ requests := by
  induction requests with
  | nil =>
      intro state h
      exact ⟨Or.inl (Option.some.inj h), List.not_mem_nil, List.not_mem_nil⟩
  | cons r requests ih =>
      intro state h
      rw [run_cons] at h
      obtain ⟨next, hnext, hrest⟩ := Option.bind_eq_some_iff.mp h
      obtain ⟨hstate, hcommit, hrollback⟩ := ih hrest
      -- a transaction that is over is never under way again
      have hunfinished : next ≠ .finished := by
        rintro rfl
        rcases hstate with h | ⟨h, -⟩ <;> cases h
      have hends : ∀ {request : Request Q A}, request = .commit ∨ request = .rollback → request ≠ r := by
        rintro request hend rfl
        exact hunfinished (protocol_end hend hnext).2
      refine ⟨?_, by simp [hcommit, hends (Or.inl rfl)], by simp [hrollback, hends (Or.inr rfl)]⟩
      cases state with
      | started => exact Or.inl rfl
      | notYetStarted =>
          refine Or.inr ⟨rfl, ?_⟩
          rcases r with _ | _ | _ | (sql | rows)
          · exact List.mem_cons_self
          · cases hnext
          · cases hnext
          · cases hnext
          · obtain rfl := Option.some.inj hnext
            rcases hstate with h | ⟨-, h⟩
            · cases h
            · exact List.mem_cons_of_mem _ h
      | finished =>
          rcases r with _ | _ | _ | (sql | rows)
          · cases hnext
          · cases hnext
          · cases hnext
          · exact absurd (Option.some.inj hnext).symm hunfinished
          · exact absurd (Option.some.inj hnext).symm hunfinished

section Owning

variable {store} {s t : State σ Q A}

/-- A request that belongs to a transaction finds it open when it comes for the first time. -/
theorem Owning.owner_eq (hs : Owning store s) {i : Nat}
    (horderly : Orderly (s.locals i) (sentOf i s.sent) (deliveredOf i s.log)) {request : Request Q A}
    (hinFlight : (s.locals i).inFlight = some (request, none)) (hbelongs : Belongs request) :
    s.owner = some i := by
  obtain ⟨before, state, hsent, hrepeated, hstate, hnext⟩ := horderly.before hinFlight
  obtain rfl : state = .started := by
    rcases hbelongs with hquery | hend
    · obtain ⟨hsame, hstarted⟩ := protocol_query hquery hnext
      cases state with
      | notYetStarted => exact absurd rfl hstarted
      | started => rfl
      | finished => exact absurd hquery ((hs.late i hsame).2 _ _ hinFlight)
    · exact (protocol_end hend hnext).1
  obtain ⟨hbegin, hcommit, hrollback⟩ := run_protocol_started hstate
  have hbegin : Statement.begin ∈ before := by
    rcases hbegin with h | ⟨-, h⟩
    · cases h
    · exact h
  refine hs.holds i ((hs.begun i ?_).resolve_left ?_) ?_
  · rw [hsent]
    exact List.mem_append_left _ hbegin
  · intro hfirst
    rw [hinFlight] at hfirst
    cases hfirst
    obtain ⟨sql, h⟩ | h | h := hbelongs <;> cases h
  · rintro ⟨e, he, rfl, hend⟩
    have hmem : e.request ∈ before :=
      (hrepeated rfl).subset (List.mem_filterMap.mpr ⟨e, he, if_pos ⟨rfl, hs.inTime e he⟩⟩)
    rcases hend with h | h
    · exact hcommit (h ▸ hmem)
    · exact hrollback (h ▸ hmem)

theorem begun_append {j : Nat} {log : List (Entry Q A)} {e : Entry Q A} :
    Begun j (log ++ [e]) ↔ Begun j log ∨ e.transaction = j ∧ e.request = .begin ∧ e.ok = true := by
  simp [Begun, or_and_right, exists_or]

theorem ended_append {j : Nat} {log : List (Entry Q A)} {e : Entry Q A} :
    Ended j (log ++ [e]) ↔
      Ended j log ∨ e.transaction = j ∧ (e.request = .commit ∨ e.request = .rollback) := by
  simp only [Ended, List.mem_append, List.mem_singleton, or_and_right, exists_or, exists_eq_left]

theorem owning_deliver (hs : Owning store s)
    {i : Nat} (horderly : Orderly (s.locals i) (sentOf i s.sent) (deliveredOf i s.log)) {w : ω}
    (hok : Smooth store s (.deliver i w)) (h : step store s (.deliver i w) = some t) : Owning store t := by
  obtain ⟨request, answer, ok, remote, hinFlight, hexec, rfl⟩ := step_deliver h
  simp only [Smooth, hinFlight] at hok
  obtain ⟨rfl, hbegin⟩ := hok
  have hown : Belongs request → s.owner = some i := hs.owner_eq horderly hinFlight
  refine ⟨fun hne => ?_, fun j hbegun hended => ?_, fun j hj => ?_, fun j hj => ?_, fun e he hbelongs => ?_,
    List.forall_mem_append.mpr ⟨hs.inTime, List.forall_mem_singleton.mpr rfl⟩⟩
  · dsimp only at hne ⊢
    cases hopen : store.isOpen remote with
    | true => rfl
    | false =>
        rw [hopen] at hne
        exact absurd rfl hne
  · -- only a BEGIN or an end change whose transaction is open
    dsimp only at hbegun hended ⊢
    rw [begun_append] at hbegun
    rw [ended_append, not_or] at hended
    have hholds : Begun j s.log → s.owner = some j := fun hbegun => hs.holds j hbegun hended.1
    rcases request with _ | _ | _ | write
    · obtain rfl : ok = true := (congrArg Prod.fst hexec).symm.trans (hbegin rfl)
      obtain ⟨hclosed, hopen, -, -⟩ := store.begin_done hexec
      rw [hopen]
      rcases hbegun with hbegun | ⟨rfl, -, -⟩
      · have hwas := hs.isOpen (by rw [hholds hbegun]; exact Option.some_ne_none j)
        exact absurd (hclosed.symm.trans hwas) Bool.false_ne_true
      · rfl
    · have hi := hown (Or.inr (Or.inl rfl))
      have hbegun := hbegun.resolve_right fun h => by cases h.2.1
      obtain rfl : i = j := Option.some.inj (hi.symm.trans (hholds hbegun))
      exact absurd ⟨rfl, Or.inl rfl⟩ hended.2
    · have hi := hown (Or.inr (Or.inr rfl))
      have hbegun := hbegun.resolve_right fun h => by cases h.2.1
      obtain rfl : i = j := Option.some.inj (hi.symm.trans (hholds hbegun))
      exact absurd ⟨rfl, Or.inr rfl⟩ hended.2
    · have hj := hholds (hbegun.resolve_right fun h => by cases h.2.1)
      have hopen := store.isOpen_exec hexec (hs.isOpen (by rw [hj]; exact Option.some_ne_none j))
        (fun h => by cases h) (fun h => by cases h)
      rw [hopen]
      cases ok <;> exact hj
  · dsimp only at hj ⊢
    rw [begun_append]
    by_cases hji : j = i
    · subst hji
      rcases hs.begun j hj with hfirst | hbegun
      · rw [hinFlight] at hfirst
        cases hfirst
        exact Or.inr (Or.inr ⟨rfl, rfl, (congrArg Prod.fst hexec).symm.trans (hbegin rfl)⟩)
      · exact Or.inr (Or.inl hbegun)
    · rw [setLocal_other _ hji]
      exact (hs.begun j hj).imp_right Or.inl
  · dsimp only at hj ⊢
    by_cases hji : j = i
    · subst hji
      rw [setLocal_self] at hj ⊢
      refine ⟨(hs.late j hj).1, fun r answer hr => ?_⟩
      cases hr
      exact (hs.late j hj).2 _ _ hinFlight
    · rw [setLocal_other _ hji] at hj ⊢
      exact hs.late j hj
  · obtain he | he := List.mem_append.mp he
    · exact hs.own e he hbelongs
    · rw [List.mem_singleton.mp he] at hbelongs ⊢
      exact hown hbelongs

/-- The calls of a transaction that is over, or is ended by them, send no query. -/
theorem call_late {state : QuackTransactionState} {c : Call Q A} (hfinished : (call state c).1 = .finished)
    (hlate : ∀ sql, c = .query sql → state ≠ .finished) : ∀ r ∈ (call state c).2, ¬ IsQuery r := by
  have hqueries : ∀ sql, c ≠ .query sql := by
    rintro sql rfl
    have hlate := hlate sql rfl
    cases state with
    | notYetStarted => cases hfinished
    | started => cases hfinished
    | finished => exact hlate rfl
  intro r hr
  cases c with
  | query sql => exact absurd rfl (hqueries sql)
  | append rows =>
      have hr : r = .run (.append rows) := by
        cases state <;> exact List.mem_singleton.mp hr
      rintro ⟨sql, rfl⟩
      cases hr
  | forceStart | commit | rollback =>
      rintro ⟨sql, rfl⟩
      cases state <;> simp [call] at hr

theorem owning_step {a : Action Q A ω}
    (horderly : ∀ i, Orderly (s.locals i) (sentOf i s.sent) (deliveredOf i s.log)) (hs : Owning store s)
    (hok : Smooth store s a) (h : step store s a = some t) : Owning store t := by
  cases a with
  | deliver i w => exact owning_deliver hs (horderly i) hok h
  | call i c =>
      obtain ⟨-, hnone, -, rfl⟩ := step_call h
      refine ⟨hs.isOpen, hs.holds, fun j hj => ?_, fun j hj => ?_, hs.own, hs.inTime⟩
      · by_cases hji : j = i
        · subst hji
          rw [setLocal_self]
          exact hs.begun j hj
        · rw [setLocal_other _ hji]
          exact hs.begun j hj
      · by_cases hji : j = i
        · subst hji
          rw [setLocal_self] at hj ⊢
          refine ⟨call_late hj fun sql hc => ?_, fun r answer hr => ?_⟩
          · subst hc
            exact hok
          · cases hnone.symm.trans hr
        · rw [setLocal_other _ hji] at hj ⊢
          exact hs.late j hj
  | send i =>
      obtain ⟨request, pending, hnone, hpending, hcases⟩ := step_send h
      have hlate : ∀ {l : Local Q A}, l.state = (s.locals i).state → l.pending = pending →
          (∀ r answer, l.inFlight = some (r, answer) → r = request) → ∀ j,
          (Function.update s.locals i l j).state = .finished →
          (∀ r ∈ (Function.update s.locals i l j).pending, ¬ IsQuery r) ∧
            ∀ r answer, (Function.update s.locals i l j).inFlight = some (r, answer) → ¬ IsQuery r := by
        intro l hstate hrest hsends j hj
        by_cases hji : j = i
        · subst hji
          rw [Function.update_self] at hj ⊢
          have hqueries := (hs.late j (hstate ▸ hj)).1
          rw [hpending] at hqueries
          refine ⟨fun r hr => hqueries r (List.mem_cons_of_mem _ (hrest ▸ hr)), fun r answer hr => ?_⟩
          rw [hsends r answer hr]
          exact hqueries _ List.mem_cons_self
        · rw [Function.update_of_ne hji] at hj ⊢
          exact hs.late j hj
      obtain ⟨-, rfl⟩ | ⟨-, rfl⟩ := hcases
      · refine ⟨hs.isOpen, hs.holds, fun j hj => ?_, hlate rfl rfl fun r answer hr => ?_, hs.own,
          hs.inTime⟩
        · dsimp only at hj ⊢
          rw [sentOf_append] at hj
          by_cases hji : j = i
          · subst hji
            rw [setLocal_self]
            obtain hj | hj := List.mem_append.mp hj
            · refine Or.inr ((hs.begun j hj).resolve_left fun hfirst => ?_)
              cases hnone.symm.trans hfirst
            · rw [sentOf_self, List.mem_singleton] at hj
              exact Or.inl (by rw [hj])
          · rw [setLocal_other _ hji]
            rw [sentOf_other (Ne.symm hji), List.append_nil] at hj
            exact hs.begun j hj
        · exact (congrArg Prod.fst (Option.some.inj hr)).symm
      · refine ⟨hs.isOpen, hs.holds, fun j hj => ?_, hlate rfl rfl fun r answer hr => ?_, hs.own,
          hs.inTime⟩
        · by_cases hji : j = i
          · subst hji
            rw [setLocal_self]
            exact hs.begun j hj
          · rw [setLocal_other _ hji]
            exact hs.begun j hj
        · cases hnone.symm.trans hr
  | finish i ok =>
      obtain ⟨request, answer, hinFlight, -, rfl⟩ := step_finish h
      refine ⟨hs.isOpen, hs.holds, fun j hj => ?_, fun j hj => ?_, hs.own, hs.inTime⟩
      · by_cases hji : j = i
        · subst hji
          exact Or.inr ((hs.begun j hj).resolve_left hok)
        · rw [setLocal_other _ hji]
          exact hs.begun j hj
      · by_cases hji : j = i
        · subst hji
          rw [setLocal_self] at hj ⊢
          refine ⟨fun r hr => ?_, fun r answer hr => by cases hr⟩
          dsimp only at hr
          split at hr
          · exact (hs.late j hj).1 r hr
          · cases hr
        · rw [setLocal_other _ hji] at hj ⊢
          exact hs.late j hj
  | late k w => exact hok.elim
  | destroyContext i =>
      obtain ⟨-, rfl⟩ := step_destroyContext h
      refine ⟨hs.isOpen, hs.holds, fun j hj => ?_, fun j hj => ?_, hs.own, hs.inTime⟩
      · by_cases hji : j = i
        · subst hji
          rw [setLocal_self]
          exact hs.begun j hj
        · rw [setLocal_other _ hji]
          exact hs.begun j hj
      · by_cases hji : j = i
        · subst hji
          rw [setLocal_self] at hj ⊢
          exact hs.late j hj
        · rw [setLocal_other _ hji] at hj ⊢
          exact hs.late j hj

end Owning

/-- **Each request is carried out in its own transaction, as long as no BEGIN comes to nothing.** For any
engine and any interleaving of any number of local transactions on one session: when no BEGIN is refused or
lost, no request comes twice or late and nothing is queried in a transaction that is over, every query, COMMIT
and ROLLBACK that comes to the engine meets the remote transaction that its own local transaction began;
whatever else is lost. -/
theorem own_transaction {remote : σ} {as : List (Action Q A ω)} {s : State σ Q A}
    (hmeets : Meets (step store) (Smooth store) (start remote) as)
    (hrun : run (step store) (start remote) as = some s) :
    ∀ e ∈ s.log, IsQuery e.request ∨ e.request = .commit ∨ e.request = .rollback →
      e.owner = some e.transaction := by
  have hstart : Owning store (start (Q := Q) (A := A) remote) :=
    ⟨fun hne => absurd rfl hne, fun i ⟨e, he, _⟩ => (by cases he), fun i hi => (by cases hi),
      fun i hi => (by cases hi), fun e he => (by cases he), fun e he => (by cases he)⟩
  have horderly := fun i => @orderly_run _ _ _ _ _ store _ remote [] rfl i
  refine (run_invariant (I := fun s => (∀ i, Orderly (s.locals i) (sentOf i s.sent) (deliveredOf i s.log)) ∧
    Owning store s) ?_ ⟨horderly, hstart⟩ hmeets hrun).2.own
  rintro s a t ⟨horderly, howning⟩ hok h
  exact ⟨fun i => orderly_step (horderly i) h, owning_step horderly howning hok h⟩

/-- Two transactions, one after the other; the answer to the first COMMIT is lost. -/
def oneAfterTheOther : List (Action Bytes Bytes Bool) :=
  [.call 0 (.query (lit "CREATE TABLE t(i INT)")), .send 0, .deliver 0 true, .finish 0 true, .send 0,
    .deliver 0 true, .finish 0 true, .call 0 .commit, .send 0, .deliver 0 true,
    .call 1 (.query (lit "DROP TABLE u")), .send 1, .deliver 1 true, .finish 0 false, .finish 1 true,
    .send 1, .deliver 1 true, .finish 1 true, .call 1 .rollback, .send 1, .deliver 1 true]

theorem own_transaction_oneAfterTheOther :
    let s := (run (step Store.doing) (start {}) oneAfterTheOther).get rfl
    s.log.map Entry.owner = [none, some 0, some 0, none, some 1, some 1] ∧
      ∀ e ∈ s.log, IsQuery e.request ∨ e.request = .commit ∨ e.request = .rollback →
        e.owner = some e.transaction := by
  intro s
  have hrun : run (step Store.doing) (start {}) oneAfterTheOther = some s := (Option.some_get _).symm
  exact ⟨rfl, own_transaction Store.doing (by decide) hrun⟩

section Refused

variable {store} {s t : State σ Q A} {i j : Nat}

/-- A BEGIN that comes into an open transaction is refused, and leaves it as it is. -/
theorem run_deliver_begin {ws : List ω} : ∀ {s : State σ Q A} {answer : Option Bool},
    store.isOpen s.remote = true → s.owner = some i → (s.locals j).inFlight = some (.begin, answer) →
    run (step store) s (ws.map (.deliver j)) = some t →
    store.isOpen t.remote = true ∧ t.owner = some i ∧ store.committed t.remote = store.committed s.remote ∧
      (∃ refused, (∀ e ∈ refused, e = ⟨j, .begin, false, some i, false⟩) ∧ t.log = s.log ++ refused) ∧
      ∃ answer, t.locals j = { s.locals j with inFlight := some (.begin, answer) } := by
  induction ws with
  | nil =>
      intro s answer hopen howner hinFlight hrun
      obtain rfl := Option.some.inj hrun
      refine ⟨hopen, howner, rfl, ⟨[], fun e he => (by cases he), (List.append_nil _).symm⟩, answer, ?_⟩
      rw [← hinFlight]
  | cons w ws ih =>
      intro s answer hopen howner hinFlight hrun
      rw [List.map_cons, run_cons] at hrun
      obtain ⟨u, hu, hrun⟩ := Option.bind_eq_some_iff.mp hrun
      obtain ⟨request, answer', ok, remote, hrequest, hexec, rfl⟩ := step_deliver hu
      cases hinFlight.symm.trans hrequest
      cases ok with
      | true => exact absurd ((store.begin_done hexec).1.symm.trans hopen) Bool.false_ne_true
      | false =>
          obtain ⟨hcommitted, ⟨hsame, -⟩ | ⟨h, -⟩⟩ := store.failed hexec
          swap
          · cases h
          have hremote := hsame.trans hopen
          obtain ⟨ht, hi, hkept, ⟨refused, hall, hlog⟩, answer'', hlocal⟩ := ih hremote
            (by rw [hremote]; exact howner) (congrArg Local.inFlight (setLocal_self s j _)) hrun
          refine ⟨ht, hi, hkept.trans hcommitted, ⟨⟨j, .begin, false, s.owner, false⟩ :: refused, ?_, ?_⟩,
            answer'', ?_⟩
          · exact List.forall_mem_cons.mpr ⟨by rw [howner], hall⟩
          · rw [hlog, List.append_assoc]
            rfl
          · rw [hlocal]
            dsimp only
            rw [setLocal_self]

/-- A new transaction sends its BEGIN with its first query. -/
theorem run_query_new (hnew : s.locals j = {}) {sql : Q}
    (hrun : run (step store) s [.call j (.query sql), .send j] = some t) :
    t.remote = s.remote ∧ t.owner = s.owner ∧ t.log = s.log ∧ ∃ pending,
      t.locals j = { state := .started, pending, inFlight := some (.begin, none) } := by
  rw [run_cons] at hrun
  obtain ⟨u, hcall, hrun⟩ := Option.bind_eq_some_iff.mp hrun
  rw [run_cons] at hrun
  obtain ⟨v, hsend, hrun⟩ := Option.bind_eq_some_iff.mp hrun
  obtain rfl := Option.some.inj hrun
  obtain ⟨-, -, -, rfl⟩ := step_call hcall
  rw [hnew] at hsend
  obtain ⟨request, pending, -, hpending, ⟨-, rfl⟩ | ⟨hdead, -⟩⟩ := step_send hsend
  · rw [setLocal_self] at hpending
    obtain ⟨rfl, rfl⟩ := List.cons_eq_cons.mp hpending
    refine ⟨rfl, rfl, rfl, [.run (.query sql)], ?_⟩
    dsimp only
    rw [setLocal_self, setLocal_self]
    rfl
  · rw [setLocal_self] at hdead
    cases hdead

/-- It is rolled back with a ROLLBACK, although the BEGIN came to nothing: its state was set before. -/
theorem run_rollback_started {pending : List (Request Q A)} {answer : Option Bool} {w : ω}
    (hlocal : s.locals j = { state := .started, pending, inFlight := some (.begin, answer) })
    (hrun : run (step store) s [.finish j false, .call j .rollback, .send j, .deliver j w] = some t) :
    ∃ ok, store.exec s.remote .rollback w = (ok, t.remote) ∧
      t.owner = ownerAfter s.owner j (.rollback : Request Q A) ok (store.isOpen t.remote) ∧
      t.log = s.log ++ [⟨j, .rollback, ok, s.owner, false⟩] := by
  rw [run_cons] at hrun
  obtain ⟨u, hfinish, hrun⟩ := Option.bind_eq_some_iff.mp hrun
  rw [run_cons] at hrun
  obtain ⟨v, hcall, hrun⟩ := Option.bind_eq_some_iff.mp hrun
  rw [run_cons] at hrun
  obtain ⟨x, hsend, hrun⟩ := Option.bind_eq_some_iff.mp hrun
  rw [run_cons] at hrun
  obtain ⟨y, hdeliver, hrun⟩ := Option.bind_eq_some_iff.mp hrun
  obtain rfl := Option.some.inj hrun
  obtain ⟨-, -, -, -, rfl⟩ := step_finish hfinish
  obtain ⟨-, -, -, rfl⟩ := step_call hcall
  obtain ⟨request, pending', -, hpending, ⟨-, rfl⟩ | ⟨hdead, -⟩⟩ := step_send hsend
  · rw [setLocal_self, setLocal_self, hlocal] at hpending
    obtain ⟨rfl, rfl⟩ := List.cons_eq_cons.mp hpending
    obtain ⟨request, answer', ok, remote, hrequest, hexec, rfl⟩ := step_deliver hdeliver
    dsimp only at hrequest
    rw [setLocal_self] at hrequest
    cases hrequest
    exact ⟨ok, hexec, rfl, rfl⟩
  · rw [setLocal_self, setLocal_self, hlocal] at hdead
    cases hdead

/-- **A BEGIN that comes to nothing does not end there.** From any state in which a transaction `i` is open
on the server: when another one sends its first query, its BEGIN is refused, however often it comes, or
lost, and so it is rolled back; and its ROLLBACK, when it comes and succeeds, ends the transaction of `i`
with nothing of it kept. -/
theorem refused_begin_ends_other (hopen : store.isOpen s.remote = true) (howner : s.owner = some i)
    (hnew : s.locals j = {}) {sql : Q} {ws : List ω} {w : ω}
    (hrun : run (step store) s ([.call j (.query sql), .send j] ++ (ws.map (.deliver j) ++
      [.finish j false, .call j .rollback, .send j, .deliver j w])) = some t) :
    ∃ refused ok, (∀ e ∈ refused, e = ⟨j, .begin, false, some i, false⟩) ∧
      t.log = s.log ++ refused ++ [⟨j, .rollback, ok, some i, false⟩] ∧
      (ok = true → t.owner = none ∧ store.committed t.remote = store.committed s.remote) := by
  rw [run_append] at hrun
  obtain ⟨u, hfirst, hrun⟩ := Option.bind_eq_some_iff.mp hrun
  rw [run_append] at hrun
  obtain ⟨v, hbegins, hlast⟩ := Option.bind_eq_some_iff.mp hrun
  obtain ⟨hremote, hsame, hlog, pending, hlocal⟩ := run_query_new hnew hfirst
  obtain ⟨-, hi, hkept, ⟨refused, hall, hrefused⟩, answer, hlocal'⟩ :=
    run_deliver_begin (by rw [hremote]; exact hopen) (hsame.trans howner)
      (congrArg Local.inFlight hlocal) hbegins
  rw [hlocal] at hlocal'
  obtain ⟨ok, hexec, hend, hended⟩ := run_rollback_started hlocal' hlast
  refine ⟨refused, ok, hall, by rw [hended, hrefused, hlog, hi], fun hok => ?_⟩
  subst hok
  obtain ⟨-, hclosed, hcommitted⟩ := store.rollback_done hexec
  exact ⟨by rw [hend, hclosed]; rfl, hcommitted.trans (hkept.trans (by rw [hremote]))⟩

end Refused

end Harbor.Quack.Transaction
