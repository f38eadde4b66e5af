import Harbor.Quack.Transaction

set_option autoImplicit false

/-! # What a rollback undoes

`QuackInsert::Sink` appends its rows without `ForceStart`: they are in the remote transaction only when a
BEGIN came to the engine before them. Here the local transaction is the only one of its session, and nobody
else writes to the database. The session has then come from its first state by the statements of the log,
and the laws of the store say what is kept of them.
-/

namespace Harbor.Quack.Transaction

open Runs Store

variable {Q A σ D ω : Type} {store : Store σ (Write Q A) D ω} {remote : σ} {s t : State σ Q A} {i : Nat}

def outcomes (log : List (Entry Q A)) : List (Request Q A × Bool) := log.map Entry.outcome

/-- The log tells how the session came to where it is. -/
theorem carried_run {as : List (Action Q A ω)} (hrun : run (step store) (start remote) as = some s) :
    store.Carried remote (outcomes s.log) s.remote := by
  have hstart : store.Carried remote (outcomes (Q := Q) (A := A) []) remote := rfl
  refine run_invariant (I := fun s => store.Carried remote (outcomes s.log) s.remote) ?_ hstart
    (meets_true _ _) hrun
  rintro s a t hs - h
  cases a with
  | deliver i w =>
      obtain ⟨request, answer, ok, remote, -, hexec, rfl⟩ := step_deliver h
      dsimp only
      rw [outcomes, List.map_append]
      exact hs.exec hexec
  | late k w =>
      obtain ⟨i, request, ok, remote, -, hexec, rfl⟩ := step_late h
      dsimp only
      rw [outcomes, List.map_append]
      exact hs.exec hexec
  | call i c =>
      obtain ⟨-, -, -, rfl⟩ := step_call h
      exact hs
  | send i =>
      obtain ⟨request, pending, -, -, ⟨-, rfl⟩ | ⟨-, rfl⟩⟩ := step_send h
      · exact hs
      · exact hs
  | finish i ok =>
      obtain ⟨request, answer, -, -, rfl⟩ := step_finish h
      exact hs
  | destroyContext i =>
      obtain ⟨-, rfl⟩ := step_destroyContext h
      exact hs

/-- What ends a remote transaction. -/
def IsEnd (request : Request Q A) : Prop := request = .commit ∨ request = .rollback

/-- A step of transaction `i` that does not end it. What comes late may come here. -/
def Within (i : Nat) : Action Q A ω → Prop
  | .call j c => j = i ∧ c ≠ .commit ∧ c ≠ .rollback
  | .send j | .deliver j _ | .finish j _ | .destroyContext j => j = i
  | .late _ _ => True

/-- A step of the call that ends it. -/
def Ending (i : Nat) : Action Q A ω → Prop
  | .send j | .deliver j _ | .finish j _ | .destroyContext j => j = i
  | .call _ _ | .late _ _ => False

/-- What transaction `i` still sends, what is under way of it, and what the engine got since `before` is as
`P` says. -/
structure Sends (P : Request Q A → Prop) (i : Nat) (before : List (Entry Q A)) (s : State σ Q A) : Prop where
  pending : ∀ r ∈ (s.locals i).pending, P r
  inFlight : ∀ r answer, (s.locals i).inFlight = some (r, answer) → P r
  log : ∃ later, s.log = before ++ later ∧ ∀ e ∈ later, P e.request

/-- The steps of a call send what it has to send. -/
theorem Sends.after_step {P : Request Q A → Prop} {before : List (Entry Q A)} (hs : Sends P i before s)
    {a : Action Q A ω} (ha : Ending i a) (h : step store s a = some t) : Sends P i before t := by
  cases a with
  | call j c => exact ha.elim
  | late k w => exact ha.elim
  | send j =>
      obtain rfl : j = i := ha
      obtain ⟨request, pending, -, hpending, hcases⟩ := step_send h
      have hall := hs.pending
      rw [hpending, List.forall_mem_cons] at hall
      obtain ⟨-, rfl⟩ | ⟨-, rfl⟩ := hcases
      · refine ⟨?_, fun r answer hr => ?_, hs.log⟩
        · dsimp only
          rw [setLocal_self]
          exact hall.2
        · dsimp only at hr
          rw [setLocal_self] at hr
          cases hr
          exact hall.1
      · refine ⟨?_, fun r answer hr => ?_, hs.log⟩
        · rw [setLocal_self]
          exact hall.2
        · rw [setLocal_self] at hr
          exact hs.inFlight r answer hr
  | deliver j w =>
      obtain rfl : j = i := ha
      obtain ⟨request, answer, ok, remote, hinFlight, -, rfl⟩ := step_deliver h
      obtain ⟨later, hlog, hall⟩ := hs.log
      have hrequest := hs.inFlight _ _ hinFlight
      refine ⟨?_, fun r answer hr => ?_, later ++ [⟨j, request, ok, s.owner, false⟩], ?_, fun e he => ?_⟩
      · dsimp only
        rw [setLocal_self]
        exact hs.pending
      · dsimp only at hr
        rw [setLocal_self] at hr
        cases hr
        exact hrequest
      · dsimp only
        rw [hlog, List.append_assoc]
      · obtain he | he := List.mem_append.mp he
        · exact hall e he
        · rw [List.mem_singleton.mp he]
          exact hrequest
  | finish j ok =>
      obtain rfl : j = i := ha
      obtain ⟨request, answer, -, -, rfl⟩ := step_finish h
      refine ⟨fun r hr => ?_, fun r answer hr => ?_, hs.log⟩
      · rw [setLocal_self] at hr
        dsimp only at hr
        split at hr
        · exact hs.pending r hr
        · cases hr
      · rw [setLocal_self] at hr
        cases hr
  | destroyContext j =>
      obtain rfl : j = i := ha
      obtain ⟨-, rfl⟩ := step_destroyContext h
      refine ⟨?_, fun r answer hr => ?_, hs.log⟩
      · rw [setLocal_self]
        exact hs.pending
      · rw [setLocal_self] at hr
        exact hs.inFlight r answer hr

theorem Sends.after_run {P : Request Q A → Prop} {before : List (Entry Q A)} (hs : Sends P i before s)
    {as : List (Action Q A ω)} (has : ∀ a ∈ as, Ending i a) (hrun : run (step store) s as = some t) :
    Sends P i before t :=
  run_invariant (I := Sends P i before) (fun _ _ _ hs ha h => hs.after_step ha.2 h) hs
    (Meets.and_mem (meets_true as s) has) hrun

/-- A call sends what it has to send, when everything else is over. -/
theorem Sends.after_call {P : Request Q A → Prop} {before : List (Entry Q A)} (hs : Sends P i before s)
    {c : Call Q A} (hcall : ∀ r ∈ (call (s.locals i).state c).2, P r)
    (h : step store s (.call i c) = some t) : Sends P i before t := by
  obtain ⟨-, -, -, rfl⟩ := step_call h
  refine ⟨?_, fun r answer hr => ?_, hs.log⟩
  · rw [setLocal_self]
    exact hcall
  · rw [setLocal_self] at hr
    exact hs.inFlight r answer hr

/-- Before it is ended, a transaction sends no COMMIT or ROLLBACK, so that none can come late. -/
theorem sends_run {as : List (Action Q A ω)} (hwithin : ∀ a ∈ as, Within i a)
    (hrun : run (step store) (start remote) as = some s) : Sends (fun r => ¬ IsEnd r) i [] s := by
  refine (run_invariant (I := fun s => Sends (fun r => ¬ IsEnd r) i [] s ∧ ∀ x ∈ s.sent, ¬ IsEnd x.2)
    (fun s a t hs ha h => ⟨?_, ?_⟩) ?_ (Meets.and_mem (meets_true as _) hwithin) hrun).1
  · obtain ⟨hs, hsent⟩ := hs
    obtain ⟨-, ha⟩ := ha
    cases a with
    | call j c =>
        obtain ⟨rfl, hcommit, hrollback⟩ := ha
        refine hs.after_call (fun r hr => ?_) h
        rintro (rfl | rfl)
        all_goals
          cases c <;> cases hstate : (s.locals j).state <;> simp [hstate, call] at hr hcommit hrollback
    | send j => exact hs.after_step (a := .send j) ha h
    | deliver j w => exact hs.after_step (a := .deliver j w) ha h
    | finish j ok => exact hs.after_step (a := .finish j ok) ha h
    | destroyContext j => exact hs.after_step (a := .destroyContext j) ha h
    | late k w =>
        obtain ⟨j, request, ok, remote, hmem, -, rfl⟩ := step_late h
        obtain ⟨later, hlog, hall⟩ := hs.log
        refine ⟨hs.pending, hs.inFlight, later ++ [⟨j, request, ok, s.owner, true⟩], ?_, ?_⟩
        · dsimp only
          rw [hlog, List.append_assoc]
        · exact List.forall_mem_append.mpr ⟨hall, List.forall_mem_singleton.mpr (hsent _ hmem)⟩
  · obtain ⟨hs, hsent⟩ := hs
    obtain ⟨-, ha⟩ := ha
    obtain hsame | ⟨j, request, pending, rfl, hpending, hmore⟩ := sent_step h
    · rw [hsame]
      exact hsent
    · obtain rfl : j = i := ha
      have hrequest := hs.pending request (by rw [hpending]; exact List.mem_cons_self)
      rw [hmore]
      exact List.forall_mem_append.mpr ⟨hsent, List.forall_mem_singleton.mpr hrequest⟩
  · refine ⟨⟨fun r hr => (by cases hr), fun r answer hr => (by cases hr), [], rfl, ?_⟩, fun x hx => by cases hx⟩
    exact fun e he => by cases he

theorem call_end {c : Call Q A} {request : Request Q A}
    (hc : c = .commit ∧ request = .commit ∨ c = .rollback ∧ request = .rollback)
    (state : QuackTransactionState) : ∀ r ∈ (call state c).2, r = request := by
  obtain ⟨rfl, rfl⟩ | ⟨rfl, rfl⟩ := hc <;> cases state <;> simp [call]

/-- What the call that ends a transaction sends. -/
theorem sends_end {c : Call Q A} {request : Request Q A} {bs : List (Action Q A ω)}
    (hc : c = .commit ∧ request = .commit ∨ c = .rollback ∧ request = .rollback)
    (hending : ∀ a ∈ bs, Ending i a) (hrun : run (step store) s (.call i c :: bs) = some t) :
    ∃ ends, t.log = s.log ++ ends ∧ ∀ e ∈ ends, e.request = request := by
  rw [run_cons] at hrun
  obtain ⟨u, hcall, hrun⟩ := Option.bind_eq_some_iff.mp hrun
  obtain ⟨hpending, hinFlight, -⟩ := step_call hcall
  have hs : Sends (fun r => r = request) i s.log s :=
    ⟨by simp [hpending], by simp [hinFlight], [], (List.append_nil _).symm, fun e he => (by cases he)⟩
  exact (Sends.after_run (hs.after_call (call_end hc _) hcall) hending hrun).log

/-- **What a rollback undoes.** For any engine, and every sequence of appends and queries of a local
transaction that is alone on its session, with any of them lost, repeated, late or failing: after `Rollback`,
whether its ROLLBACK comes to the engine or not, just what was done before the BEGIN succeeded is kept; and
after `Commit` everything is, if a COMMIT succeeded or no BEGIN did; as long as nothing comes late then. -/
theorem rollback_undoes (hclosed : store.isOpen remote = false) {as bs : List (Action Q A ω)}
    (hwithin : ∀ a ∈ as, Within i a) (hrun : run (step store) (start remote) as = some s)
    (hending : ∀ a ∈ bs, Ending i a) :
    (run (step store) s (.call i .rollback :: bs) = some t →
      store.committed t.remote =
        store.applyAll (effects (beforeBegin (outcomes s.log))) (store.committed remote)) ∧
    (run (step store) s (.call i .commit :: bs) = some t →
      ((.begin, true) ∈ outcomes s.log → (.commit, true) ∈ outcomes t.log) →
      store.committed t.remote = store.applyAll (effects (outcomes s.log)) (store.committed remote)) := by
  obtain ⟨log, hlog, hunended⟩ := (sends_run hwithin hrun).log
  obtain rfl : s.log = log := hlog
  have hnoEnd : ∀ x ∈ outcomes s.log, x.1 ≠ .commit ∧ x.1 ≠ .rollback := by
    intro x hx
    obtain ⟨e, he, rfl⟩ := List.mem_map.mp hx
    exact not_or.mp (hunended e he)
  -- the log of the end is behind that of the transaction
  have hsplit : ∀ {c : Call Q A} {request : Request Q A},
      c = .commit ∧ request = .commit ∨ c = .rollback ∧ request = .rollback →
      run (step store) s (.call i c :: bs) = some t →
      ∃ u ends, outcomes t.log = outcomes s.log ++ ends ∧ (∀ x ∈ ends, x.1 = request) ∧
        store.Carried remote (outcomes s.log) u ∧ store.Carried u ends t.remote := by
    intro c request hc hend
    obtain ⟨ends, ht, hall⟩ := sends_end hc hending hend
    have hcarried := carried_run ((run_append_of_run hrun _).trans hend)
    have houtcomes : outcomes t.log = outcomes s.log ++ outcomes ends := by
      rw [ht, outcomes, List.map_append]
      rfl
    rw [houtcomes, carried_append] at hcarried
    obtain ⟨u, hu, hends⟩ := hcarried
    exact ⟨u, outcomes ends, houtcomes, List.forall_mem_map.mpr hall, hu, hends⟩
  constructor
  · intro hend
    obtain ⟨u, ends, -, hall, hu, hends⟩ := hsplit (Or.inr ⟨rfl, rfl⟩) hend
    exact (hends.rollbacks hall).trans (hu.unfinished hclosed hnoEnd).2.1
  · intro hend hdone
    obtain ⟨u, ends, houtcomes, hall, hu, hends⟩ := hsplit (Or.inl ⟨rfl, rfl⟩) hend
    obtain ⟨hopen, -, hview⟩ := hu.unfinished hclosed hnoEnd
    rw [← hview]
    by_cases hbegun : (Statement.begin, true) ∈ outcomes s.log
    · refine hends.commits hall ?_
      have hcommit := hdone hbegun
      rw [houtcomes, List.mem_append] at hcommit
      exact hcommit.resolve_left fun hmem => (hnoEnd _ hmem).1 rfl
    · have hu : store.isOpen u = false := by simpa using fun h => hbegun (hopen.mp h)
      have hnone : effects ends = [] := by
        refine effects_eq_nil fun x hx q heq => ?_
        have hcommit := hall x hx
        rw [heq] at hcommit
        cases hcommit
      rw [(hends.closed hu fun hmem => by cases hall _ hmem).2, hnone, store.view_of_closed hu]
      rfl

/-- A row is inserted, and then once more by a late request; a table is created, and a row inserted into
that. -/
def insertThenCreate : List (Action Bytes Bytes Bool) :=
  [.call 0 (.append (lit "row")), .send 0, .deliver 0 true, .finish 0 true, .late 0 true,
    .call 0 (.query (lit "CREATE TABLE t(i INT)")), .send 0, .deliver 0 true, .finish 0 true, .send 0,
    .deliver 0 true, .finish 0 true, .call 0 (.append (lit "row of t")), .send 0, .deliver 0 true,
    .finish 0 true]

theorem rollback_undoes_insertThenCreate :
    let s := (run (step doing) (start {}) insertThenCreate).get rfl
    let ends : List (Action Bytes Bytes Bool) := [.send 0, .deliver 0 true, .finish 0 true]
    let t := (run (step doing) s (.call 0 .rollback :: ends)).get rfl
    let t' := (run (step doing) s (.call 0 .commit :: ends)).get rfl
    t.remote.kept = [.append (lit "row"), .append (lit "row")] ∧
      t.remote.kept = doing.applyAll (effects (beforeBegin (outcomes s.log))) [] ∧
      t'.remote.kept = [.append (lit "row"), .append (lit "row"), .query (lit "CREATE TABLE t(i INT)"),
        .append (lit "row of t")] ∧
      t'.remote.kept = doing.applyAll (effects (outcomes s.log)) [] := by
  intro s ends t t'
  have hwithin : ∀ a ∈ insertThenCreate, Within 0 a := by simp [insertThenCreate, Within]
  have hending : ∀ a ∈ ends, Ending 0 a := by simp [ends, Ending]
  have hrun : run (step doing) (start {}) insertThenCreate = some s := (Option.some_get _).symm
  have hclosed : doing.isOpen ({} : Done (Write Bytes Bytes)) = false := rfl
  exact ⟨rfl, (rollback_undoes (t := t) hclosed hwithin hrun hending).1 (Option.some_get _).symm,
    rfl, (rollback_undoes (t := t') hclosed hwithin hrun hending).2 (Option.some_get _).symm (by decide)⟩

end Harbor.Quack.Transaction
