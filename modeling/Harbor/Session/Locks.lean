import Harbor.Lib.Runs
import Mathlib.Logic.Function.Basic

set_option autoImplicit false

/-! # Who holds the session locks

The `lock` of each `HarborSession`, and the requests that take it: `/sql` with a `try_to_lock`, the
PREPARE, FETCH and APPEND requests of Quack with a blocking lock, both for as long as the query runs,
a streamed `/sql` response beyond its handler; and `SessionManager::Snapshot`, which takes the lock of
one session after another to copy `last_query`. A sweep and `InterruptSession` take no session lock, and
neither does the destruction of a session. The lock of the session map is held by none of them across
another step. `try_lock` fails only when the lock is held.
-/

namespace Harbor.SessionLocks

open Runs

/-! ## The state -/

/-- The requests that run something on a session. -/
inductive Kind where
  | sql
  | prepare
  | fetch
  | append
  deriving DecidableEq, Repr

/-- Where a request is. -/
inductive Phase where
  | idle
  /-- `HandleSql` before its `try_to_lock`. -/
  | resolved (session : Nat)
  /-- `HandleSql` has answered `409 SESSION_BUSY`. -/
  | answeredBusy (session : Nat)
  /-- In the `unique_lock` of a Quack request. -/
  | wanting (kind : Kind) (session : Nat)
  /-- The handler holds the lock, and prepares, executes, appends or fetches. -/
  | querying (kind : Kind) (session : Nat)
  /-- The `StreamingCtx` holds the lock. -/
  | streaming (session : Nat)
  /-- `Snapshot` at the head of its loop, over the sessions that are left. -/
  | listing (todo : List Nat) (lastQueryMaxChars : Nat)
  /-- In the `lock_guard` of `Snapshot`. -/
  | locking (session : Nat) (todo : List Nat) (lastQueryMaxChars : Nat)
  /-- `Snapshot` holds the lock and copies `last_query`. -/
  | copying (session : Nat) (todo : List Nat) (lastQueryMaxChars : Nat)
  deriving DecidableEq, Repr

/-- An answer `409 SESSION_BUSY`, with what the holder of the lock was doing when `try_lock` failed. -/
structure Refusal where
  session : Nat
  holder : Phase
  deriving DecidableEq, Repr

/-- The sessions and up to `n` requests at once. -/
structure State (n : Nat) where
  active : List Nat := []
  lock : Nat → Option (Fin n) := fun _ => none
  phase : Fin n → Phase := fun _ => .idle
  refused : List Refusal := []

inductive Action (n : Nat) where
  | create (session : Nat)
  | destroy (session : Nat)
  | sweep
  | interrupt (session : Nat)
  /-- A request for a session has looked it up. -/
  | arrive (request : Fin n) (kind : Kind) (session : Nat)
  /-- `Snapshot` has copied the sessions out of the map. -/
  | list (request : Fin n) (lastQueryMaxChars : Nat)
  /-- The next step of a request. -/
  | next (request : Fin n)
  /-- The lock of a `/sql` request is moved into its `StreamingCtx`. -/
  | stream (request : Fin n)
  deriving DecidableEq, Repr

/-- What `GET /sessions` passes to `Snapshot`. -/
def kLastQueryCap : Nat := 200

variable {n : Nat}

namespace State

variable (s : State n) (request : Fin n)

def toPhase (p : Phase) : State n := { s with phase := Function.update s.phase request p }

def take (session : Nat) (p : Phase) : State n :=
  { s.toPhase request p with lock := Function.update s.lock session (some request) }

def drop (session : Nat) (p : Phase) : State n :=
  { s.toPhase request p with lock := Function.update s.lock session none }

end State

/-! ## The step function -/

/-- The next step of a request. A blocking lock that is held is not a step. -/
def nextStep (s : State n) (request : Fin n) : Option (State n) :=
  match s.phase request with
  | .idle => none
  | .resolved session =>
      match s.lock session with
      | none => some (s.take request session (.querying .sql session))
      | some holder =>
          some { s.toPhase request (.answeredBusy session) with
            refused := ⟨session, s.phase holder⟩ :: s.refused }
  | .answeredBusy _ => some (s.toPhase request .idle)
  | .wanting kind session =>
      match s.lock session with
      | none => some (s.take request session (.querying kind session))
      | some _ => none
  | .querying _ session => some (s.drop request session .idle)
  | .streaming session => some (s.drop request session .idle)
  | .listing [] _ => some (s.toPhase request .idle)
  | .listing (session :: todo) lastQueryMaxChars =>
      if lastQueryMaxChars > 0 then
        some (s.toPhase request (.locking session todo lastQueryMaxChars))
      else some (s.toPhase request (.listing todo lastQueryMaxChars))
  | .locking session todo lastQueryMaxChars =>
      match s.lock session with
      | none => some (s.take request session (.copying session todo lastQueryMaxChars))
      | some _ => none
  | .copying session todo lastQueryMaxChars =>
      some (s.drop request session (.listing todo lastQueryMaxChars))

def step (s : State n) : Action n → Option (State n)
  | .create session => if session ∈ s.active then none else some { s with active := session :: s.active }
  | .destroy session => some { s with active := s.active.erase session }
  | .sweep => some s
  | .interrupt _ => some s
  | .arrive request kind session =>
      match s.phase request with
      | .idle =>
          if session ∈ s.active then
            some (s.toPhase request
              (if kind = .sql then .resolved session else .wanting kind session))
          else none
      | _ => none
  | .list request lastQueryMaxChars =>
      match s.phase request with
      | .idle => some (s.toPhase request (.listing s.active lastQueryMaxChars))
      | _ => none
  | .next request => nextStep s request
  | .stream request =>
      match s.phase request with
      | .querying .sql session => some (s.toPhase request (.streaming session))
      | _ => none

/-! ## Holders -/

/-- The session a request runs a query or a stream on. -/
def Phase.runsOn : Phase → Option Nat
  | .querying _ session | .streaming session => some session
  | _ => none

/-- The session `Snapshot` waits for, or is about to lock. -/
def Phase.waitsFor : Phase → Option Nat
  | .locking session _ _ => some session
  | _ => none

/-- The session `Snapshot` has locked. -/
def Phase.copies : Phase → Option Nat
  | .copying session _ _ => some session
  | _ => none

/-- The session whose lock a request holds. -/
def Phase.holds (p : Phase) : Option Nat := p.runsOn <|> p.copies

/-- The locks are held by those whose phase says so. -/
def Held (s : State n) : Prop :=
  ∀ session request, s.lock session = some request ↔ (s.phase request).holds = some session

theorem held_initial : Held ({} : State n) := fun session request => by
  simp [Phase.holds, Phase.runsOn, Phase.copies]

section

variable {s : State n} {request : Fin n} {p : Phase} (h : Held s)
include h

theorem held_toPhase (hp : p.holds = (s.phase request).holds) : Held (s.toPhase request p) := by
  intro session other
  show s.lock session = some other ↔ (Function.update s.phase request p other).holds = some session
  by_cases ho : other = request
  · subst ho
    rw [Function.update_self, hp]
    exact h session other
  · rw [Function.update_of_ne ho]
    exact h session other

theorem held_take {session : Nat} (hfree : s.lock session = none)
    (hnone : (s.phase request).holds = none) (hp : p.holds = some session) :
    Held (s.take request session p) := by
  intro session' other
  show Function.update s.lock session (some request) session' = some other ↔
    (Function.update s.phase request p other).holds = some session'
  by_cases ho : other = request
  · subst ho
    rw [Function.update_self, hp]
    by_cases hs : session' = session
    · simp [hs]
    · rw [Function.update_of_ne hs, h, hnone]
      simp [Ne.symm hs]
  · rw [Function.update_of_ne ho]
    by_cases hs : session' = session
    · subst hs
      rw [Function.update_self, ← h, hfree]
      simp [Ne.symm ho]
    · rw [Function.update_of_ne hs]
      exact h session' other

theorem held_drop {session : Nat} (hheld : (s.phase request).holds = some session)
    (hp : p.holds = none) : Held (s.drop request session p) := by
  have hlock := (h session request).mpr hheld
  intro session' other
  show Function.update s.lock session none session' = some other ↔
    (Function.update s.phase request p other).holds = some session'
  by_cases ho : other = request
  · subst ho
    rw [Function.update_self, hp]
    by_cases hs : session' = session
    · simp [hs]
    · rw [Function.update_of_ne hs, h, hheld]
      simp [Ne.symm hs]
  · rw [Function.update_of_ne ho]
    by_cases hs : session' = session
    · subst hs
      rw [Function.update_self, ← h, hlock]
      simp [Ne.symm ho]
    · rw [Function.update_of_ne hs]
      exact h session' other

end

/-! ## What a step can do -/

/-- `try_to_lock` and the blocking lock of a query request. -/
def Phase.wantsFor : Phase → Option (Kind × Nat)
  | .resolved session => some (.sql, session)
  | .wanting kind session => some (kind, session)
  | _ => none

/-- A step, by what it does to the locks. -/
inductive Effect (s : State n) : Action n → State n → Prop
  | quiet {a : Action n} (active : List Nat) (ha : ∀ request, a ≠ .next request) :
      Effect s a { s with active }
  /-- A request goes on without a lock, or with the one it has. -/
  | toPhase {a : Action n} {request : Fin n} {p : Phase}
      (hruns : p.runsOn = (s.phase request).runsOn) (hcopies : p.copies = (s.phase request).copies)
      (hwaits : p.waitsFor = none)
      (ha : ∀ r, a = .next r → r = request ∧ (s.phase request).wantsFor = none ∧
        ∀ session todo m, s.phase request = .listing (session :: todo) m → ¬ 0 < m) :
      Effect s a (s.toPhase request p)
  /-- A `try_to_lock` fails. -/
  | refuse {request holder : Fin n} {session : Nat} (hphase : s.phase request = .resolved session)
      (hlock : s.lock session = some holder) :
      Effect s (.next request) { s.toPhase request (.answeredBusy session) with
        refused := ⟨session, s.phase holder⟩ :: s.refused }
  /-- A query request gets the lock. -/
  | query {request : Fin n} {kind : Kind} {session : Nat}
      (hphase : (s.phase request).wantsFor = some (kind, session))
      (hlock : s.lock session = none) :
      Effect s (.next request) (s.take request session (.querying kind session))
  /-- A query, a stream or a copy is over. -/
  | drop {request : Fin n} {session : Nat} {p : Phase}
      (hphase : (s.phase request).holds = some session) (hholds : p.holds = none)
      (hwaits : p.waitsFor = none) : Effect s (.next request) (s.drop request session p)
  /-- `Snapshot` turns to a session. -/
  | approach {request : Fin n} {session : Nat} {todo : List Nat} {lastQueryMaxChars : Nat}
      (hphase : s.phase request = .listing (session :: todo) lastQueryMaxChars)
      (hchars : 0 < lastQueryMaxChars) :
      Effect s (.next request) (s.toPhase request (.locking session todo lastQueryMaxChars))
  /-- `Snapshot` gets the lock. -/
  | copy {request : Fin n} {session : Nat} {todo : List Nat} {lastQueryMaxChars : Nat}
      (hphase : s.phase request = .locking session todo lastQueryMaxChars)
      (hlock : s.lock session = none) :
      Effect s (.next request) (s.take request session (.copying session todo lastQueryMaxChars))

theorem nextStep_effect {s t : State n} {request : Fin n} (h : nextStep s request = some t) :
    Effect s (.next request) t := by
  rw [nextStep] at h
  cases hp : s.phase request with
  | idle =>
      rw [hp] at h
      exact nomatch h
  -- the claim of the lock is tried and refused here, below it is waited for
  | resolved session =>
      rw [hp] at h
      dsimp only at h
      cases hlock : s.lock session with
      | none =>
          rw [hlock] at h
          cases h
          exact .query (by rw [hp]; rfl) hlock
      | some holder =>
          rw [hlock] at h
          cases h
          exact .refuse hp hlock
  | answeredBusy session =>
      rw [hp] at h
      cases h
      exact .toPhase (by rw [hp]; rfl) (by rw [hp]; rfl) rfl (by simp [hp, Phase.wantsFor])
  | wanting kind session =>
      rw [hp] at h
      dsimp only at h
      cases hlock : s.lock session with
      | none =>
          rw [hlock] at h
          cases h
          exact .query (by rw [hp]; rfl) hlock
      | some holder =>
          rw [hlock] at h
          exact nomatch h
  -- the guard goes out of scope
  | querying kind session =>
      rw [hp] at h
      cases h
      exact .drop (by rw [hp]; rfl) rfl rfl
  | streaming session =>
      rw [hp] at h
      cases h
      exact .drop (by rw [hp]; rfl) rfl rfl
  | listing todo lastQueryMaxChars =>
      rw [hp] at h
      cases todo with
      | nil =>
          cases h
          exact .toPhase (by rw [hp]; rfl) (by rw [hp]; rfl) rfl (by simp [hp, Phase.wantsFor])
      | cons session todo =>
          dsimp only at h
          -- without `lastQueryMaxChars` the listing copies no query and takes no lock
          by_cases hchars : lastQueryMaxChars > 0
          · rw [if_pos hchars] at h
            cases h
            exact .approach hp hchars
          · rw [if_neg hchars] at h
            cases h
            refine .toPhase (by rw [hp]; rfl) (by rw [hp]; rfl) rfl fun r hr => ?_
            refine ⟨(Action.next.inj hr).symm, by rw [hp]; rfl, fun session' todo' m hm => ?_⟩
            rw [hp, Phase.listing.injEq] at hm
            exact hm.2 ▸ hchars
  | locking session todo lastQueryMaxChars =>
      rw [hp] at h
      dsimp only at h
      cases hlock : s.lock session with
      | none =>
          rw [hlock] at h
          cases h
          exact .copy hp hlock
      | some holder =>
          rw [hlock] at h
          exact nomatch h
  | copying session todo lastQueryMaxChars =>
      rw [hp] at h
      cases h
      exact .drop (by rw [hp]; rfl) rfl rfl

/-- Every step is one of these. -/
theorem step_effect {s t : State n} {a : Action n} (h : step s a = some t) : Effect s a t := by
  cases a with
  | create session =>
      rw [step] at h
      split_ifs at h
      cases h
      exact .quiet _ (by simp)
  | destroy session =>
      cases h
      exact .quiet _ (by simp)
  | sweep =>
      cases h
      exact .quiet s.active (by simp)
  | interrupt session =>
      cases h
      exact .quiet s.active (by simp)
  | arrive request kind session =>
      rw [step] at h
      split at h
      · next hp =>
        by_cases hsession : session ∈ s.active
        · rw [if_pos hsession] at h
          cases h
          exact .toPhase (by rw [hp]; cases kind <;> rfl) (by rw [hp]; cases kind <;> rfl)
            (by cases kind <;> rfl) (by simp)
        · rw [if_neg hsession] at h
          exact nomatch h
      · exact nomatch h
  | list request lastQueryMaxChars =>
      rw [step] at h
      split at h
      · next hp =>
        cases h
        exact .toPhase (by rw [hp]; rfl) (by rw [hp]; rfl) rfl (by simp)
      · exact nomatch h
  | next request => exact nextStep_effect h
  | stream request =>
      rw [step] at h
      split at h
      · next session hp =>
        cases h
        exact .toPhase (by rw [hp]; rfl) (by rw [hp]; rfl) rfl (by simp)
      · exact nomatch h

theorem holds_eq {p q : Phase} (hruns : p.runsOn = q.runsOn) (hcopies : p.copies = q.copies) :
    p.holds = q.holds := by
  rw [Phase.holds, Phase.holds, hruns, hcopies]

theorem holds_of_wantsFor {p : Phase} {w : Kind × Nat} (h : p.wantsFor = some w) :
    p.holds = none := by
  cases p <;> first | rfl | exact nomatch h

theorem waitsFor_of_wantsFor {p : Phase} {w : Kind × Nat} (h : p.wantsFor = some w) :
    p.waitsFor = none := by
  cases p <;> first | rfl | exact nomatch h

theorem held_step {s t : State n} {a : Action n} (h : Held s) (hst : step s a = some t) :
    Held t := by
  cases step_effect hst with
  | quiet active ha => exact h
  | toPhase hruns hcopies hwaits ha => exact held_toPhase h (holds_eq hruns hcopies)
  | refuse hphase hlock => exact held_toPhase h (by rw [hphase]; rfl)
  | query hphase hlock => exact held_take h hlock (holds_of_wantsFor hphase) rfl
  | drop hphase hholds hwaits => exact held_drop h hphase hholds
  | approach hphase hchars => exact held_toPhase h (by rw [hphase]; rfl)
  | copy hphase hlock => exact held_take h hlock (by rw [hphase]; rfl) rfl

/-! ## Listing -/

/-- No `Snapshot` waits for a lock that a handler or a stream holds for its query. -/
def ListingUnblocked (s : State n) : Prop :=
  ∀ request session, (s.phase request).waitsFor = some session →
    ∀ holder, s.lock session = some holder → (s.phase holder).runsOn ≠ some session

/-- A `Snapshot` that copies `last_query` turns to a session on which nothing runs, and no query takes a
lock that a `Snapshot` stands before. -/
def ListingApart (s : State n) : Action n → Prop
  | .next request =>
      (∀ session todo lastQueryMaxChars,
          s.phase request = .listing (session :: todo) lastQueryMaxChars → 0 < lastQueryMaxChars →
          ∀ other, (s.phase other).runsOn ≠ some session) ∧
        ∀ kind session, (s.phase request).wantsFor = some (kind, session) →
          s.lock session = none → ∀ other, (s.phase other).waitsFor ≠ some session
  | _ => True

/-- `ListingUnblocked` without the locks. -/
def Apart (phase : Fin n → Phase) : Prop :=
  ∀ request other session, (phase request).waitsFor = some session →
    (phase other).runsOn ≠ some session

theorem holds_of_runsOn {p : Phase} {session : Nat} (h : p.runsOn = some session) :
    p.holds = some session := by
  rw [Phase.holds, h]
  rfl

theorem listingUnblocked_iff {s : State n} (h : Held s) :
    ListingUnblocked s ↔ Apart s.phase := by
  constructor
  · intro hs request other session hwaits hruns
    exact hs request session hwaits other ((h session other).mpr (holds_of_runsOn hruns)) hruns
  · intro hs request session hwaits holder _
    exact hs request holder session hwaits

/-- One request goes to another phase. -/
theorem apart_update {phase : Fin n → Phase} {request : Fin n} {p : Phase} (hs : Apart phase)
    (hself : ∀ session, p.waitsFor = some session → p.runsOn ≠ some session) :
    Apart (Function.update phase request p) ↔
      (∀ session, p.waitsFor = some session →
        ∀ other, other ≠ request → (phase other).runsOn ≠ some session) ∧
      ∀ session, p.runsOn = some session →
        ∀ other, other ≠ request → (phase other).waitsFor ≠ some session := by
  constructor
  · intro ht
    refine ⟨fun session hp other ho => ?_, fun session hp other ho hwaits => ?_⟩
    · have := ht request other session
      rw [Function.update_self, Function.update_of_ne ho] at this
      exact this hp
    · have := ht other request session
      rw [Function.update_self, Function.update_of_ne ho] at this
      exact this hwaits hp
  · rintro ⟨hwait, hrun⟩ a b session ha hb
    by_cases har : a = request
    · rw [har, Function.update_self] at ha
      by_cases hbr : b = request
      · rw [hbr, Function.update_self] at hb
        exact hself session ha hb
      · rw [Function.update_of_ne hbr] at hb
        exact hwait session ha b hbr hb
    · rw [Function.update_of_ne har] at ha
      by_cases hbr : b = request
      · rw [hbr, Function.update_self] at hb
        exact hrun session hb a har ha
      · rw [Function.update_of_ne hbr] at hb
        exact hs a b session ha hb

theorem runsOn_of_holds_none {p : Phase} (h : p.holds = none) : p.runsOn = none := by
  cases p <;> first | rfl | exact nomatch h

/-- A step that neither waits nor starts to run keeps them apart. -/
theorem apart_update_of_none {phase : Fin n → Phase} {request : Fin n} {p : Phase}
    (hs : Apart phase) (hwaits : p.waitsFor = none)
    (hruns : p.runsOn = (phase request).runsOn ∨ p.runsOn = none) :
    Apart (Function.update phase request p) := by
  have hnot (session : Nat) : p.waitsFor ≠ some session := by simp [hwaits]
  refine (apart_update hs fun session h => absurd h (hnot session)).mpr
    ⟨fun session h => absurd h (hnot session), fun session hp other _ hother => ?_⟩
  rcases hruns with h | h
  · exact hs other request session hother (h ▸ hp)
  · rw [h] at hp
    exact nomatch hp

theorem apart_step_iff {s t : State n} {a : Action n} (hs : Apart s.phase)
    (hst : step s a = some t) : Apart t.phase ↔ ListingApart s a := by
  cases step_effect hst with
  | quiet active ha =>
      refine iff_of_true hs ?_
      cases a with
      | next request => exact absurd rfl (ha request)
      | _ => trivial
  | toPhase hruns hcopies hwaits ha =>
      refine iff_of_true (apart_update_of_none hs hwaits (.inl hruns)) ?_
      cases a with
      | next request =>
          obtain ⟨rfl, hwants, hlisting⟩ := ha request rfl
          refine ⟨fun session todo m hp hm => absurd hm (hlisting session todo m hp), ?_⟩
          intro kind session hw
          rw [hwants] at hw
          exact nomatch hw
      | _ => trivial
  | @refuse request holder session hphase hlock =>
      refine iff_of_true (apart_update_of_none hs rfl (.inr rfl)) ⟨?_, ?_⟩
      · intro session' todo m hp
        rw [hphase] at hp
        exact nomatch hp
      · intro kind session' hw hfree
        rw [hphase, Phase.wantsFor, Option.some.injEq, Prod.mk.injEq] at hw
        rw [← hw.2, hlock] at hfree
        exact nomatch hfree
  | @query request kind session hphase hlock =>
      show Apart (Function.update s.phase request (.querying kind session)) ↔ _
      rw [apart_update hs (by simp [Phase.waitsFor])]
      constructor
      · rintro ⟨_, hrun⟩
        refine ⟨fun session' todo m hp => ?_, fun kind' session' hw _ other => ?_⟩
        · rw [hp] at hphase
          exact nomatch hphase
        rw [hphase, Option.some.injEq, Prod.mk.injEq] at hw
        rw [← hw.2]
        by_cases ho : other = request
        · rw [ho, waitsFor_of_wantsFor hphase]
          simp
        · exact hrun session rfl other ho
      · rintro ⟨_, hfree⟩
        refine ⟨by simp [Phase.waitsFor], fun session' hp other _ => ?_⟩
        rw [Phase.runsOn, Option.some.injEq] at hp
        rw [← hp]
        exact hfree kind session hphase hlock other
  | @drop request session p hphase hholds hwaits =>
      refine iff_of_true (apart_update_of_none hs hwaits (.inr (runsOn_of_holds_none hholds)))
        ⟨?_, ?_⟩
      · intro session' todo m hp
        rw [hp] at hphase
        exact nomatch hphase
      · intro kind session' hw
        rw [holds_of_wantsFor hw] at hphase
        exact nomatch hphase
  | @approach request session todo m hphase hchars =>
      show Apart (Function.update s.phase request (.locking session todo m)) ↔ _
      rw [apart_update hs (by simp [Phase.runsOn])]
      constructor
      · rintro ⟨hwait, _⟩
        refine ⟨fun session' todo' m' hp _ other => ?_, ?_⟩
        · rw [hphase, Phase.listing.injEq, List.cons.injEq] at hp
          rw [← hp.1.1]
          by_cases ho : other = request
          · rw [ho, hphase]
            simp [Phase.runsOn]
          · exact hwait session rfl other ho
        · intro kind session' hw
          rw [hphase] at hw
          exact nomatch hw
      · rintro ⟨hclear, _⟩
        refine ⟨fun session' hp other _ => ?_, by simp [Phase.runsOn]⟩
        rw [Phase.waitsFor, Option.some.injEq] at hp
        rw [← hp]
        exact hclear session todo m hphase hchars other
  | @copy request session todo m hphase hlock =>
      refine iff_of_true (apart_update_of_none hs rfl (.inr rfl)) ⟨?_, ?_⟩
      · intro session' todo' m' hp
        rw [hphase] at hp
        exact nomatch hp
      · intro kind session' hw
        rw [hphase] at hw
        exact nomatch hw

/-- **A run never has a `Snapshot` waiting for a query or a stream exactly when it keeps the two apart.** -/
theorem listing_unblocked_iff (n : Nat) (as : List (Action n)) (s : State n)
    (hrun : run step {} as = some s) :
    Always step ListingUnblocked ({} : State n) as ↔ Meets step ListingApart ({} : State n) as := by
  refine always_iff_meets (I := Held) (fun s a t h hst => held_step h hst)
    (fun s a t h hs hst => ?_) held_initial (fun _ _ h => nomatch h) hrun
  rw [listingUnblocked_iff (held_step h hst)]
  exact apart_step_iff ((listingUnblocked_iff h).mp hs) hst

/-- `GET /sessions` while a query runs. -/
def listedWhileQuerying : List (Action 2) :=
  [.create 0, .arrive 0 .sql 0, .next 0, .list 1 kLastQueryCap, .next 1]

/-- `GET /sessions` before a query and after it. -/
def listedApart : List (Action 2) :=
  [.create 0, .list 1 kLastQueryCap, .next 1, .next 1, .next 1, .next 1,
    .arrive 0 .sql 0, .next 0, .stream 0, .next 0, .list 1 kLastQueryCap, .next 1]

theorem listing_unblocked_iff_listedApart :
    Always step ListingUnblocked ({} : State 2) listedApart ↔
      Meets step ListingApart ({} : State 2) listedApart :=
  listing_unblocked_iff 2 listedApart ((run step {} listedApart).getD {}) rfl

theorem listing_blocked_listedWhileQuerying :
    ¬ ∀ (n : Nat) (as : List (Action n)) (s : State n), run step {} as = some s →
      ListingUnblocked s := by
  intro h
  have hrun : run step {} listedWhileQuerying =
      some ((run step {} listedWhileQuerying).getD {}) := rfl
  exact h 2 _ _ hrun 1 0 rfl 0 rfl rfl

/-! ## Busy answers -/

/-- Every `409 SESSION_BUSY` was given while the holder of the lock ran a query or a stream. -/
def BusyAccurate (s : State n) : Prop := ∀ e ∈ s.refused, e.holder.runsOn = some e.session

/-- A `/sql` request does not try the lock of a session while a `Snapshot` holds it. -/
def TryApart (s : State n) : Action n → Prop
  | .next request =>
      ∀ session, s.phase request = .resolved session →
        ∀ other, (s.phase other).copies ≠ some session
  | _ => True

theorem holds_of_copies {p : Phase} {session : Nat} (h : p.copies = some session) :
    p.holds = some session ∧ p.runsOn = none := by
  cases p with
  | copying copied todo lastQueryMaxChars => exact ⟨h, rfl⟩
  | _ => exact absurd h (by simp [Phase.copies])

/-- Who holds the lock of a session copies its `last_query`, or runs something on it. -/
theorem runsOn_of_holds {p : Phase} {session : Nat} (h : p.holds = some session)
    (hcopies : p.copies ≠ some session) : p.runsOn = some session := by
  cases p <;> first | exact h | exact absurd h hcopies

theorem tryApart_of_not_resolved {s : State n} {request : Fin n}
    (h : ∀ session, s.phase request ≠ .resolved session) : TryApart s (.next request) :=
  fun session hp => absurd hp (h session)

theorem busyAccurate_step_iff {s t : State n} {a : Action n} (h : Held s) (hs : BusyAccurate s)
    (hst : step s a = some t) : BusyAccurate t ↔ TryApart s a := by
  cases step_effect hst with
  | quiet active ha =>
      refine iff_of_true hs ?_
      cases a with
      | next request => exact absurd rfl (ha request)
      | _ => trivial
  | toPhase hruns hcopies hwaits ha =>
      refine iff_of_true hs ?_
      cases a with
      | next request =>
          obtain ⟨rfl, hwants, -⟩ := ha request rfl
          refine tryApart_of_not_resolved fun session hp => ?_
          rw [hp] at hwants
          exact nomatch hwants
      | _ => trivial
  | @refuse request holder session hphase hlock =>
      have hholds := (h session holder).mp hlock
      constructor
      · intro ht session' hp other hother
        rw [hphase, Phase.resolved.injEq] at hp
        rw [← hp] at hother
        -- the one that copies is the holder
        have hsame := (h session other).mpr (holds_of_copies hother).1
        rw [hlock, Option.some.injEq] at hsame
        have hruns : (s.phase holder).runsOn = some session :=
          ht ⟨session, s.phase holder⟩ List.mem_cons_self
        rw [hsame, (holds_of_copies hother).2] at hruns
        exact nomatch hruns
      · -- the new answer `busy` is right if nobody copies, and the earlier ones were
        intro hclear e he
        rcases List.mem_cons.mp he with rfl | he
        · exact runsOn_of_holds hholds (hclear session hphase holder)
        · exact hs e he
  | @query request kind session hphase hlock =>
      refine iff_of_true hs fun session' hp other hother => ?_
      rw [hp, Phase.wantsFor, Option.some.injEq, Prod.mk.injEq] at hphase
      rw [hphase.2] at hother
      -- who copies holds the lock, but the lock is free here
      have hheld := (h session other).mpr (holds_of_copies hother).1
      rw [hlock] at hheld
      exact nomatch hheld
  | @drop request session p hphase hholds hwaits =>
      refine iff_of_true hs (tryApart_of_not_resolved fun session' hp => ?_)
      rw [hp] at hphase
      exact nomatch hphase
  | @approach request session todo m hphase hchars =>
      refine iff_of_true hs (tryApart_of_not_resolved fun session' hp => ?_)
      rw [hp] at hphase
      exact nomatch hphase
  | @copy request session todo m hphase hlock =>
      refine iff_of_true hs (tryApart_of_not_resolved fun session' hp => ?_)
      rw [hp] at hphase
      exact nomatch hphase

/-- **All busy answers of a run are accurate exactly when no `/sql` request of it tries a lock that a
`Snapshot` holds.** -/
theorem busy_accurate_iff (n : Nat) (as : List (Action n)) (s : State n)
    (hrun : run step {} as = some s) :
    Always step BusyAccurate ({} : State n) as ↔ Meets step TryApart ({} : State n) as :=
  always_iff_meets (I := Held) (fun _ _ _ h hst => held_step h hst)
    (fun _ _ _ h hs hst => busyAccurate_step_iff h hs hst) held_initial
    (fun _ h => nomatch h) hrun

/-- A second `/sql` request meets the stream of the first one. -/
def triedWhileStreaming : List (Action 2) :=
  [.create 0, .arrive 0 .sql 0, .next 0, .stream 0, .arrive 1 .sql 0, .next 1]

theorem busy_accurate_iff_triedWhileStreaming :
    Always step BusyAccurate ({} : State 2) triedWhileStreaming ↔
      Meets step TryApart ({} : State 2) triedWhileStreaming :=
  busy_accurate_iff 2 triedWhileStreaming ((run step {} triedWhileStreaming).getD {}) rfl

/-- A `/sql` request meets `GET /sessions` at an idle session. -/
def triedWhileListing : List (Action 2) :=
  [.create 0, .list 0 kLastQueryCap, .next 0, .next 0, .arrive 1 .sql 0, .next 1]

theorem busy_inaccurate_triedWhileListing :
    ¬ ∀ (n : Nat) (as : List (Action n)) (s : State n), run step {} as = some s →
      BusyAccurate s := by
  intro h
  have hrun : run step {} triedWhileListing =
      some ((run step {} triedWhileListing).getD {}) := rfl
  exact nomatch h 2 _ _ hrun ⟨0, .copying 0 [] kLastQueryCap⟩ List.mem_cons_self

end Harbor.SessionLocks
