import Mathlib.Tactic

set_option autoImplicit false

/-! # A session of a transactional store

A session is asked for one statement after another. What it makes of each may depend on anything (`ω`),
within the laws of transactions: what is done outside of a transaction is kept at once, what is done in one
is kept by its COMMIT and by nothing else, and a statement that fails does nothing, except that a COMMIT may
end its transaction with nothing kept.
-/

namespace Harbor

/-- What a session is asked for: what is `run` neither begins nor ends a transaction. -/
inductive Statement (S : Type) where
  | begin
  | commit
  | rollback
  | run (statement : S)
deriving DecidableEq, Repr

/-- A session in the states `σ`, of a database that has the contents `D`. -/
structure Store (σ S D ω : Type) where
  /-- Whether the statement succeeds, and the state after it. -/
  exec : σ → Statement S → ω → Bool × σ
  /-- A transaction is open. -/
  isOpen : σ → Bool
  /-- What is kept. -/
  committed : σ → D
  /-- What the session sees. -/
  view : σ → D
  apply : S → D → D
  view_of_closed : ∀ {s}, isOpen s = false → view s = committed s
  begin_done : ∀ {s w t}, exec s .begin w = (true, t) →
    isOpen s = false ∧ isOpen t = true ∧ committed t = committed s ∧ view t = committed s
  commit_done : ∀ {s w t}, exec s .commit w = (true, t) →
    isOpen s = true ∧ isOpen t = false ∧ committed t = view s
  rollback_done : ∀ {s w t}, exec s .rollback w = (true, t) →
    isOpen s = true ∧ isOpen t = false ∧ committed t = committed s
  run_done : ∀ {s q w t}, exec s (.run q) w = (true, t) →
    isOpen t = isOpen s ∧ view t = apply q (view s) ∧ (isOpen s = true → committed t = committed s)
  failed : ∀ {s statement w t}, exec s statement w = (false, t) → committed t = committed s ∧
    (isOpen t = isOpen s ∧ view t = view s ∨ statement = .commit ∧ isOpen t = false)

namespace Store

variable {σ S D ω : Type} (store : Store σ S D ω)

/-! ## One statement -/

variable {store} {s t : σ} {w : ω} {ok : Bool}

/-- Only a BEGIN opens a transaction. -/
theorem isOpen_of_exec {statement : Statement S} (h : store.exec s statement w = (ok, t))
    (hopen : store.isOpen t = true) : store.isOpen s = true ∨ statement = .begin ∧ ok = true := by
  cases ok with
  | false =>
      obtain ⟨-, ⟨hsame, -⟩ | ⟨-, hclosed⟩⟩ := store.failed h
      · exact Or.inl (hsame ▸ hopen)
      · exact absurd (hclosed.symm.trans hopen) Bool.false_ne_true
  | true =>
      cases statement with
      | begin => exact Or.inr ⟨rfl, rfl⟩
      | commit => exact Or.inl (store.commit_done h).1
      | rollback => exact Or.inl (store.rollback_done h).1
      | run q => exact Or.inl ((store.run_done h).1 ▸ hopen)

/-- Only a COMMIT and a ROLLBACK close it. -/
theorem isOpen_exec {statement : Statement S} (h : store.exec s statement w = (ok, t))
    (hopen : store.isOpen s = true) (hcommit : statement ≠ .commit) (hrollback : statement ≠ .rollback) :
    store.isOpen t = true := by
  cases ok with
  | false =>
      obtain ⟨-, ⟨hsame, -⟩ | ⟨rfl, -⟩⟩ := store.failed h
      · exact hsame.trans hopen
      · exact absurd rfl hcommit
  | true =>
      cases statement with
      | begin => exact (store.begin_done h).2.1
      | commit => exact absurd rfl hcommit
      | rollback => exact absurd rfl hrollback
      | run q => exact (store.run_done h).1.trans hopen

/-! ## One statement after another -/

/-- The statements that were carried out with success. -/
def effects (log : List (Statement S × Bool)) : List S :=
  log.filterMap fun
    | (.run q, true) => some q
    | _ => none

theorem effects_append (log later : List (Statement S × Bool)) :
    effects (log ++ later) = effects log ++ effects later :=
  List.filterMap_append

theorem effects_eq_nil {log : List (Statement S × Bool)} (h : ∀ x ∈ log, ∀ q, x ≠ (.run q, true)) :
    effects log = [] := by
  refine List.filterMap_eq_nil_iff.mpr ?_
  rintro ⟨statement, ok⟩ hx
  have hx := h _ hx
  cases statement with
  | run q =>
      cases ok with
      | true => exact absurd rfl (hx q)
      | false => rfl
  | begin | commit | rollback => rfl

variable (store) in
def applyAll (statements : List S) (d : D) : D := statements.foldl (fun d q => store.apply q d) d

theorem applyAll_append (statements later : List S) (d : D) :
    store.applyAll (statements ++ later) d = store.applyAll later (store.applyAll statements d) :=
  List.foldl_append

variable (store) in
/-- The session has come from the one state to the other by the statements of the log. -/
def Carried : σ → List (Statement S × Bool) → σ → Prop
  | s, [], t => s = t
  | s, (statement, ok) :: log, t => ∃ w u, store.exec s statement w = (ok, u) ∧ Carried u log t

theorem carried_append {log later : List (Statement S × Bool)} :
    store.Carried s (log ++ later) t ↔ ∃ u, store.Carried s log u ∧ store.Carried u later t := by
  induction log generalizing s with
  | nil => exact ⟨fun h => ⟨s, rfl, h⟩, fun ⟨u, hu, h⟩ => hu ▸ h⟩
  | cons x log ih =>
      constructor
      · rintro ⟨w, v, hexec, h⟩
        obtain ⟨u, hlog, hlater⟩ := ih.mp h
        exact ⟨u, ⟨w, v, hexec, hlog⟩, hlater⟩
      · rintro ⟨u, ⟨w, v, hexec, hlog⟩, hlater⟩
        exact ⟨w, v, hexec, ih.mpr ⟨u, hlog, hlater⟩⟩

theorem Carried.exec {log : List (Statement S × Bool)} {u : σ} (h : store.Carried s log t)
    {statement : Statement S} (hexec : store.exec t statement w = (ok, u)) :
    store.Carried s (log ++ [(statement, ok)]) u :=
  carried_append.mpr ⟨t, h, w, u, hexec, rfl⟩

/-- Without a BEGIN everything is kept at once. -/
theorem Carried.closed {log : List (Statement S × Bool)} (h : store.Carried s log t)
    (hclosed : store.isOpen s = false) (hbegin : (.begin, true) ∉ log) :
    store.isOpen t = false ∧ store.committed t = store.applyAll (effects log) (store.committed s) := by
  induction log generalizing s with
  | nil =>
      obtain rfl := h
      exact ⟨hclosed, rfl⟩
  | cons x log ih =>
      obtain ⟨statement, ok⟩ := x
      obtain ⟨w, u, hexec, h⟩ := h
      rw [List.mem_cons, not_or] at hbegin
      have hu : store.isOpen u = false := by
        by_contra hopen
        rcases isOpen_of_exec hexec (by simpa using hopen) with hs | ⟨rfl, rfl⟩
        · exact Bool.false_ne_true (hclosed.symm.trans hs)
        · exact hbegin.1 rfl
      obtain ⟨ht, hkept⟩ := ih h hu hbegin.2
      refine ⟨ht, hkept.trans ?_⟩
      rw [← List.singleton_append, effects_append, applyAll_append]
      congr 1
      cases ok with
      | false =>
          rw [effects_eq_nil (by simp), (store.failed hexec).1]
          rfl
      | true =>
          cases statement with
          | begin => exact absurd rfl hbegin.1
          | commit =>
              rw [(store.commit_done hexec).2.2, store.view_of_closed hclosed]
              rfl
          | rollback =>
              rw [(store.rollback_done hexec).2.2]
              rfl
          | run q =>
              rw [← store.view_of_closed hu, (store.run_done hexec).2.1, store.view_of_closed hclosed]
              rfl

/-- In a transaction that is not ended nothing is kept, and the session sees it all. -/
theorem Carried.inside {log : List (Statement S × Bool)} (h : store.Carried s log t)
    (hopen : store.isOpen s = true) (hends : ∀ x ∈ log, x.1 ≠ .commit ∧ x.1 ≠ .rollback) :
    store.isOpen t = true ∧ store.committed t = store.committed s ∧
      store.view t = store.applyAll (effects log) (store.view s) := by
  induction log generalizing s with
  | nil =>
      obtain rfl := h
      exact ⟨hopen, rfl, rfl⟩
  | cons x log ih =>
      obtain ⟨statement, ok⟩ := x
      obtain ⟨w, u, hexec, h⟩ := h
      obtain ⟨⟨hcommit, hrollback⟩, hends⟩ := List.forall_mem_cons.mp hends
      obtain ⟨ht, hkept, hview⟩ := ih h (isOpen_exec hexec hopen hcommit hrollback) hends
      rw [← List.singleton_append, effects_append, applyAll_append]
      cases ok with
      | false =>
          obtain ⟨hcommitted, ⟨-, hsame⟩ | ⟨rfl, -⟩⟩ := store.failed hexec
          · refine ⟨ht, hkept.trans hcommitted, ?_⟩
            have hnone : effects [(statement, false)] = [] := effects_eq_nil (by simp)
            rw [hview, hsame, hnone]
            rfl
          · exact absurd rfl hcommit
      | true =>
          cases statement with
          | begin => exact absurd (hopen.symm.trans (store.begin_done hexec).1).symm Bool.false_ne_true
          | commit => exact absurd rfl hcommit
          | rollback => exact absurd rfl hrollback
          | run q =>
              obtain ⟨-, hsees, hsame⟩ := store.run_done hexec
              refine ⟨ht, hkept.trans (hsame hopen), ?_⟩
              rw [hview, hsees]
              rfl

/-! ## Whole transactions -/

/-- What came before the first BEGIN that succeeded. -/
def beforeBegin : List (Statement S × Bool) → List (Statement S × Bool)
  | [] => []
  | (.begin, true) :: _ => []
  | x :: log => x :: beforeBegin log

theorem beforeBegin_cons {x : Statement S × Bool} (hx : x ≠ (.begin, true))
    (log : List (Statement S × Bool)) : beforeBegin (x :: log) = x :: beforeBegin log := by
  obtain ⟨statement, ok⟩ := x
  cases statement with
  | begin =>
      cases ok with
      | true => exact absurd rfl hx
      | false => rfl
  | commit | rollback | run q => rfl

theorem notMem_beforeBegin (log : List (Statement S × Bool)) : (.begin, true) ∉ beforeBegin log := by
  induction log with
  | nil => exact List.not_mem_nil
  | cons x log ih =>
      by_cases hx : x = (.begin, true)
      · rw [hx]
        exact List.not_mem_nil
      · rw [beforeBegin_cons hx, List.mem_cons, not_or]
        exact ⟨Ne.symm hx, ih⟩

theorem beforeBegin_split (log : List (Statement S × Bool)) :
    beforeBegin log = log ∨ ∃ after, log = beforeBegin log ++ (.begin, true) :: after := by
  induction log with
  | nil => exact Or.inl rfl
  | cons x log ih =>
      by_cases hx : x = (.begin, true)
      · rw [hx]
        exact Or.inr ⟨log, rfl⟩
      · rw [beforeBegin_cons hx]
        refine ih.imp (congrArg (x :: ·)) ?_
        rintro ⟨after, hafter⟩
        exact ⟨after, congrArg (x :: ·) hafter⟩

/-- **A transaction that is not ended.** What came before its BEGIN is kept, and nothing else; the session
sees everything. -/
theorem Carried.unfinished {log : List (Statement S × Bool)} (h : store.Carried s log t)
    (hclosed : store.isOpen s = false) (hends : ∀ x ∈ log, x.1 ≠ .commit ∧ x.1 ≠ .rollback) :
    (store.isOpen t = true ↔ (.begin, true) ∈ log) ∧
      store.committed t = store.applyAll (effects (beforeBegin log)) (store.committed s) ∧
      store.view t = store.applyAll (effects log) (store.committed s) := by
  rcases beforeBegin_split log with hwhole | ⟨after, hsplit⟩
  · have hbegin : (Statement.begin, true) ∉ log := hwhole ▸ notMem_beforeBegin log
    obtain ⟨ht, hkept⟩ := h.closed hclosed hbegin
    exact ⟨iff_of_false (by simp [ht]) hbegin, by rw [hwhole, hkept],
      (store.view_of_closed ht).trans hkept⟩
  · generalize hbefore : beforeBegin log = before at hsplit
    have hbegin : (Statement.begin, true) ∉ before := hbefore ▸ notMem_beforeBegin log
    subst hsplit
    obtain ⟨u, hlog, w, v, hexec, hafter⟩ := carried_append.mp h
    obtain ⟨hu, hkept⟩ := hlog.closed hclosed hbegin
    obtain ⟨-, hv, hcommitted, hview⟩ := store.begin_done hexec
    obtain ⟨ht, hsame, hsees⟩ := hafter.inside hv fun x hx => hends x (by simp [hx])
    refine ⟨iff_of_true ht (by simp), hsame.trans (hcommitted.trans hkept), ?_⟩
    rw [hsees, hview, hkept, ← applyAll_append, ← effects_append, effects_append, effects_append]
    rfl

/-- A ROLLBACK, and any number of them, keeps nothing more. -/
theorem Carried.rollbacks {log : List (Statement S × Bool)} (h : store.Carried s log t)
    (hlog : ∀ x ∈ log, x.1 = .rollback) : store.committed t = store.committed s := by
  induction log generalizing s with
  | nil =>
      obtain rfl := h
      rfl
  | cons x log ih =>
      obtain ⟨statement, ok⟩ := x
      obtain ⟨w, u, hexec, h⟩ := h
      obtain ⟨hx, hrest⟩ := List.forall_mem_cons.mp hlog
      obtain rfl : statement = .rollback := hx
      refine (ih h hrest).trans ?_
      cases ok with
      | true => exact (store.rollback_done hexec).2.2
      | false => exact (store.failed hexec).1

/-- Where no transaction is open, no COMMIT succeeds. -/
theorem Carried.commits_closed {log : List (Statement S × Bool)} (h : store.Carried s log t)
    (hclosed : store.isOpen s = false) (hlog : ∀ x ∈ log, x.1 = .commit) : (.commit, true) ∉ log := by
  induction log generalizing s with
  | nil => exact List.not_mem_nil
  | cons x log ih =>
      obtain ⟨statement, ok⟩ := x
      obtain ⟨w, u, hexec, h⟩ := h
      obtain ⟨hx, hrest⟩ := List.forall_mem_cons.mp hlog
      obtain rfl : statement = .commit := hx
      cases ok with
      | true => exact absurd (hclosed.symm.trans (store.commit_done hexec).1) Bool.false_ne_true
      | false =>
          have hu : store.isOpen u = false := by
            obtain ⟨-, ⟨hsame, -⟩ | ⟨-, hu⟩⟩ := store.failed hexec
            · exact hsame.trans hclosed
            · exact hu
          simpa using ih h hu hrest

/-- Of COMMITs in an open transaction one that succeeds keeps what the session sees. -/
theorem Carried.commits {log : List (Statement S × Bool)} (h : store.Carried s log t)
    (hlog : ∀ x ∈ log, x.1 = .commit) (hdone : (.commit, true) ∈ log) :
    store.committed t = store.view s := by
  induction log generalizing s with
  | nil => cases hdone
  | cons x log ih =>
      obtain ⟨statement, ok⟩ := x
      obtain ⟨w, u, hexec, h⟩ := h
      obtain ⟨hx, hrest⟩ := List.forall_mem_cons.mp hlog
      obtain rfl : statement = .commit := hx
      cases ok with
      | true =>
          obtain ⟨-, hu, hkept⟩ := store.commit_done hexec
          have hnone : effects log = [] := by
            refine effects_eq_nil fun x hx q heq => ?_
            have hcommit := hrest x hx
            rw [heq] at hcommit
            cases hcommit
          obtain ⟨-, hsame⟩ := h.closed hu fun hmem => by cases hrest _ hmem
          rw [hsame, hnone]
          exact hkept
      | false =>
          have hlater : (Statement.commit, true) ∈ log := by simpa using hdone
          rw [ih h hrest hlater]
          obtain ⟨-, ⟨-, hview⟩ | ⟨-, hu⟩⟩ := store.failed hexec
          · exact hview
          · -- the transaction is gone, and no COMMIT can succeed any more
            exact absurd hlater (h.commits_closed hu hrest)

/-! ## A store -/

/-- What was done and is kept, and what was done in the open transaction. -/
structure Done (S : Type) where
  kept : List S := []
  active : Option (List S) := none
deriving DecidableEq, Repr

/-- Statements fail where they have to, and otherwise as they are told to. -/
def Done.exec (s : Done S) : Statement S → Bool → Bool × Done S
  | .begin, works =>
      match s.active with
      | none => (works, if works then { s with active := some [] } else s)
      | some _ => (false, s)
  | .commit, works =>
      match s.active with
      | none => (false, s)
      | some written => (works, ⟨if works then s.kept ++ written else s.kept, none⟩)
  | .rollback, _ =>
      match s.active with
      | none => (false, s)
      | some _ => (true, { s with active := none })
  | .run q, works =>
      if works then
        match s.active with
        | none => (true, { s with kept := s.kept ++ [q] })
        | some written => (true, { s with active := some (written ++ [q]) })
      else (false, s)

/-- The store whose contents are what was done. -/
def doing : Store (Done S) S (List S) Bool where
  exec := Done.exec
  isOpen s := s.active.isSome
  committed s := s.kept
  view s := s.kept ++ s.active.getD []
  apply q d := d ++ [q]
  view_of_closed := by
    rintro ⟨kept, _ | written⟩ h
    · exact List.append_nil kept
    · cases h
  begin_done := by
    rintro ⟨kept, _ | written⟩ (_ | _) t h <;> cases h
    exact ⟨rfl, rfl, rfl, List.append_nil kept⟩
  commit_done := by
    rintro ⟨kept, _ | written⟩ (_ | _) t h <;> cases h
    exact ⟨rfl, rfl, rfl⟩
  rollback_done := by
    rintro ⟨kept, _ | written⟩ w t h <;> cases h
    exact ⟨rfl, rfl, rfl⟩
  run_done := by
    rintro ⟨kept, _ | written⟩ q (_ | _) t h <;> cases h
    · exact ⟨rfl, by simp, fun h => by cases h⟩
    · exact ⟨rfl, (List.append_assoc _ _ _).symm, fun _ => rfl⟩
  failed := by
    rintro ⟨kept, _ | written⟩ (_ | _ | _ | q) (_ | _) t h <;> cases h
    all_goals first
      | exact ⟨rfl, Or.inl ⟨rfl, rfl⟩⟩
      | exact ⟨rfl, Or.inr ⟨rfl, rfl⟩⟩

end Store

end Harbor
