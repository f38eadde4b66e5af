import Harbor.Session.Manager

set_option autoImplicit false

/-! # The pool of a manager

The routes use the sessions as a `Pool`: what a session keeps for its whole life, without the fields that
handlers write while they run a query. `Represents` says that a pool is the one of a manager; every call
keeps it (`represents_call`), so what is proved about the pool holds of `SessionManager`.
-/

namespace Harbor.Session

open Harbor.Auth

namespace Pool

/-! ## Finding in a pool that has changed -/

theorem find?_insert (pool : Pool) {sessionId : Bytes} (owner : Bytes) (h : pool.find? sessionId = none)
    (id : Bytes) : (pool.insert sessionId owner h).find? id =
      if id = sessionId then some ⟨pool.created, sessionId, owner⟩ else pool.find? id := by
  rw [find?, insert, List.find?_append, ← find?]
  by_cases hid : id = sessionId
  · rw [hid, h, if_pos rfl]
    simp
  · rw [if_neg hid, List.find?_cons_of_neg (by simpa using Ne.symm hid)]
    simp

theorem find?_filter (pool : Pool) (keep : HarborSession → Bool) (id : Bytes) :
    (pool.filter keep).find? id = (pool.find? id).filter keep := by
  apply Option.ext
  intro s
  rw [find?_eq_some_iff, filter, List.mem_filter, Option.filter_eq_some_iff, find?_eq_some_iff]
  tauto

end Pool

namespace SessionManager

variable {m : SessionManager} {pool : Pool}

/-- What does not change about the session of a `shared_ptr`. -/
def sessionAt (m : SessionManager) (id : Bytes) (ref : Nat) : HarborSession :=
  ⟨ref, id, (m.object ref).ownerPrincipalId⟩

theorem sessionAt_eq {m' : SessionManager}
    (hfix : m.objects.map SessionObject.identity <+: m'.objects.map SessionObject.identity) {ref : Nat}
    (href : ref < m.objects.length) (id : Bytes) : m'.sessionAt id ref = m.sessionAt id ref :=
  congrArg (fun i : Bytes × Bytes => HarborSession.mk ref id i.2) (object_identity hfix href).2

structure Represents (m : SessionManager) (pool : Pool) : Prop where
  created : pool.created = m.objects.length
  find : ∀ id, pool.find? id = (m.active.lookup id).map (m.sessionAt id)

theorem represents_empty : Represents {} .empty := ⟨rfl, fun _ => rfl⟩

/-- There are as many sessions in the pool as entries. -/
theorem Represents.length_eq (h : m.Represents pool) : pool.active.length = m.active.entries.length := by
  have hperm : (pool.active.map HarborSession.sessionId).Perm (m.active.entries.map Sigma.fst) := by
    refine (List.perm_ext_iff_of_nodup pool.nodup m.active.nodupKeys).mpr fun id => ?_
    have hfind : (pool.find? id).isSome = (m.active.lookup id).isSome := by rw [h.find, Option.isSome_map]
    change id ∈ _ ↔ id ∈ m.active.entries.map Sigma.fst
    rw [List.mem_map, List.mem_map]
    constructor
    · rintro ⟨s, hs, rfl⟩
      rw [Pool.find?_eq_some_iff.mpr ⟨hs, rfl⟩] at hfind
      obtain ⟨ref, href⟩ := Option.isSome_iff_exists.mp hfind.symm
      exact ⟨⟨_, ref⟩, (OwnedMap.mem_entries_iff _ _ _).mpr href, rfl⟩
    · rintro ⟨⟨id, ref⟩, hmem, rfl⟩
      rw [(OwnedMap.mem_entries_iff _ _ _).mp hmem] at hfind
      obtain ⟨s, hs⟩ := Option.isSome_iff_exists.mp hfind
      exact ⟨s, Pool.find?_eq_some_iff.mp hs⟩
  simpa using hperm.length_eq

/-! ## What the calls find -/

theorem Represents.getConnection (h : m.Represents pool) (id : Bytes) :
    pool.getConnection id = (m.getConnection id).map (m.sessionAt id) := h.find id

theorem Represents.lookupOwnedSession (h : m.Represents pool) (id principalId : Bytes) :
    pool.lookupOwnedSession id principalId =
      (m.lookupOwnedSession id principalId).map (m.sessionAt id) := by
  rw [Pool.lookupOwnedSession, SessionManager.lookupOwnedSession, h.find]
  cases m.active.lookup id with
  | none => rfl
  | some ref =>
      dsimp only [Option.map_some, sessionAt]
      by_cases howner : (m.object ref).ownerPrincipalId = principalId
      · rw [if_pos howner, if_neg (not_not.mpr howner)]
        rfl
      · rw [if_neg howner, if_pos howner]
        rfl

/-! ## What the calls change -/

/-- Entries are erased, and the objects stay. -/
theorem Represents.of_filter (h : m.Represents pool) (keep : HarborSession → Bool)
    {active : AList fun _ : Bytes => Nat}
    (hactive : ∀ id, active.lookup id =
      (m.active.lookup id).filter fun ref => keep (m.sessionAt id ref)) :
    Represents { m with active } (pool.filter keep) where
  created := h.created
  find id := by
    rw [Pool.find?_filter, h.find, hactive]
    cases m.active.lookup id with
    | none => rfl
    | some ref =>
        rw [Option.map_some, Option.filter_some, Option.filter_some]
        split_ifs <;> rfl

theorem Represents.erase (h : m.Represents pool) (id : Bytes) :
    Represents { m with active := m.active.erase id } (pool.filter fun s => s.sessionId != id) := by
  apply h.of_filter
  intro id'
  by_cases hid : id' = id
  · rw [hid, AList.lookup_erase]
    cases m.active.lookup id <;> simp [sessionAt, Option.filter]
  · rw [AList.lookup_erase_ne hid]
    cases m.active.lookup id' <;> simp [sessionAt, hid, Option.filter]

/-- Objects are written, but not what a session keeps. -/
theorem Represents.write (h : m.Represents pool) (hw : m.WellKept) (ref : Nat)
    {f : SessionObject → SessionObject} (hf : ∀ s, (f s).identity = s.identity) :
    Represents (m.write ref f) pool where
  created := by rw [h.created, SessionManager.write, List.length_modify]
  find id := by
    rw [h.find]
    show (m.active.lookup id).map (m.sessionAt id) = (m.active.lookup id).map ((m.write ref f).sessionAt id)
    cases hlookup : m.active.lookup id with
    | none => rfl
    | some ref' =>
        have hfix : m.objects.map SessionObject.identity <+:
            (m.write ref f).objects.map SessionObject.identity := by
          rw [SessionManager.write, map_identity_modify m.objects ref hf]
        rw [Option.map_some, Option.map_some, sessionAt_eq hfix (hw id ref' hlookup).1]

theorem Represents.added (h : m.Represents pool) (hw : m.WellKept) (now : Nat) {id : Bytes} (owner : Bytes)
    (hfree : pool.find? id = none) : Represents (m.added now id owner) (pool.insert id owner hfree) where
  created := by simp [SessionManager.added, Pool.insert, h.created]
  find id' := by
    rw [Pool.find?_insert]
    by_cases hid : id' = id
    · rw [if_pos hid, hid, SessionManager.added, AList.lookup_insert, h.created]
      simp [sessionAt, object]
    · rw [if_neg hid, h.find]
      have hlookup : (m.added now id owner).active.lookup id' = m.active.lookup id' :=
        AList.lookup_insert_ne hid
      rw [hlookup]
      cases hold : m.active.lookup id' with
      | none => rfl
      | some ref =>
          have hfix : m.objects.map SessionObject.identity <+:
              (m.added now id owner).objects.map SessionObject.identity := by
            rw [SessionManager.added, List.map_append]
            exact List.prefix_append _ _
          rw [Option.map_some, Option.map_some, sessionAt_eq hfix (hw id' ref hold).1]

/-- The result of a creation: a failed connection is a closed database to the pool. -/
def CreatedAs : Except Thrown Bytes → Except CreateError HarborSession → Prop
  | .ok id, .ok s => s.sessionId = id
  | .error (.create error), .error error' => error' = error
  | .error (.connection _), .error error' => error' = .databaseClosed
  | _, _ => False

theorem Represents.construct (h : m.Represents pool) (hw : m.WellKept) (env : Env) {id : Bytes}
    (owner : Bytes) (hfree : pool.find? id = none) :
    CreatedAs (m.construct env id owner).1
        (if env.connects then .ok ⟨pool.created, id, owner⟩ else .error .databaseClosed) ∧
      Represents (m.construct env id owner).2
        (if env.connects then pool.insert id owner hfree else pool) := by
  rw [SessionManager.construct]
  cases hopen : env.dbOpen with
  | false => simpa [Env.connects, hopen, CreatedAs] using h
  | true =>
      cases hthrows : env.connectionThrows with
      | some what => simpa [Env.connects, hopen, hthrows, CreatedAs] using h
      | none => simpa [Env.connects, hopen, hthrows, CreatedAs] using h.added hw env.now owner hfree

theorem Represents.createNewConnection (h : m.Represents pool) (hw : m.WellKept) (env : Env) (id : Bytes) :
    CreatedAs (m.createNewConnection env id).1 (pool.createNewConnection env.connects id).1 ∧
      Represents (m.createNewConnection env id).2 (pool.createNewConnection env.connects id).2 := by
  have hsome : (pool.find? id).isSome = (m.active.lookup id).isSome := by rw [h.find, Option.isSome_map]
  rw [SessionManager.createNewConnection, Pool.createNewConnection]
  by_cases hid : (m.active.lookup id).isSome = true
  · rw [if_pos hid]
    split
    · exact ⟨rfl, h⟩
    · rename_i hfree
      simp [hfree, hid] at hsome
  rw [if_neg hid]
  split
  · rename_i s hs
    simp [hs, hid] at hsome
  · rename_i hfree
    have hconstruct := h.construct hw env [] hfree
    cases hconnects : env.connects with
    | true => simpa [hconnects] using hconstruct
    | false => simpa [hconnects] using hconstruct

/-- The pool has the part of the method behind the check of the owner. -/
theorem Represents.createOwnedSession (h : m.Represents pool) (hw : m.WellKept) (env : Env) (id : Bytes)
    {owner : Bytes} (howner : isValidPrincipalHex owner = true) :
    let maxSessions := readMaxSessions env.settingOpen env.maxSessionsSetting
    CreatedAs (m.createOwnedSession env id owner).1
        (pool.insertOwned env.connects id owner maxSessions).1 ∧
      Represents (m.createOwnedSession env id owner).2
        (pool.insertOwned env.connects id owner maxSessions).2 := by
  intro maxSessions
  have hsome : (pool.find? id).isSome = (m.active.lookup id).isSome := by rw [h.find, Option.isSome_map]
  rw [SessionManager.createOwnedSession, if_neg (by simp [howner]), Pool.insertOwned, h.length_eq]
  dsimp only
  by_cases hfull : maxSessions ≤ m.active.entries.length
  · rw [if_pos hfull, if_pos hfull]
    exact ⟨rfl, h⟩
  rw [if_neg hfull, if_neg hfull]
  by_cases hid : (m.active.lookup id).isSome = true
  · rw [if_pos hid]
    split
    · exact ⟨rfl, h⟩
    · rename_i hfree
      simp [hfree, hid] at hsome
  rw [if_neg hid]
  split
  · rename_i s hs
    simp [hs, hid] at hsome
  · rename_i hfree
    have hconstruct := h.construct hw env owner hfree
    cases hconnects : env.connects with
    | true => simpa [hconnects] using hconstruct
    | false => simpa [hconnects] using hconstruct

theorem Represents.disconnectConnection (h : m.Represents pool) (id : Bytes) :
    (pool.disconnectConnection id).1.isSome = (m.disconnectConnection id).1 ∧
      Represents (m.disconnectConnection id).2 (pool.disconnectConnection id).2 := by
  have hfind := h.find id
  rw [SessionManager.disconnectConnection, Pool.disconnectConnection]
  cases hlookup : m.active.lookup id with
  | none =>
      rw [hfind, hlookup]
      exact ⟨rfl, h⟩
  | some ref =>
      rw [hfind, hlookup]
      exact ⟨rfl, h.erase id⟩

theorem Represents.destroyOwnedSession (h : m.Represents pool) (id principalId : Bytes) :
    (pool.destroyOwnedSession id principalId).1.isSome = (m.destroyOwnedSession id principalId).1 ∧
      Represents (m.destroyOwnedSession id principalId).2 (pool.destroyOwnedSession id principalId).2 := by
  rw [SessionManager.destroyOwnedSession, Pool.destroyOwnedSession, h.lookupOwnedSession,
    SessionManager.lookupOwnedSession]
  cases m.active.lookup id with
  | none => exact ⟨rfl, h⟩
  | some ref =>
      dsimp only
      split_ifs
      · exact ⟨rfl, h⟩
      · exact ⟨rfl, h.erase id⟩

theorem Represents.destroyAllOwnedBy (h : m.Represents pool) (principalId : Bytes) :
    Represents (m.destroyAllOwnedBy principalId).2 (pool.destroyAllOwnedBy principalId).2 := by
  rw [SessionManager.destroyAllOwnedBy, Pool.destroyAllOwnedBy]
  split_ifs with hempty
  · exact h
  · apply h.of_filter
    intro id
    rw [(destroyLoop_eq principalId m.active.entries m.active 0).2]
    cases hlookup : m.active.lookup id with
    | none => simp
    | some ref =>
        have hiff : (∃ e ∈ m.active.entries, e.1 = id ∧ (m.object e.2).ownerPrincipalId = principalId) ↔
            (m.object ref).ownerPrincipalId = principalId := by
          constructor
          · rintro ⟨⟨id', ref'⟩, hmem, rfl, howner⟩
            rw [(OwnedMap.mem_entries_iff _ _ _).mp hmem, Option.some.injEq] at hlookup
            exact hlookup ▸ howner
          · exact fun howner => ⟨⟨id, ref⟩, (OwnedMap.mem_entries_iff _ _ _).mpr hlookup, rfl, howner⟩
        simp only [hiff, Option.filter_some, sessionAt]
        split_ifs <;> simp_all

/-! ## Runs -/

/-- A call of a method on the pool. -/
def poolCall (env : Env) (pool : Pool) : Call → Pool
  | .createNewConnection sessionId => (pool.createNewConnection env.connects sessionId).2
  | .createOwnedSession sessionId owner =>
      if isValidPrincipalHex owner = false then pool
      else (pool.insertOwned env.connects sessionId owner
        (readMaxSessions env.settingOpen env.maxSessionsSetting)).2
  | .disconnectConnection sessionId => (pool.disconnectConnection sessionId).2
  | .destroyOwnedSession sessionId principalId => (pool.destroyOwnedSession sessionId principalId).2
  | .destroyAllOwnedBy principalId => (pool.destroyAllOwnedBy principalId).2
  | _ => pool

/-- **Every call keeps the two together.** -/
theorem represents_call (h : m.Represents pool) (hw : m.WellKept) (env : Env) (c : Call) :
    Represents (m.call env c).2 (poolCall env pool c) := by
  cases c with
  | createNewConnection id => exact (h.createNewConnection hw env id).2
  | createOwnedSession id owner =>
      cases howner : isValidPrincipalHex owner with
      | true =>
          rw [poolCall, if_neg (by simp [howner])]
          exact (h.createOwnedSession hw env id howner).2
      | false => simpa [poolCall, call, SessionManager.createOwnedSession, howner] using h
  | getConnection id => exact h
  | disconnectConnection id => exact (h.disconnectConnection id).2
  | lookupOwnedSession id p => exact h
  | destroyOwnedSession id p => exact (h.destroyOwnedSession id p).2
  | destroyAllOwnedBy p => exact h.destroyAllOwnedBy p
  | interruptSession id cause =>
      show Represents (m.interruptSession id cause).2 pool
      rw [interruptSession]
      split
      · exact h
      · exact h.write hw _ fun _ => rfl
  | snapshot n => exact h
  | runQuery ref lastQuery queryInFlight => exact h.write hw ref fun _ => rfl

/-- **The manager and the pool stay together in every run**, so what the routes find in the pool is what
`SessionManager` has. -/
theorem represents_run (calls : List (Env × Call)) :
    Represents (run {} calls) (calls.foldl (fun pool c => poolCall c.1 pool c.2) .empty) := by
  have hall : ∀ (calls : List (Env × Call)) (m : SessionManager) (pool : Pool), m.WellKept →
      m.Represents pool → Represents (run m calls) (calls.foldl (fun pool c => poolCall c.1 pool c.2) pool) := by
    intro calls
    induction calls with
    | nil => exact fun _ _ _ h => h
    | cons c calls ih =>
        exact fun m pool hw h => ih _ _ (call_wellKept hw c.1 c.2) (represents_call h hw c.1 c.2)
  exact hall calls {} .empty empty_wellKept represents_empty

end SessionManager

end Harbor.Session
