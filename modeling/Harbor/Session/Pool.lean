import Harbor.Auth.Request
import Harbor.Auth.Serve

set_option autoImplicit false

/-! # The session pool

`SessionManager::active`, the map from session ids to sessions that all protocols share. Every method
holds `active_mutex` from its lookup to its change of the map, so each is one function here. A session
is made by `CreateNewConnection`, then it has no owner, or by `CreateOwnedSession`. Of the other
methods some compare the owner and some look up by id alone.
-/

namespace Harbor.Session

open Harbor.Auth

/-- A `HarborSession` in what its construction fixes; `ref` tells the objects apart. -/
structure HarborSession where
  ref : Nat
  sessionId : Bytes
  ownerPrincipalId : Bytes := []
  deriving DecidableEq, Repr

/-- The active map, one session for an id, and the number of sessions made so far. -/
structure Pool where
  active : List HarborSession := []
  created : Nat := 0
  nodup : (active.map HarborSession.sessionId).Nodup := by decide

/-- The pool of a server that has just started. -/
def Pool.empty : Pool := {}

/-- What the methods that make a session throw. -/
inductive CreateError where
  | invalidOwner
  | sessionLimit (maxSessions : Nat)
  | idCollision (sessionId : Bytes)
  | databaseClosed
  deriving DecidableEq, Repr

/-- The text of the exception. -/
def CreateError.what : CreateError → Bytes
  | .invalidOwner => lit "CreateOwnedSession: owner_principal_id must be 64-char lowercase hex"
  | .sessionLimit maxSessions =>
      lit "harbor session limit reached (harbor_max_sessions=" ++ Bytes.decNat maxSessions ++ lit ")"
  | .idCollision sessionId => lit "HarborSession id collision for '" ++ sessionId ++ lit "'"
  | .databaseClosed => lit "Database was closed"

/-- `kDefaultMaxSessions`. -/
def kDefaultMaxSessions : Nat := 1024

/-- `ReadMaxSessionsSetting`: the setting of an open database, unless it is NULL or zero. -/
def readMaxSessions (dbOpen : Bool) (setting : Option UInt64) : Nat :=
  if dbOpen then
    match setting with
    | none => kDefaultMaxSessions
    | some v => if v = 0 then kDefaultMaxSessions else v.toNat
  else kDefaultMaxSessions

namespace Pool

/-- `active.find`. -/
def find? (pool : Pool) (sessionId : Bytes) : Option HarborSession :=
  pool.active.find? fun s => s.sessionId == sessionId

theorem mem_of_find?_eq_some {pool : Pool} {sessionId : Bytes} {s : HarborSession}
    (h : pool.find? sessionId = some s) : s ∈ pool.active ∧ s.sessionId = sessionId := by
  unfold find? at h
  exact ⟨List.mem_of_find?_eq_some h, by simpa using List.find?_some h⟩

theorem notMem_of_find?_eq_none {pool : Pool} {sessionId : Bytes} (h : pool.find? sessionId = none) :
    sessionId ∉ pool.active.map HarborSession.sessionId := by
  unfold find? at h
  intro hmem
  obtain ⟨s, hs, rfl⟩ := List.mem_map.mp hmem
  simpa using List.find?_eq_none.mp h s hs

/-- There is one session for an id. -/
theorem eq_of_mem {pool : Pool} {s t : HarborSession} (hs : s ∈ pool.active) (ht : t ∈ pool.active)
    (h : s.sessionId = t.sessionId) : s = t :=
  List.inj_on_of_nodup_map pool.nodup hs ht h

/-! ## The methods -/

/-- `active[session_id] = session` for an id that is not in the map. -/
def insert (pool : Pool) (sessionId owner : Bytes) (h : pool.find? sessionId = none) : Pool where
  active := pool.active ++ [⟨pool.created, sessionId, owner⟩]
  created := pool.created + 1
  nodup := by
    rw [List.map_append, List.nodup_append]
    refine ⟨pool.nodup, by simp, ?_⟩
    intro a ha b hb hab
    have hid : b = sessionId := by simpa using hb
    exact notMem_of_find?_eq_none h (by rw [← hid, ← hab]; exact ha)

/-- The sessions for which `keep` holds. -/
def filter (pool : Pool) (keep : HarborSession → Bool) : Pool where
  active := pool.active.filter keep
  created := pool.created
  nodup := pool.nodup.sublist ((List.filter_sublist).map HarborSession.sessionId)

/-- `CreateNewConnection`. -/
def createNewConnection (pool : Pool) (dbOpen : Bool) (sessionId : Bytes) :
    Except CreateError HarborSession × Pool :=
  match h : pool.find? sessionId with
  | some _ => (.error (.idCollision sessionId), pool)
  | none =>
      if dbOpen then (.ok ⟨pool.created, sessionId, []⟩, pool.insert sessionId [] h)
      else (.error .databaseClosed, pool)

/-- `CreateOwnedSession` from the lock on: the limit has been read, the owner has been checked. -/
def insertOwned (pool : Pool) (dbOpen : Bool) (sessionId owner : Bytes) (maxSessions : Nat) :
    Except CreateError HarborSession × Pool :=
  if maxSessions ≤ pool.active.length then (.error (.sessionLimit maxSessions), pool)
  else
    match h : pool.find? sessionId with
    | some _ => (.error (.idCollision sessionId), pool)
    | none =>
        if dbOpen then (.ok ⟨pool.created, sessionId, owner⟩, pool.insert sessionId owner h)
        else (.error .databaseClosed, pool)

/-- `GetConnection`: the id is enough. -/
def getConnection (pool : Pool) (sessionId : Bytes) : Option HarborSession := pool.find? sessionId

/-- `DisconnectConnection`, with the session that is taken out: the id is enough. -/
def disconnectConnection (pool : Pool) (sessionId : Bytes) : Option HarborSession × Pool :=
  match pool.find? sessionId with
  | none => (none, pool)
  | some s => (some s, pool.filter fun t => t.sessionId != sessionId)

/-- `LookupOwnedSession`. -/
def lookupOwnedSession (pool : Pool) (sessionId principalId : Bytes) : Option HarborSession :=
  match pool.find? sessionId with
  | none => none
  | some s => if s.ownerPrincipalId = principalId then some s else none

/-- `DestroyOwnedSession`, with the session that is taken out. -/
def destroyOwnedSession (pool : Pool) (sessionId principalId : Bytes) : Option HarborSession × Pool :=
  match pool.lookupOwnedSession sessionId principalId with
  | none => (none, pool)
  | some s => (some s, pool.filter fun t => t.sessionId != sessionId)

/-- `DestroyAllOwnedBy`, with the sessions that are taken out; nobody owns the others together. -/
def destroyAllOwnedBy (pool : Pool) (principalId : Bytes) : List HarborSession × Pool :=
  if principalId = [] then ([], pool)
  else
    (pool.active.filter fun s => s.ownerPrincipalId == principalId,
      pool.filter fun s => s.ownerPrincipalId != principalId)

/-! ## What they do -/

/-- `CreateNewConnection` adds one session without an owner, or nothing. -/
theorem createNewConnection_cases (pool : Pool) (dbOpen : Bool) (sessionId : Bytes) :
    (∃ error, pool.createNewConnection dbOpen sessionId = (.error error, pool)) ∨
    (∃ pool', pool.createNewConnection dbOpen sessionId =
        (.ok ⟨pool.created, sessionId, []⟩, pool') ∧
      pool'.active = pool.active ++ [⟨pool.created, sessionId, []⟩]) := by
  unfold createNewConnection
  split
  · exact Or.inl ⟨_, rfl⟩
  · split
    · exact Or.inr ⟨_, rfl, rfl⟩
    · exact Or.inl ⟨_, rfl⟩

/-- `CreateOwnedSession` adds one session of that owner below the limit, or nothing. -/
theorem insertOwned_cases (pool : Pool) (dbOpen : Bool) (sessionId owner : Bytes)
    (maxSessions : Nat) :
    (∃ error, error ≠ .invalidOwner ∧
      pool.insertOwned dbOpen sessionId owner maxSessions = (.error error, pool)) ∨
    (∃ pool', pool.insertOwned dbOpen sessionId owner maxSessions =
        (.ok ⟨pool.created, sessionId, owner⟩, pool') ∧
      pool'.active = pool.active ++ [⟨pool.created, sessionId, owner⟩] ∧ dbOpen = true ∧
      pool.active.length < maxSessions) := by
  unfold insertOwned
  split
  · exact Or.inl ⟨_, by simp, rfl⟩
  · rename_i hlimit
    split
    · exact Or.inl ⟨_, by simp, rfl⟩
    · split
      · rename_i hopen
        exact Or.inr ⟨_, rfl, rfl, hopen, by omega⟩
      · exact Or.inl ⟨_, by simp, rfl⟩

theorem find?_eq_some_iff {pool : Pool} {sessionId : Bytes} {s : HarborSession} :
    pool.find? sessionId = some s ↔ s ∈ pool.active ∧ s.sessionId = sessionId := by
  refine ⟨mem_of_find?_eq_some, fun ⟨hs, hid⟩ => ?_⟩
  cases hfind : pool.find? sessionId with
  | none => exact absurd (List.mem_map.mpr ⟨s, hs, hid⟩) (notMem_of_find?_eq_none hfind)
  | some t =>
      obtain ⟨ht, htid⟩ := mem_of_find?_eq_some hfind
      rw [eq_of_mem hs ht (hid.trans htid.symm)]

theorem lookupOwnedSession_eq_some {pool : Pool} {sessionId principalId : Bytes} {s : HarborSession}
    (h : pool.lookupOwnedSession sessionId principalId = some s) :
    s ∈ pool.active ∧ s.sessionId = sessionId ∧ s.ownerPrincipalId = principalId := by
  unfold lookupOwnedSession at h
  split at h
  · cases h
  · rename_i t hfind
    split at h
    · rename_i howner
      cases h
      exact ⟨(mem_of_find?_eq_some hfind).1, (mem_of_find?_eq_some hfind).2, howner⟩
    · cases h

theorem lookupOwnedSession_eq_some_iff {pool : Pool} {sessionId principalId : Bytes}
    {s : HarborSession} : pool.lookupOwnedSession sessionId principalId = some s ↔
      s ∈ pool.active ∧ s.sessionId = sessionId ∧ s.ownerPrincipalId = principalId := by
  refine ⟨lookupOwnedSession_eq_some, fun ⟨hs, hid, howner⟩ => ?_⟩
  rw [lookupOwnedSession, find?_eq_some_iff.mpr ⟨hs, hid⟩]
  exact if_pos howner

/-- `DestroyOwnedSession` takes out the session of that id and owner, and no other one. -/
theorem mem_destroyOwnedSession (pool : Pool) (sessionId principalId : Bytes) (s : HarborSession) :
    s ∈ (pool.destroyOwnedSession sessionId principalId).2.active ↔
      s ∈ pool.active ∧ ¬ (s.sessionId = sessionId ∧ s.ownerPrincipalId = principalId) := by
  unfold destroyOwnedSession
  cases hfound : pool.lookupOwnedSession sessionId principalId with
  | none =>
      refine ⟨fun hs => ⟨hs, fun ⟨hid, howner⟩ => ?_⟩, fun hs => hs.1⟩
      rw [lookupOwnedSession_eq_some_iff.mpr ⟨hs, hid, howner⟩] at hfound
      exact nomatch hfound
  | some t =>
      obtain ⟨ht, htid, htowner⟩ := lookupOwnedSession_eq_some hfound
      show s ∈ pool.active.filter _ ↔ _
      rw [List.mem_filter, bne_iff_ne]
      refine and_congr_right fun hs => not_congr ⟨fun hid => ?_, fun h => h.1⟩
      exact ⟨hid, eq_of_mem hs ht (hid.trans htid.symm) ▸ htowner⟩

theorem mem_destroyAllOwnedBy (pool : Pool) (principalId : Bytes) (s : HarborSession) :
    s ∈ (pool.destroyAllOwnedBy principalId).2.active ↔
      s ∈ pool.active ∧ (principalId = [] ∨ s.ownerPrincipalId ≠ principalId) := by
  unfold destroyAllOwnedBy
  by_cases hempty : principalId = []
  · simp [hempty]
  · simp [hempty, filter]

/-- `DisconnectConnection` takes out what `GetConnection` finds. -/
theorem disconnectConnection_fst (pool : Pool) (sessionId : Bytes) :
    (pool.disconnectConnection sessionId).1 = pool.getConnection sessionId := by
  unfold disconnectConnection getConnection
  split <;> simp_all

theorem destroyOwnedSession_fst (pool : Pool) (sessionId principalId : Bytes) :
    (pool.destroyOwnedSession sessionId principalId).1 =
      pool.lookupOwnedSession sessionId principalId := by
  unfold destroyOwnedSession
  split <;> simp_all

/-- Taking sessions out leaves a part of the map. -/
theorem disconnectConnection_subset (pool : Pool) (sessionId : Bytes) :
    (pool.disconnectConnection sessionId).2.active.Sublist pool.active := by
  unfold disconnectConnection
  split
  · exact List.Sublist.refl _
  · exact List.filter_sublist

theorem destroyOwnedSession_subset (pool : Pool) (sessionId principalId : Bytes) :
    (pool.destroyOwnedSession sessionId principalId).2.active.Sublist pool.active := by
  unfold destroyOwnedSession
  split
  · exact List.Sublist.refl _
  · exact List.filter_sublist

theorem destroyAllOwnedBy_subset (pool : Pool) (principalId : Bytes) :
    (pool.destroyAllOwnedBy principalId).2.active.Sublist pool.active := by
  unfold destroyAllOwnedBy
  split
  · exact List.Sublist.refl _
  · exact List.filter_sublist

/-- Logout takes out sessions of the caller only. -/
theorem destroyAllOwnedBy_owner {pool : Pool} {principalId : Bytes} {s : HarborSession}
    (h : s ∈ (pool.destroyAllOwnedBy principalId).1) : s.ownerPrincipalId = principalId := by
  unfold destroyAllOwnedBy at h
  split at h
  · cases h
  · simpa using (List.mem_filter.mp h).2

end Pool

end Harbor.Session
