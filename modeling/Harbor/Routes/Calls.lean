import Harbor.Lib.Prog
import Harbor.Auth.Origin
import Harbor.Session.Pool
import Harbor.Sql.Response

set_option autoImplicit false

/-! # What a route asks of the rest of the server

The handlers of the HTTP routes are programs (`Prog`) that make the calls of `Call`: of the
`AuthManager`, of the `SessionManager`, of the origin gates, and on a DuckDB connection. A call of the
session manager is one critical section of its mutex, so programs of different requests interleave
between the calls and not within one. `World` is what the calls read and change, `exec` says how they
are answered; about a connection, about the callbacks and about the environment nothing is assumed.
-/

namespace Harbor.Routes

open Harbor.Auth Harbor.Session

/-- The connection a request uses. -/
inductive Conn where
  | session (session : HarborSession)
  /-- A fresh one for one request to `/sql`. -/
  | ephemeral
  /-- One of the pool of the UI, by its principal-scoped key. -/
  | ui (connectionName : Bytes)
  /-- A fresh one for a query of the server's own. -/
  | own
  deriving DecidableEq, Repr

/-- `StatementType`, as far as the handlers look at it. -/
inductive StatementType where
  | select
  | insert
  | update
  | delete
  | other
  deriving DecidableEq, Repr

/-- A parsed statement. -/
structure SqlStatement where
  type : StatementType
  /-- The `returning_list` of a DML statement is not empty. -/
  hasReturning : Bool
  deriving DecidableEq, Repr

/-- The result of a query: how many times the handler calls `Fetch` on it before it stops. -/
structure QueryResult where
  names : List Bytes
  fetches : Nat
  deriving DecidableEq, Repr

/-- The calls a handler makes. A SQL text is a parameter of the calls that hand it, or a statement of it,
to a connection. -/
inductive Call where
  | authenticateRequest (headers : Headers) (syntheticSessionId : Bytes)
  | runAuthentication (sessionId clientToken : Bytes)
  | runAuthorization (sessionId query : Bytes)
  | hasAllowedBrowserOrigin (headers : Headers)
  | hasAllowedBrowserOriginIfCookie (headers : Headers) (source : AuthSource)
  | isAllowedOrigin (origin : Bytes)
  /-- The setting `harbor_max_request_body_bytes`; `none` when it is NULL or the database closed. -/
  | maxRequestBodySetting
  /-- `db.lock()`. -/
  | lockDatabase
  | generateSessionId
  | readMaxSessions
  | createNewConnection (sessionId : Bytes)
  | insertOwned (sessionId owner : Bytes) (maxSessions : Nat)
  | getConnection (sessionId : Bytes)
  | disconnectConnection (sessionId : Bytes)
  | lookupOwnedSession (sessionId principalId : Bytes)
  | destroyOwnedSession (sessionId principalId : Bytes)
  | destroyAllOwnedBy (principalId : Bytes)
  | interruptSession (sessionId : Bytes)
  | snapshot
  /-- `std::unique_lock(session->lock, std::try_to_lock)`. -/
  | tryLock (session : HarborSession)
  | lock (session : HarborSession)
  /-- `ExtractStatements`, which parses only. -/
  | extractStatements (conn : Conn) (sql : Bytes)
  | prepare (conn : Conn) (sql : Bytes)
  | expectedParameterTypes (conn : Conn)
  | decodeParameters (conn : Conn) (paramsJson : Bytes) (types : List LogicalType)
  | execute (conn : Conn) (sql : Bytes)
  /-- `PendingQuery` of the statement at that place of the text, run to its end. -/
  | runStatement (conn : Conn) (sql : Bytes) (index : Nat)
  | sendQuery (conn : Conn) (sql : Bytes)
  /-- What a FETCH finds on the session for that result: "closed", an error, or the result. -/
  | currentResult (session : HarborSession) (uuid : Nat)
  | fetch (conn : Conn)
  | append (conn : Conn) (schemaName tableName : Bytes)
  /-- A text the server has written itself. -/
  | ownQuery (sql : Bytes)
  | queryTimedOut
  deriving DecidableEq

/-- The type of the answer. Where the source returns whether or how many sessions it took out of the
map, the sessions stand here. -/
@[reducible] def Answer : Call → Type
  | .authenticateRequest _ _ => AuthResult
  | .runAuthentication _ _ => Bool
  | .runAuthorization _ _ => Bool
  | .hasAllowedBrowserOrigin _ => Bool
  | .hasAllowedBrowserOriginIfCookie _ _ => Bool
  | .isAllowedOrigin _ => Bool
  | .maxRequestBodySetting => Option UInt64
  | .lockDatabase => Bool
  | .generateSessionId => Option Bytes
  | .readMaxSessions => Nat
  | .createNewConnection _ => Except CreateError HarborSession
  | .insertOwned _ _ _ => Except CreateError HarborSession
  | .getConnection _ => Option HarborSession
  | .disconnectConnection _ => Option HarborSession
  | .lookupOwnedSession _ _ => Option HarborSession
  | .destroyOwnedSession _ _ => Option HarborSession
  | .destroyAllOwnedBy _ => List HarborSession
  | .interruptSession _ => Bool
  | .snapshot => List HarborSession
  | .tryLock _ => Bool
  | .lock _ => Unit
  | .extractStatements _ _ => Except Bytes (List SqlStatement)
  | .prepare _ _ => Except Bytes Unit
  | .expectedParameterTypes _ => Except Bytes (List LogicalType)
  | .decodeParameters _ _ _ => Except Bytes Unit
  | .execute _ _ => Except Bytes QueryResult
  | .runStatement _ _ _ => Except Bytes QueryResult
  | .sendQuery _ _ => Except Bytes QueryResult
  | .currentResult _ _ => Except Bytes QueryResult
  | .fetch _ => Except Bytes Unit
  | .append _ _ _ => Except Bytes Unit
  | .ownQuery _ => Except Bytes QueryResult
  | .queryTimedOut => Bool

/-- What a request is answered with. -/
inductive Reply where
  | http (response : HttpResponse)
  /-- A 200 whose body is made from the result. -/
  | success
  | uiStatus (status : Nat)
  | uiError (message : Bytes)
  | quackError (message : Bytes)
  | quackConnection (sessionId : Bytes)
  /-- What the last uncaught exception of a handler comes to. -/
  | exception
  deriving DecidableEq

abbrev Handler (α : Type) := Prog Call Answer α

abbrev Past := History Answer

abbrev perform (call : Call) : Handler (Answer call) := Prog.perform call

/-! ## The world -/

/-- What the calls read and change. -/
structure World where
  crypto : Crypto
  auth : AuthManager
  origins : Origins
  db : Option Database
  maxSessionsSetting : Option UInt64
  maxRequestBodySetting : Option UInt64
  signingKey : Bytes
  pool : Pool

/-- The `DatabaseInstance` is there. -/
def World.dbOpen (w : World) : Bool := w.db.isSome

/-- A session id as `GenerateSessionId` makes it. -/
def GeneratedId (sessionId : Bytes) : Prop :=
  ∃ bytes : Vector UInt8 16, sessionId = hexEncode bytes.toList

/-- How the world answers a call, and the world after it. -/
def exec (w : World) : Event Answer → World → Prop
  | ⟨.authenticateRequest headers syntheticSessionId, result⟩, w' =>
      ∃ random now signingKey,
        result = w.auth.authenticateRequest
          { crypto := w.crypto, db := w.db, signingKey := w.signingKey, random, now }
          headers syntheticSessionId ∧
        (w.signingKey ≠ [] → signingKey = w.signingKey) ∧ w' = { w with signingKey }
  | ⟨.runAuthentication sessionId clientToken, accepted⟩, w' =>
      accepted = w.auth.runAuthentication w.db sessionId clientToken ∧ w' = w
  | ⟨.runAuthorization sessionId query, allowed⟩, w' =>
      allowed = w.auth.runAuthorization w.db sessionId query ∧ w' = w
  | ⟨.hasAllowedBrowserOrigin headers, allowed⟩, w' =>
      allowed = w.origins.hasAllowedBrowserOrigin headers ∧ w' = w
  | ⟨.hasAllowedBrowserOriginIfCookie headers source, allowed⟩, w' =>
      allowed = w.origins.hasAllowedBrowserOriginIfCookie headers source ∧ w' = w
  | ⟨.isAllowedOrigin origin, allowed⟩, w' => allowed = w.origins.isAllowedOrigin origin ∧ w' = w
  | ⟨.maxRequestBodySetting, setting⟩, w' =>
      setting = (if w.dbOpen then w.maxRequestBodySetting else none) ∧ w' = w
  | ⟨.lockDatabase, isOpen⟩, w' => isOpen = w.dbOpen ∧ w' = w
  -- The generator does not fail; there is none without a database.
  | ⟨.generateSessionId, sessionId⟩, w' =>
      (∀ id ∈ sessionId, GeneratedId id) ∧ (sessionId = none → w.db = none) ∧ w' = w
  | ⟨.readMaxSessions, maxSessions⟩, w' =>
      maxSessions = Session.readMaxSessions w.dbOpen w.maxSessionsSetting ∧ w' = w
  | ⟨.createNewConnection sessionId, created⟩, w' =>
      ∃ pool, w.pool.createNewConnection w.dbOpen sessionId = (created, pool) ∧ w' = { w with pool }
  | ⟨.insertOwned sessionId owner maxSessions, created⟩, w' =>
      ∃ pool, w.pool.insertOwned w.dbOpen sessionId owner maxSessions = (created, pool) ∧
        w' = { w with pool }
  | ⟨.getConnection sessionId, found⟩, w' => found = w.pool.getConnection sessionId ∧ w' = w
  | ⟨.disconnectConnection sessionId, removed⟩, w' =>
      ∃ pool, w.pool.disconnectConnection sessionId = (removed, pool) ∧ w' = { w with pool }
  | ⟨.lookupOwnedSession sessionId principalId, found⟩, w' =>
      found = w.pool.lookupOwnedSession sessionId principalId ∧ w' = w
  | ⟨.destroyOwnedSession sessionId principalId, removed⟩, w' =>
      ∃ pool, w.pool.destroyOwnedSession sessionId principalId = (removed, pool) ∧
        w' = { w with pool }
  | ⟨.destroyAllOwnedBy principalId, removed⟩, w' =>
      ∃ pool, w.pool.destroyAllOwnedBy principalId = (removed, pool) ∧ w' = { w with pool }
  | ⟨.interruptSession sessionId, found⟩, w' => found = (w.pool.find? sessionId).isSome ∧ w' = w
  | ⟨.snapshot, sessions⟩, w' => sessions = w.pool.active ∧ w' = w
  -- The locks of the sessions and the connections answer whatever they like.
  | _, w' => w' = w

/-- What happens besides the requests: settings and callbacks change, and the database is closed, for
good. -/
def env (w w' : World) : Prop :=
  (w.db = none → w'.db = none) ∧
  w' = { w with
    db := w'.db
    maxSessionsSetting := w'.maxSessionsSetting
    maxRequestBodySetting := w'.maxRequestBodySetting }

/-! ## What an answer says by itself -/

/-- What holds of an answer in every world. -/
def Legal : Event Answer → Prop
  | ⟨.generateSessionId, sessionId⟩ => ∀ id ∈ sessionId, GeneratedId id
  | ⟨.createNewConnection sessionId, created⟩ =>
      ∀ s, created = .ok s → s.sessionId = sessionId ∧ s.ownerPrincipalId = []
  | ⟨.insertOwned sessionId owner _, created⟩ =>
      (∀ s, created = .ok s → s.sessionId = sessionId ∧ s.ownerPrincipalId = owner) ∧
        created ≠ .error .invalidOwner
  | ⟨.lookupOwnedSession sessionId principalId, found⟩ =>
      ∀ s ∈ found, s.sessionId = sessionId ∧ s.ownerPrincipalId = principalId
  | ⟨.destroyOwnedSession sessionId principalId, removed⟩ =>
      ∀ s ∈ removed, s.sessionId = sessionId ∧ s.ownerPrincipalId = principalId
  | ⟨.destroyAllOwnedBy principalId, removed⟩ => ∀ s ∈ removed, s.ownerPrincipalId = principalId
  | _ => True

/-- The world gives legal answers. -/
theorem legal_of_exec (w : World) (ev : Event Answer) (w' : World) (h : exec w ev w') : Legal ev := by
  obtain ⟨call, answer⟩ := ev
  cases call with
  | generateSessionId => exact h.1
  | createNewConnection sessionId =>
      obtain ⟨pool, heq, -⟩ := h
      obtain ⟨error, hcreate⟩ | ⟨pool', hcreate, -⟩ :=
        w.pool.createNewConnection_cases w.dbOpen sessionId
      · intro s hs
        rw [heq, hs] at hcreate
        cases hcreate
      · intro s hs
        rw [heq, hs] at hcreate
        cases hcreate
        exact ⟨rfl, rfl⟩
  | insertOwned sessionId owner maxSessions =>
      obtain ⟨pool, heq, -⟩ := h
      obtain ⟨error, hne, hcreate⟩ | ⟨pool', hcreate, -⟩ :=
        w.pool.insertOwned_cases w.dbOpen sessionId owner maxSessions
      · rw [heq] at hcreate
        cases hcreate
        refine ⟨?_, ?_⟩
        · intro s hs
          cases hs
        · intro herror
          cases herror
          exact hne rfl
      · rw [heq] at hcreate
        cases hcreate
        refine ⟨?_, ?_⟩
        · intro s hs
          cases hs
          exact ⟨rfl, rfl⟩
        · intro herror
          cases herror
  | lookupOwnedSession sessionId principalId =>
      intro s hs
      exact (Pool.lookupOwnedSession_eq_some (h.1 ▸ hs)).2
  | destroyOwnedSession sessionId principalId =>
      obtain ⟨pool, heq, -⟩ := h
      have hfst := w.pool.destroyOwnedSession_fst sessionId principalId
      rw [heq] at hfst
      intro s hs
      have hs' : answer = some s := hs
      exact (Pool.lookupOwnedSession_eq_some (hfst.symm.trans hs')).2
  | destroyAllOwnedBy principalId =>
      obtain ⟨pool, heq, -⟩ := h
      intro s hs
      have hmem : s ∈ (w.pool.destroyAllOwnedBy principalId).1 := by
        rw [heq]
        exact hs
      exact Pool.destroyAllOwnedBy_owner hmem
  | _ => trivial

/-! ## What a call changes -/

/-- A call makes a session without an owner, or one of the caller's below the limit it has read, or it
leaves a part of the map. -/
theorem pool_of_exec {w w' : World} {ev : Event Answer} (h : exec w ev w') :
    w'.pool.active.Sublist w.pool.active ∨
    (∃ sessionId s, ev.1 = .createNewConnection sessionId ∧ s.sessionId = sessionId ∧
      w'.pool.active = w.pool.active ++ [s]) ∨
    (∃ sessionId owner maxSessions s, ev.1 = .insertOwned sessionId owner maxSessions ∧
      s.sessionId = sessionId ∧ w'.pool.active = w.pool.active ++ [s] ∧ w.dbOpen = true ∧
      w.pool.active.length < maxSessions) := by
  obtain ⟨call, answer⟩ := ev
  cases call with
  | createNewConnection sessionId =>
      obtain ⟨pool, heq, rfl⟩ := h
      obtain ⟨error, hcreate⟩ | ⟨pool', hcreate, hactive⟩ :=
        w.pool.createNewConnection_cases w.dbOpen sessionId
      · rw [hcreate] at heq
        cases heq
        exact Or.inl (List.Sublist.refl _)
      · rw [hcreate] at heq
        cases heq
        exact Or.inr (Or.inl ⟨sessionId, _, rfl, rfl, hactive⟩)
  | insertOwned sessionId owner maxSessions =>
      obtain ⟨pool, heq, rfl⟩ := h
      obtain ⟨error, -, hcreate⟩ | ⟨pool', hcreate, hactive, hopen, hlimit⟩ :=
        w.pool.insertOwned_cases w.dbOpen sessionId owner maxSessions
      · rw [hcreate] at heq
        cases heq
        exact Or.inl (List.Sublist.refl _)
      · rw [hcreate] at heq
        cases heq
        exact Or.inr (Or.inr ⟨sessionId, owner, maxSessions, _, rfl, rfl, hactive, hopen, hlimit⟩)
  | disconnectConnection sessionId =>
      obtain ⟨pool, heq, rfl⟩ := h
      have hsub := w.pool.disconnectConnection_subset sessionId
      rw [heq] at hsub
      exact Or.inl hsub
  | destroyOwnedSession sessionId principalId =>
      obtain ⟨pool, heq, rfl⟩ := h
      have hsub := w.pool.destroyOwnedSession_subset sessionId principalId
      rw [heq] at hsub
      exact Or.inl hsub
  | destroyAllOwnedBy principalId =>
      obtain ⟨pool, heq, rfl⟩ := h
      have hsub := w.pool.destroyAllOwnedBy_subset principalId
      rw [heq] at hsub
      exact Or.inl hsub
  | authenticateRequest headers syntheticSessionId =>
      obtain ⟨random, now, signingKey, -, -, rfl⟩ := h
      exact Or.inl (List.Sublist.refl _)
  -- the other calls leave the world as it is
  | _ =>
      have hsame : w' = w := by
        first
          | exact h.2.2
          | exact h.2
          | exact h
      exact Or.inl (hsame ▸ List.Sublist.refl _)

/-- The calls that can change the map. -/
def Call.changesPool : Call → Bool
  | .createNewConnection _ | .insertOwned _ _ _ | .disconnectConnection _ | .destroyOwnedSession _ _
  | .destroyAllOwnedBy _ => true
  | _ => false

theorem samePool_of_exec {w w' : World} {ev : Event Answer} (h : exec w ev w')
    (hcall : ev.1.changesPool = false) : w'.pool = w.pool := by
  obtain ⟨call, answer⟩ := ev
  cases call with
  | createNewConnection sessionId => cases hcall
  | insertOwned sessionId owner maxSessions => cases hcall
  | disconnectConnection sessionId => cases hcall
  | destroyOwnedSession sessionId principalId => cases hcall
  | destroyAllOwnedBy principalId => cases hcall
  | authenticateRequest headers syntheticSessionId =>
      obtain ⟨random, now, signingKey, -, -, rfl⟩ := h
      rfl
  | _ =>
      have hsame : w' = w := by
        first
          | exact h.2.2
          | exact h.2
          | exact h
      exact hsame ▸ rfl

/-- No call changes the settings or closes the database. -/
theorem settings_of_exec {w w' : World} {ev : Event Answer} (h : exec w ev w') :
    w'.auth = w.auth ∧ w'.db = w.db ∧ w'.maxSessionsSetting = w.maxSessionsSetting := by
  obtain ⟨call, answer⟩ := ev
  cases call with
  | createNewConnection sessionId =>
      obtain ⟨pool, -, rfl⟩ := h
      exact ⟨rfl, rfl, rfl⟩
  | insertOwned sessionId owner maxSessions =>
      obtain ⟨pool, -, rfl⟩ := h
      exact ⟨rfl, rfl, rfl⟩
  | disconnectConnection sessionId =>
      obtain ⟨pool, -, rfl⟩ := h
      exact ⟨rfl, rfl, rfl⟩
  | destroyOwnedSession sessionId principalId =>
      obtain ⟨pool, -, rfl⟩ := h
      exact ⟨rfl, rfl, rfl⟩
  | destroyAllOwnedBy principalId =>
      obtain ⟨pool, -, rfl⟩ := h
      exact ⟨rfl, rfl, rfl⟩
  | authenticateRequest headers syntheticSessionId =>
      obtain ⟨random, now, signingKey, -, -, rfl⟩ := h
      exact ⟨rfl, rfl, rfl⟩
  | _ =>
      have hsame : w' = w := by
        first
          | exact h.2.2
          | exact h.2
          | exact h
      exact hsame ▸ ⟨rfl, rfl, rfl⟩

end Harbor.Routes
