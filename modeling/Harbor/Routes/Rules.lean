import Harbor.Routes.Admin
import Harbor.Routes.Quack

set_option autoImplicit false

/-! # What every route keeps to

`Ok` collects what can be said of a call by the calls the same request has made before it: which text
was authorized, who the caller is, how a session was found, whether the origin gate was passed.
`wp_handler` proves it of every handler once, by going through its program; everything that is claimed
about the routes follows from it, and no handler is looked at again.
-/

namespace Harbor.Routes

open Harbor.Auth Harbor.Session Prog

/-! ## The routes -/

/-- A request by the route it is sent to. -/
inductive RoutedRequest where
  | sql (req : Request)
  | sessionNew (req : Request)
  | sessionDelete (req : Request)
  | sqlCancel (req : Request)
  | logout (req : Request)
  | whoami (req : Request)
  | tables (req : Request)
  | schema (req : Request)
  | sessions (req : Request)
  | checkpoint (req : Request)
  | interrupt (req : Request)
  | quack (req : QuackRequest)
  | uiRun (req : Request)
  deriving DecidableEq, Repr

/-- The handler a request is given to. -/
def handler (deps : Deps) : RoutedRequest → Handler Reply
  | .sql req => Sql.handleSql deps req
  | .sessionNew req => Sql.handleSessionNew req
  | .sessionDelete req => Sql.handleSessionDelete req
  | .sqlCancel req => Sql.handleSqlCancel req
  | .logout req => Admin.handleLogout req
  | .whoami req => Admin.handleWhoami req
  | .tables req => Admin.handleTables req
  | .schema req => Admin.handleSchema req
  | .sessions req => Admin.handleSessions req
  | .checkpoint req => Admin.handleCheckpoint req
  | .interrupt req => Admin.handleInterrupt req
  | .quack req => Quack.handleMessage deps req
  | .uiRun req => Ui.handleRun deps req

/-- The routes that change something and have no origin gate. -/
def RoutedRequest.ungated : RoutedRequest → Bool
  | .sessionNew _ | .sessionDelete _ | .logout _ => true
  | _ => false

/-- The other routes a browser reaches with its cookie, the UI apart. -/
def RoutedRequest.gated : RoutedRequest → Bool
  | .sql _ | .sqlCancel _ | .whoami _ | .tables _ | .schema _ | .sessions _ | .checkpoint _
  | .interrupt _ => true
  | _ => false

/-- What the callback is asked on a route that always asks the same. -/
def RoutedRequest.fixedPair : RoutedRequest → Option (Bytes × Bytes)
  | .sessionNew _ => some (Sql.kAdminSessionId, Sql.kAuthzCreateSession)
  | .sessionDelete _ => some (Sql.kAdminSessionId, Sql.kAuthzDeleteSession)
  | .sqlCancel _ => some (Sql.kAdminSessionId, Sql.kAuthzCancelSession)
  | .whoami _ => some (Admin.kAdminSessionId, Admin.kAuthzWhoami)
  | .tables _ => some (Admin.kAdminSessionId, Admin.kAuthzListTables)
  | .schema _ => some (Admin.kAdminSessionId, Admin.kAuthzDescribeTable)
  | .sessions _ => some (Admin.kAdminSessionId, Admin.kAuthzSessionsList)
  | .checkpoint _ => some (Admin.kAdminSessionId, Admin.kAuthzCheckpointCreate)
  | .interrupt _ => some (Admin.kAdminSessionId, Admin.kAuthzSessionsInterrupt)
  | _ => none

/-! ## What a past says -/

/-- The result of an authentication that let the caller in. -/
def callerOf : Event Answer → Option AuthResult
  | ⟨.authenticateRequest _ _, result⟩ => if result.ok then some result else none
  | _ => none

/-- Who the request was authenticated as, first. -/
def caller : Past → Option AuthResult
  | [] => none
  | ev :: h =>
      match caller h with
      | some result => some result
      | none => callerOf ev

/-- The callback was asked for the text and allowed it. -/
def allows (sql : Bytes) : Event Answer → Bool
  | ⟨.runAuthorization _ query, allowed⟩ => allowed && query == sql
  | _ => false

def authorized (sql : Bytes) (h : Past) : Bool := h.any (allows sql)

/-- An origin gate was evaluated and passed. -/
def passesGate : Event Answer → Bool
  | ⟨.hasAllowedBrowserOrigin _, allowed⟩ => allowed
  | ⟨.hasAllowedBrowserOriginIfCookie _ _, allowed⟩ => allowed
  | _ => false

def gatePassed (h : Past) : Bool := h.any passesGate

/-- The session was found by its id alone. -/
def findsById (s : HarborSession) : Event Answer → Bool
  | ⟨.getConnection _, found⟩ => found == some s
  | ⟨.disconnectConnection _, removed⟩ => removed == some s
  | _ => false

def foundById (s : HarborSession) (h : Past) : Bool := h.any (findsById s)

/-- The limit was read. -/
def readsMax (maxSessions : Nat) : Event Answer → Bool
  | ⟨.readMaxSessions, m⟩ => m == maxSessions
  | _ => false

/-- The session of that id and owner was found by both. -/
def findsOwned (sessionId principalId : Bytes) : Event Answer → Bool
  | ⟨.lookupOwnedSession id principal, found⟩ =>
      id == sessionId && principal == principalId && found.isSome
  | _ => false

@[simp] theorem caller_nil : caller [] = none := rfl

theorem caller_cons_of_some {h : Past} {result : AuthResult} (hc : caller h = some result)
    (ev : Event Answer) : caller (ev :: h) = some result := by
  simp only [caller, hc]

theorem caller_cons_of_none {h : Past} (hc : caller h = none) (ev : Event Answer) :
    caller (ev :: h) = callerOf ev := by
  simp only [caller, hc]

theorem caller_authenticated {h : Past} (hc : caller h = none) {authn : AuthResult}
    (hok : authn.ok = true) (headers : Headers) (sessionId : Bytes) :
    caller (⟨.authenticateRequest headers sessionId, authn⟩ :: h) = some authn := by
  rw [caller_cons_of_none hc]
  simp [callerOf, hok]

/-- The caller stays who it is. -/
theorem caller_append {h : Past} {result : AuthResult} (hc : caller h = some result) :
    ∀ later : Past, caller (later ++ h) = some result := by
  intro later
  induction later with
  | nil => exact hc
  | cons ev later ih => exact caller_cons_of_some ih ev

theorem any_cons_of_any {f : Event Answer → Bool} {h : Past} (hf : h.any f = true)
    (ev : Event Answer) : (ev :: h).any f = true := by
  rw [List.any_cons, hf, Bool.or_true]

/-! ## What a call does -/

/-- The text of the client's that is handed to a connection for preparation or execution. -/
def Call.clientSql? : Call → Option Bytes
  | .prepare _ sql | .execute _ sql | .runStatement _ sql _ | .sendQuery _ sql => some sql
  | _ => none

/-- The connection that is used. -/
def Call.conn? : Call → Option Conn
  | .extractStatements conn _ | .prepare conn _ | .expectedParameterTypes conn
  | .decodeParameters conn _ _ | .execute conn _ | .runStatement conn _ _ | .sendQuery conn _
  | .fetch conn | .append conn _ _ => some conn
  | _ => none

/-- The session whose connection is used. -/
def Call.session? (call : Call) : Option HarborSession :=
  match call.conn? with
  | some (.session s) => some s
  | _ => none

/-- The sessions that are taken out of the map. -/
def removed : Event Answer → List HarborSession
  | ⟨.disconnectConnection _, s⟩ => s.toList
  | ⟨.destroyOwnedSession _ _, s⟩ => s.toList
  | ⟨.destroyAllOwnedBy _, sessions⟩ => sessions
  | _ => []

/-- The sessions on whose connection the call works, or which it takes out of the map. -/
def touches (ev : Event Answer) : List HarborSession := ev.1.session?.toList ++ removed ev

/-- Something is different afterwards: SQL was executed, a session created or destroyed, a query
interrupted, a checkpoint run. The catalog queries of the server only read. -/
def changesState : Event Answer → Bool
  | ⟨.execute _ _, _⟩ | ⟨.runStatement _ _ _, _⟩ | ⟨.sendQuery _ _, _⟩ | ⟨.append _ _ _, _⟩ => true
  | ⟨.ownQuery sql, _⟩ => sql == Admin.checkpointSql
  | ⟨.createNewConnection _, created⟩ => created.toBool
  | ⟨.insertOwned _ _ _, created⟩ => created.toBool
  | ⟨.interruptSession _, found⟩ => found
  | ⟨.disconnectConnection _, s⟩ => s.isSome
  | ⟨.destroyOwnedSession _ _, s⟩ => s.isSome
  | ⟨.destroyAllOwnedBy _, sessions⟩ => !sessions.isEmpty
  | _ => false

/-- What the callback is asked, by the route. On `/sql` it is the text with the caller's session, or
with a constant when the request names none. -/
def AsksFor (deps : Deps) (r : RoutedRequest) (h : Past) (sessionId query : Bytes) : Prop :=
  match r with
  | .sql req => ∃ maxBody parsed, Sql.sqlRequest deps req maxBody = .ok parsed ∧
      query = parsed.sql ∧
      ((parsed.sessionId = [] ∧ sessionId = Sql.kAdminSessionId) ∨
        (parsed.sessionId ≠ [] ∧ sessionId = parsed.sessionId ∧ ∃ result, caller h = some result ∧
          h.any (findsOwned sessionId result.principalId) = true))
  | .quack _ => True
  | r => r.fixedPair = some (sessionId, query)

/-- What a call of the route's handler keeps to, given the calls before it. -/
structure Ok (deps : Deps) (r : RoutedRequest) (h : Past) (ev : Event Answer) : Prop where
  /-- Text is handed to a connection after it was authorized, the UI apart. -/
  mediated : (∀ req, r ≠ .uiRun req) → ∀ sql, ev.1.clientSql? = some sql → authorized sql h = true
  /-- The UI never asks, the other routes ask what belongs to them. -/
  asks : ∀ sessionId query, ev.1 = .runAuthorization sessionId query →
    (∀ req, r ≠ .uiRun req) ∧ AsksFor deps r h sessionId query
  /-- A session is the caller's or was found by its id alone. -/
  isolated : ∀ s ∈ touches ev,
    (∃ result, caller h = some result ∧ result.principalId = s.ownerPrincipalId) ∨
    foundById s (ev :: h) = true
  gated : r.gated = true → changesState ev = true →
    ∃ result, caller h = some result ∧ (result.source = .cookie → gatePassed h = true)
  ungated : r.ungated = true →
    passesGate ev = false ∧ (changesState ev = true → ∃ result, caller h = some result)
  /-- Requests behind a gate use the sessions there are. -/
  samePool : r.gated = true → ev.1.changesPool = false
  /-- A new session has a generated id, and the caller for its owner. -/
  createsNew : ∀ sessionId, ev.1 = .createNewConnection sessionId → GeneratedId sessionId
  createsOwned : ∀ sessionId owner maxSessions, ev.1 = .insertOwned sessionId owner maxSessions →
    GeneratedId sessionId ∧ h.any (readsMax maxSessions) = true ∧
    ∃ result, caller h = some result ∧ result.principalId = owner

section Rules

variable {deps : Deps} {r : RoutedRequest} {h : Past}

/-! ## Calls that need no permission -/

/-- The calls that only ask. -/
def Call.plain : Call → Bool
  | .authenticateRequest _ _ | .runAuthentication _ _ | .isAllowedOrigin _
  | .maxRequestBodySetting | .lockDatabase | .generateSessionId | .readMaxSessions
  | .getConnection _ | .lookupOwnedSession _ _ | .snapshot | .tryLock _ | .lock _
  | .currentResult _ _ | .queryTimedOut => true
  | _ => false

theorem Call.plain_does {ev : Event Answer} (hplain : ev.1.plain = true) :
    ev.1.clientSql? = none ∧ touches ev = [] ∧ changesState ev = false ∧ passesGate ev = false ∧
      ev.1.changesPool = false := by
  obtain ⟨call, answer⟩ := ev
  cases call <;> first
    | exact ⟨rfl, rfl, rfl, rfl, rfl⟩
    | cases hplain

theorem Ok.plain {ev : Event Answer} (hplain : ev.1.plain = true) : Ok deps r h ev := by
  obtain ⟨hsql, htouches, hchanges, hgate, hpool⟩ := Call.plain_does hplain
  refine
    { mediated := fun _ sql hcall => ?_
      asks := fun sessionId query hcall => ?_
      isolated := fun s hs => ?_
      gated := fun _ hcall => ?_
      ungated := fun _ => ⟨hgate, fun hcall => ?_⟩
      samePool := fun _ => hpool
      createsNew := fun sessionId hcall => ?_
      createsOwned := fun sessionId owner maxSessions hcall => ?_ }
  · rw [hsql] at hcall
    cases hcall
  · rw [hcall] at hplain
    cases hplain
  · rw [htouches] at hs
    cases hs
  · rw [hchanges] at hcall
    cases hcall
  · rw [hchanges] at hcall
    cases hcall
  · rw [hcall] at hplain
    cases hplain
  · rw [hcall] at hplain
    cases hplain

/-- A call that only asks is always allowed. -/
theorem wp_plain {call : Call} {Q : Past → Answer call → Prop} (hplain : call.plain = true)
    (hQ : ∀ a, Legal ⟨call, a⟩ → Q (⟨call, a⟩ :: h) a) :
    wp Legal (Ok deps r) h (perform call) Q :=
  fun a ha => ⟨.plain hplain, hQ a ha⟩

/-! ## The origin gates -/

def Call.isGate : Call → Bool
  | .hasAllowedBrowserOrigin _ | .hasAllowedBrowserOriginIfCookie _ _ => true
  | _ => false

theorem Call.isGate_does {ev : Event Answer} (hgate : ev.1.isGate = true) :
    ev.1.clientSql? = none ∧ touches ev = [] ∧ changesState ev = false ∧
      ev.1.changesPool = false := by
  obtain ⟨call, answer⟩ := ev
  cases call <;> first
    | exact ⟨rfl, rfl, rfl, rfl⟩
    | cases hgate

/-- A gate may be evaluated on a route that is not said to have none. -/
theorem Ok.gate (hr : r.ungated = false) {ev : Event Answer} (hgate : ev.1.isGate = true) :
    Ok deps r h ev := by
  obtain ⟨hsql, htouches, hchanges, hpool⟩ := Call.isGate_does hgate
  refine
    { mediated := fun _ sql hcall => ?_
      asks := fun sessionId query hcall => ?_
      isolated := fun s hs => ?_
      gated := fun _ hcall => ?_
      ungated := fun hungated => ?_
      samePool := fun _ => hpool
      createsNew := fun sessionId hcall => ?_
      createsOwned := fun sessionId owner maxSessions hcall => ?_ }
  · rw [hsql] at hcall
    cases hcall
  · rw [hcall] at hgate
    cases hgate
  · rw [htouches] at hs
    cases hs
  · rw [hchanges] at hcall
    cases hcall
  · rw [hr] at hungated
    cases hungated
  · rw [hcall] at hgate
    cases hgate
  · rw [hcall] at hgate
    cases hgate

/-! ## The callback -/

/-- The callback may be asked what belongs to the route. -/
theorem Ok.runAuthorization {sessionId query : Bytes} {allowed : Bool}
    (hui : ∀ req, r ≠ .uiRun req) (hasks : AsksFor deps r h sessionId query) :
    Ok deps r h ⟨.runAuthorization sessionId query, allowed⟩ where
  mediated _ _ hsql := nomatch hsql
  asks _ _ hcall := by
    cases hcall
    exact ⟨hui, hasks⟩
  isolated _ hs := nomatch hs
  gated _ hchanges := nomatch hchanges
  ungated _ := ⟨rfl, fun hchanges => nomatch hchanges⟩
  samePool _ := rfl
  createsNew _ hcall := nomatch hcall
  createsOwned _ _ _ hcall := nomatch hcall

/-- What it allows is authorized. -/
theorem authorized_cons (sessionId query : Bytes) :
    authorized query (⟨.runAuthorization sessionId query, true⟩ :: h) = true := by
  simp [authorized, allows]

/-! ## Calls on a connection -/

/-- What a request has to show for a connection it uses. -/
structure Ready (r : RoutedRequest) (conn : Conn) (h : Past) : Prop where
  changes : r.ungated = false
  isolated : ∀ s, conn = .session s →
    (∃ result, caller h = some result ∧ result.principalId = s.ownerPrincipalId) ∨
    foundById s h = true
  gated : r.gated = true →
    ∃ result, caller h = some result ∧ (result.source = .cookie → gatePassed h = true)

/-- What was shown stays shown. -/
theorem Ready.cons {conn : Conn} (hready : Ready r conn h) (ev : Event Answer) :
    Ready r conn (ev :: h) where
  changes := hready.changes
  isolated s hs := by
    obtain ⟨result, hcaller, howner⟩ | hfound := hready.isolated s hs
    · exact Or.inl ⟨result, caller_cons_of_some hcaller ev, howner⟩
    · exact Or.inr (any_cons_of_any hfound ev)
  gated hr := by
    obtain ⟨result, hcaller, hgate⟩ := hready.gated hr
    exact ⟨result, caller_cons_of_some hcaller ev, fun hs => any_cons_of_any (hgate hs) ev⟩

theorem Ok.onConn {conn : Conn} (hready : Ready r conn h) {ev : Event Answer}
    (hconn : ev.1.conn? = some conn)
    (hsql : (∀ req, r ≠ .uiRun req) → ∀ sql, ev.1.clientSql? = some sql → authorized sql h = true) :
    Ok deps r h ev := by
  have hungated : r.ungated ≠ true := by simp [hready.changes]
  obtain ⟨call, answer⟩ := ev
  have htouches : ∀ s ∈ touches ⟨call, answer⟩, conn = .session s := by
    intro s hs
    have hremoved : removed ⟨call, answer⟩ = [] := by cases call <;> first | rfl | cases hconn
    unfold touches Call.session? at hs
    rw [hremoved, List.append_nil] at hs
    dsimp only at hs hconn
    rw [hconn] at hs
    cases conn <;> simp at hs
    rw [hs]
  refine
    { mediated := hsql
      asks := fun sessionId query hcall => ?_
      isolated := fun s hs => ?_
      gated := fun hr _ => hready.gated hr
      ungated := fun hr => absurd hr hungated
      samePool := fun _ => by cases call <;> first | rfl | cases hconn
      createsNew := fun sessionId hcall => ?_
      createsOwned := fun sessionId owner maxSessions hcall => ?_ }
  · dsimp only at hcall
    subst hcall
    cases hconn
  · obtain hcaller | hfound := hready.isolated s (htouches s hs)
    · exact Or.inl hcaller
    · exact Or.inr (any_cons_of_any hfound _)
  · dsimp only at hcall
    subst hcall
    cases hconn
  · dsimp only at hcall
    subst hcall
    cases hconn

/-- A call on a connection that hands no text of the client's to it. -/
theorem wp_onConn {conn : Conn} {call : Call} {Q : Past → Answer call → Prop}
    (hready : Ready r conn h) (hconn : call.conn? = some conn) (hsql : call.clientSql? = none)
    (hQ : ∀ a, Ready r conn (⟨call, a⟩ :: h) → Q (⟨call, a⟩ :: h) a) :
    wp Legal (Ok deps r) h (perform call) Q := by
  intro a _
  refine ⟨.onConn hready hconn fun _ sql hcall => ?_, hQ a (hready.cons _)⟩
  rw [hsql] at hcall
  cases hcall

/-- A call that hands a text to it. -/
theorem wp_onConn_sql {conn : Conn} {call : Call} {sql : Bytes} {Q : Past → Answer call → Prop}
    (hready : Ready r conn h) (hconn : call.conn? = some conn) (hsql : call.clientSql? = some sql)
    (hauth : (∀ req, r ≠ .uiRun req) → authorized sql h = true)
    (hQ : ∀ a, Ready r conn (⟨call, a⟩ :: h) → Q (⟨call, a⟩ :: h) a) :
    wp Legal (Ok deps r) h (perform call) Q := by
  intro a _
  refine ⟨.onConn hready hconn fun hui text hcall => ?_, hQ a (hready.cons _)⟩
  have hsame : sql = text := by
    rw [hsql] at hcall
    exact Option.some.inj hcall
  exact hsame ▸ hauth hui

end Rules

end Harbor.Routes
