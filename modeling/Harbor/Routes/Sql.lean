import Harbor.Routes.Request

set_option autoImplicit false

/-! # The SQL routes

`POST /sql`, `POST /sql/sessions/new`, `DELETE /sql/sessions/:id` and `POST /sql/cancel`.
`HandleSql` is cut where it has found out something: the request, the caller, the connection, the
statement.
-/

namespace Harbor.Routes.Sql

open Harbor.Auth Harbor.Session Bytes

def kAdminSessionId : Bytes := lit "__HARBOR_AUTH__:sql"
def kAuthzCreateSession : Bytes := lit "__HARBOR_ADMIN__:sessions:create"
def kAuthzDeleteSession : Bytes := lit "__HARBOR_ADMIN__:sessions:delete"
def kAuthzCancelSession : Bytes := lit "__HARBOR_ADMIN__:sessions:cancel"

/-- `RespondError`. -/
def fail (status : Nat) (errorCode message : Bytes) (sessionId : Bytes := []) : Reply :=
  .http (respondError status errorCode message sessionId)

/-- The answer to a request `AuthenticateForSql` does not let in. -/
def authError (result : AuthResult) : Reply :=
  fail 401 (if result.errorCode = [] then lit "UNAUTHORIZED" else result.errorCode)
    (lit "authentication failed")

/-- The origin gate, evaluated for the cookie only. -/
def originGate (req : Request) (source : AuthSource) : Handler Bool :=
  if source = .cookie then perform (.hasAllowedBrowserOrigin req.headers) else pure true

/-! ## POST /sql -/

/-- The request, as far as it is checked before anybody is authenticated. -/
def sqlRequest (deps : Deps) (req : Request) (maxBody : Nat) : Except Reply SqlRequest :=
  match readBody maxBody [] req.body with
  | none =>
      throw (fail 413 (lit "PAYLOAD_TOO_LARGE")
        (lit "request body exceeds harbor_max_request_body_bytes=" ++ decNat maxBody))
  | some body =>
      match deps.parseRequest body with
      | .error message => throw (fail 400 (lit "BAD_REQUEST") message)
      | .ok parsed =>
          if startsWith (trim parsed.sql) kAdminPrefix then
            throw (fail 400 (lit "BAD_REQUEST")
              (lit "SQL must not begin with __HARBOR_ADMIN__: (reserved prefix)"))
          else
            -- The header is an alternative to the member of the body.
            return { parsed with sessionId :=
              if parsed.sessionId = [] then req.header (lit "X-Harbor-Session-Id")
              else parsed.sessionId }

/-- The check for a transaction in a request without a session. -/
def beginsTransaction (sql : Bytes) : Bool :=
  let upperSql := upper (trim sql)
  startsWith upperSql (lit "BEGIN") || startsWith upperSql (lit "START TRANSACTION")

/-- Whether the result has rows the client asked for. -/
def isSelectStatement (statement : SqlStatement) : Bool :=
  statement.type == .select ||
    (statement.type ∈ [.insert, .update, .delete] && statement.hasReturning)

/-- Fetch that many times: the loop of the one-shot response, or the calls of the content provider. -/
def fetchAll (conn : Conn) : Nat → Handler (Except Bytes Unit)
  | 0 => return .ok ()
  | n + 1 => do
      match ← perform (.fetch conn) with
      | .error what => return .error what
      | .ok () => fetchAll conn n

/-- The answer to an execution or a fetch that failed. -/
def executeError (parsed : SqlRequest) (status : Nat) (message : Bytes) : Handler Reply := do
  if ← perform .queryTimedOut then
    return fail 504 (lit "QUERY_TIMEOUT") (lit "query exceeded harbor_query_timeout_s") parsed.sessionId
  else return fail status (classifyError message) message parsed.sessionId

/-- The response to a query with rows. A stream has begun when a fetch fails, and says so itself. -/
def respondRows (req : Request) (parsed : SqlRequest) (conn : Conn) (result : QueryResult) :
    Handler Reply := do
  match ← fetchAll conn result.fetches with
  | .ok () => return .success
  | .error what =>
      if chooseShape (req.header (lit "Accept")) = .oneShotJson then executeError parsed 500 what
      else return .success

/-- From the prepared statement to the response. -/
def executePrepared (req : Request) (parsed : SqlRequest) (conn : Conn) (statement : SqlStatement) :
    Handler Reply := do
  match ← perform (.execute conn parsed.sql) with
  | .error message => executeError parsed 400 message
  | .ok result =>
      if isSelectStatement statement then respondRows req parsed conn result
      else do
        -- A write has one chunk with the number of rows; an error there counts as none.
        let _ ← perform (.fetch conn)
        return .success

/-- The parameters. -/
def bindParameters (req : Request) (parsed : SqlRequest) (conn : Conn) (statement : SqlStatement) :
    Handler Reply := do
  match ← perform (.expectedParameterTypes conn) with
  | .error what =>
      return fail 400 (lit "BAD_REQUEST") (lit "could not introspect parameter types: " ++ what)
        parsed.sessionId
  | .ok expectedTypes =>
      if parsed.paramsJson ≠ [] then do
        match ← perform (.decodeParameters conn parsed.paramsJson expectedTypes) with
        | .error message => return fail 400 (lit "BAD_REQUEST") message parsed.sessionId
        | .ok () => executePrepared req parsed conn statement
      else if expectedTypes ≠ [] then
        return fail 400 (lit "BAD_REQUEST") (lit "prepared statement expects " ++
          decNat expectedTypes.length ++ lit " parameter(s); none provided") parsed.sessionId
      else executePrepared req parsed conn statement

/-- From the connection on: authorize the text, parse it, prepare it. -/
def runSql (req : Request) (parsed : SqlRequest) (conn : Conn) : Handler Reply := do
  if ← perform .lockDatabase then
    let sessionId := if parsed.sessionId = [] then kAdminSessionId else parsed.sessionId
    if ← perform (.runAuthorization sessionId parsed.sql) then
      match ← perform (.extractStatements conn parsed.sql) with
      | .error what => return fail 400 (lit "SQL_SYNTAX") what parsed.sessionId
      | .ok [] =>
          return fail 400 (lit "BAD_REQUEST") (lit "SQL contains no statements") parsed.sessionId
      | .ok [statement] =>
          if conn = .ephemeral ∧ beginsTransaction parsed.sql = true then
            return fail 400 (lit "BAD_REQUEST")
              (lit "transactions require an explicit sessionId; create one with POST /sql/sessions/new")
          else do
            match ← perform (.prepare conn parsed.sql) with
            | .error message => return fail 400 (classifyError message) message parsed.sessionId
            | .ok () => bindParameters req parsed conn statement
      | .ok _ =>
          return fail 400 (lit "BAD_REQUEST") (lit "multi-statement requests not supported on " ++
            lit "/sql; use /sql/sessions/new for transactions") parsed.sessionId
    else
      return fail 403 (lit "FORBIDDEN") (lit "authorization callback rejected the query")
        parsed.sessionId
  else return fail 503 (lit "INTERNAL") (lit "database was closed")

/-- `ResolveSession` and the session's lock: the caller's session, or a fresh connection. -/
def resolveSession (req : Request) (parsed : SqlRequest) (principalId : Bytes) : Handler Reply :=
  if parsed.sessionId = [] then runSql req parsed .ephemeral
  else do
    match ← perform (.lookupOwnedSession parsed.sessionId principalId) with
    | none =>
        return fail 404 (lit "SESSION_NOT_FOUND") (lit "no such session for this principal")
          parsed.sessionId
    | some session =>
        if ← perform (.tryLock session) then runSql req parsed (.session session)
        else
          return fail 409 (lit "SESSION_BUSY") (lit "another request is using this session")
            parsed.sessionId

/-- From the parsed request on: authenticate, and ask where a cookie comes from. -/
def authenticateSql (req : Request) (parsed : SqlRequest) : Handler Reply := do
  let authn ← perform (.authenticateRequest req.headers kAdminSessionId)
  if authn.ok then
    if ← originGate req authn.source then resolveSession req parsed authn.principalId
    else
      return fail 403 (lit "FORBIDDEN")
        (lit "cookie-authenticated /sql requests require an allowed Origin or Referer")
  else return authError authn

/-- `SqlHandlers::HandleSql`. -/
def handleSql (deps : Deps) (req : Request) : Handler Reply :=
  if isJsonContentType (req.header (lit "Content-Type")) then do
    let setting ← perform .maxRequestBodySetting
    match sqlRequest deps req (readUbigintSetting setting kDefaultMaxBodyBytes) with
    | .error reply => return reply
    | .ok parsed => authenticateSql req parsed
  else return fail 415 (lit "BAD_REQUEST") (lit "/sql requires Content-Type: application/json")

/-! ## Sessions -/

/-- `SessionManager::CreateOwnedSession`: the owner is checked and the limit is read outside of the
lock. -/
def createOwnedSession (sessionId owner : Bytes) : Handler (Except CreateError HarborSession) :=
  if isValidPrincipalHex owner then do
    let maxSessions ← perform .readMaxSessions
    perform (.insertOwned sessionId owner maxSessions)
  else return .error .invalidOwner

/-- The answer to an exception of the session manager. -/
def createFailed (error : CreateError) : Reply :=
  let code := classifyError error.what
  fail (if code = lit "SESSION_LIMIT" then 429 else 500) code error.what

/-- `{"ok": true, "sessionId": …}`. -/
def respondSession (sessionId : Bytes) : Reply :=
  let w := JsonWriter.new.beginObject.keyBool (lit "ok") true
  let w := w.keyString (lit "sessionId") sessionId
  .http ⟨200, lit "application/json", w.endObject.buf⟩

/-- `SqlHandlers::HandleSessionNew`. -/
def handleSessionNew (req : Request) : Handler Reply := do
  let authn ← perform (.authenticateRequest req.headers kAdminSessionId)
  if authn.ok then
    if ← perform (.runAuthorization kAdminSessionId kAuthzCreateSession) then
      match ← perform .generateSessionId with
      | none => return createFailed .databaseClosed
      | some sessionId =>
          match ← createOwnedSession sessionId authn.principalId with
          | .error error => return createFailed error
          | .ok _ => return respondSession sessionId
    else
      return fail 403 (lit "FORBIDDEN") (lit "authorization callback rejected session creation")
  else return authError authn

/-- `SqlHandlers::HandleSessionDelete`. -/
def handleSessionDelete (req : Request) : Handler Reply := do
  let authn ← perform (.authenticateRequest req.headers kAdminSessionId)
  if authn.ok then
    if ← perform (.runAuthorization kAdminSessionId kAuthzDeleteSession) then
      let sessionId := req.segments.headD []
      if sessionId = [] then
        return fail 404 (lit "SESSION_NOT_FOUND") (lit "missing session id in path")
      else do
        match ← perform (.destroyOwnedSession sessionId authn.principalId) with
        | none =>
            return fail 404 (lit "SESSION_NOT_FOUND") (lit "no such session for this principal")
              sessionId
        | some _ => return respondSession sessionId
    else
      return fail 403 (lit "FORBIDDEN") (lit "authorization callback rejected session deletion")
  else return authError authn

/-! ## POST /sql/cancel -/

/-- The interrupt at the end of `HandleSqlCancel`. -/
def cancelSession (req : Request) : Handler Reply :=
  if hasJsonContentType (req.header (lit "Content-Type")) then do
    let setting ← perform .maxRequestBodySetting
    match readBody (readUbigintSetting setting kDefaultMaxBodyBytes) [] req.body with
    | none =>
        return fail 413 (lit "PAYLOAD_TOO_LARGE")
          (lit "request body exceeds harbor_max_request_body_bytes")
    | some body =>
        let sessionId := extractJsonSessionId body
        if sessionId = [] then
          return fail 400 (lit "BAD_REQUEST")
            (lit "expected JSON body with a non-empty 'sessionId' field")
        else if ← perform (.interruptSession sessionId) then return respondSession sessionId
        else return fail 404 (lit "SESSION_NOT_FOUND") (lit "no session with the given id")
  else
    return fail 415 (lit "UNSUPPORTED_MEDIA_TYPE")
      (lit "/sql/cancel expects Content-Type: application/json")

/-- `SqlHandlers::HandleSqlCancel`. -/
def handleSqlCancel (req : Request) : Handler Reply := do
  let authn ← perform (.authenticateRequest req.headers kAdminSessionId)
  if authn.ok then
    if ← originGate req authn.source then
      if ← perform (.runAuthorization kAdminSessionId kAuthzCancelSession) then cancelSession req
      else
        return fail 403 (lit "FORBIDDEN") (lit "authorization callback rejected the admin call")
    else
      return fail 403 (lit "FORBIDDEN")
        (lit "cookie-authenticated /sql/cancel requires an allowed Origin or Referer")
  else return authError authn

end Harbor.Routes.Sql
