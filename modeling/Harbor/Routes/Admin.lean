import Harbor.Routes.Sql

set_option autoImplicit false

/-! # The admin routes and logout

The routes of `AdminHandlers` that authenticate, and `POST /auth/logout`. What they read from the
catalog is left out; the calls they make are all here.
-/

namespace Harbor.Routes.Admin

open Harbor.Auth Harbor.Session Bytes

def kAdminSessionId : Bytes := lit "__HARBOR_AUTH__:admin"
def kAuthzWhoami : Bytes := lit "__HARBOR_ADMIN__:server:whoami"
def kAuthzListTables : Bytes := lit "__HARBOR_ADMIN__:catalog:list_tables"
def kAuthzDescribeTable : Bytes := lit "__HARBOR_ADMIN__:catalog:describe_table"
def kAuthzCheckpointCreate : Bytes := lit "__HARBOR_ADMIN__:checkpoint:create"
def kAuthzSessionsList : Bytes := lit "__HARBOR_ADMIN__:sessions:list"
def kAuthzSessionsInterrupt : Bytes := lit "__HARBOR_ADMIN__:sessions:interrupt"

/-- `RespondError` of the admin handlers, which have no session id to name. -/
def fail (status : Nat) (errorCode message : Bytes) : Reply :=
  .http (respondError status errorCode message [])

/-- The dash in two of the messages, in UTF-8. -/
def emDash : Bytes := [0xE2, 0x80, 0x94]

/-- The error code and message of `AuthenticateAdmin`. -/
def authErrorText (errorCode : Bytes) : Bytes × Bytes :=
  if errorCode = lit "MISSING_CREDENTIAL" then
    (lit "UNAUTHORIZED", lit "missing credential " ++ emDash ++
      lit " provide Authorization: Bearer or harbor_session cookie")
  else if errorCode = lit "UNSUPPORTED_AUTH_SCHEME" then
    (lit "UNSUPPORTED_AUTH_SCHEME", lit "unsupported Authorization scheme " ++ emDash ++ lit " only Bearer is accepted")
  else if errorCode = lit "INVALID_TOKEN" then (lit "UNAUTHORIZED", lit "invalid bearer token")
  else if errorCode ∈ [lit "BAD_COOKIE_SIG", lit "BAD_COOKIE_FORMAT", lit "BAD_COOKIE_VERSION"] then
    (lit "UNAUTHORIZED", lit "harbor_session cookie failed verification")
  else if errorCode = lit "COOKIE_EXPIRED" then
    (lit "UNAUTHORIZED", lit "harbor_session cookie expired")
  else (lit "UNAUTHORIZED", lit "authentication failed")

def authError (result : AuthResult) : Reply :=
  fail 401 (authErrorText result.errorCode).1 (authErrorText result.errorCode).2

/-- The beginning of the GET routes: authenticate and authorize. -/
def authorized (req : Request) (query : Bytes) (rest : Handler Reply) : Handler Reply := do
  let authn ← perform (.authenticateRequest req.headers kAdminSessionId)
  if authn.ok then
    if ← perform (.runAuthorization kAdminSessionId query) then rest
    else return fail 403 (lit "FORBIDDEN") (lit "authorization callback rejected the admin call")
  else return authError authn

/-- The beginning of the POST routes: the origin gate stands between the two. -/
def authorizedPost (req : Request) (route query : Bytes) (rest : Handler Reply) :
    Handler Reply := do
  let authn ← perform (.authenticateRequest req.headers kAdminSessionId)
  if authn.ok then
    if ← perform (.hasAllowedBrowserOriginIfCookie req.headers authn.source) then
      if ← perform (.runAuthorization kAdminSessionId query) then rest
      else return fail 403 (lit "FORBIDDEN") (lit "authorization callback rejected the admin call")
    else
      return fail 403 (lit "FORBIDDEN")
        (lit "cookie-authenticated " ++ route ++ lit " requires an allowed Origin or Referer")
  else return authError authn

/-- A query of the server's own on a transient connection. -/
def ownQuery (sql route failure : Bytes) : Handler Reply := do
  if ← perform .lockDatabase then
    match ← perform (.ownQuery sql) with
    | .ok _ => return .success
    | .error message =>
        if ← perform .queryTimedOut then
          return fail 504 (lit "QUERY_TIMEOUT") (route ++ lit " exceeded harbor_query_timeout_s")
        else return fail 500 (lit "INTERNAL") (if message = [] then failure else message)
  else return fail 503 (lit "INTERNAL") (lit "database was closed")

/-! ## The GET routes -/

/-- `AdminHandlers::HandleWhoami`. -/
def handleWhoami (req : Request) : Handler Reply := authorized req kAuthzWhoami (return .success)

def tablesSql : Bytes :=
  lit "SELECT database_name, schema_name, table_name, internal " ++
  lit "FROM duckdb_tables() ORDER BY database_name, schema_name, table_name"

/-- `AdminHandlers::HandleTables`. -/
def handleTables (req : Request) : Handler Reply :=
  authorized req kAuthzListTables (ownQuery tablesSql (lit "/tables") (lit "duckdb_tables() failed"))

def schemaSql : Bytes :=
  lit "SELECT column_name, data_type, is_nullable, column_default, column_index " ++
  lit "FROM duckdb_columns() " ++
  lit "WHERE database_name = $1 AND schema_name = 'main' AND table_name = $2 " ++
  lit "ORDER BY column_index"

/-- `AdminHandlers::HandleSchema`. -/
def handleSchema (req : Request) : Handler Reply :=
  authorized req kAuthzDescribeTable
    (if req.segments.headD [] = [] ∨ req.segments.tail.headD [] = [] then
      return fail 400 (lit "BAD_REQUEST") (lit "database and table path components are required")
    else ownQuery schemaSql (lit "/schema") (lit "prepare duckdb_columns() failed"))

/-- `AdminHandlers::HandleSessions`. -/
def handleSessions (req : Request) : Handler Reply :=
  authorized req kAuthzSessionsList do
    let _ ← perform .snapshot
    return .success

/-! ## POST /checkpoint -/

def checkpointSql : Bytes := lit "CHECKPOINT"

/-- The checkpoint itself. -/
def checkpoint : Handler Reply := do
  if ← perform .lockDatabase then
    match ← perform (.ownQuery checkpointSql) with
    | .ok _ => return .success
    | .error message =>
        if ← perform .queryTimedOut then
          return fail 504 (lit "QUERY_TIMEOUT") (lit "checkpoint exceeded harbor_query_timeout_s")
        else if contains message (lit "other write transactions active") ||
            contains message (lit "Cannot CHECKPOINT") then
          return fail 409 (lit "CONFLICT") message
        else return fail 500 (lit "INTERNAL") message
  else return fail 503 (lit "INTERNAL") (lit "database was closed")

/-- The body, which is checked when there is one, and otherwise ignored. -/
def checkpointBody (req : Request) : Handler Reply :=
  let contentLength := req.header (lit "Content-Length")
  let contentType := req.header (lit "Content-Type")
  if (contentLength ≠ [] ∧ contentLength ≠ lit "0") ∨ contentType ≠ [] then
    if hasJsonContentType contentType then do
      let setting ← perform .maxRequestBodySetting
      match readBody (readMaxBodyBytes setting) [] req.body with
      | none =>
          return fail 413 (lit "PAYLOAD_TOO_LARGE")
            (lit "request body exceeds harbor_max_request_body_bytes")
      | some _ => checkpoint
    else
      return fail 415 (lit "UNSUPPORTED_MEDIA_TYPE")
        (lit "/checkpoint expects Content-Type: application/json")
  else checkpoint

/-- `AdminHandlers::HandleCheckpoint`. -/
def handleCheckpoint (req : Request) : Handler Reply :=
  authorizedPost req (lit "/checkpoint") kAuthzCheckpointCreate (checkpointBody req)

/-! ## POST /interrupt -/

/-- The interrupt itself. -/
def interrupt (req : Request) : Handler Reply :=
  if hasJsonContentType (req.header (lit "Content-Type")) then do
    let setting ← perform .maxRequestBodySetting
    match readBody (readMaxBodyBytes setting) [] req.body with
    | none =>
        return fail 413 (lit "PAYLOAD_TOO_LARGE")
          (lit "request body exceeds harbor_max_request_body_bytes")
    | some body =>
        let sessionId := extractJsonSessionId body
        if sessionId = [] then
          return fail 400 (lit "BAD_REQUEST")
            (lit "expected JSON body with a non-empty 'sessionId' field")
        else if ← perform (.interruptSession sessionId) then return .success
        else return fail 404 (lit "SESSION_NOT_FOUND") (lit "no session with the given id")
  else
    return fail 415 (lit "UNSUPPORTED_MEDIA_TYPE")
      (lit "/interrupt expects Content-Type: application/json")

/-- `AdminHandlers::HandleInterrupt`. -/
def handleInterrupt (req : Request) : Handler Reply :=
  authorizedPost req (lit "/interrupt") kAuthzSessionsInterrupt (interrupt req)

/-! ## POST /auth/logout -/

def kLoginSessionId : Bytes := lit "__HARBOR_AUTH__:login"

/-- `AuthHandlers::HandleLogout`: always a 200, whoever asks. -/
def handleLogout (req : Request) : Handler Reply :=
  let destroyParam := req.param (lit "destroy_sessions")
  if lower destroyParam = lit "true" ∨ destroyParam = lit "1" then do
    let authn ← perform (.authenticateRequest req.headers kLoginSessionId)
    if authn.ok ∧ authn.principalId ≠ [] then do
      let _ ← perform (.destroyAllOwnedBy authn.principalId)
      return .success
    else return .success
  else return .success

end Harbor.Routes.Admin
