import Harbor.Routes.Sql

set_option autoImplicit false

/-! # POST /quack and POST /ddb/run

The binary protocol finds its session by the connection id of the message; nobody is authenticated but
at the `CONNECTION_REQUEST`. The run handler of the UI has connections of its own and executes a text
statement by statement.
-/

namespace Harbor.Routes

open Harbor.Auth Harbor.Session Bytes

/-! ## Quack -/

/-- `QUACK_VERSION`. -/
def quackVersion : Nat := 1

/-- A message by its type, with the fields the server reads. -/
inductive QuackMessage where
  | connectionRequest (minimumSupportedQuackVersion : Nat) (authString : Bytes)
  | disconnect
  | prepareRequest (query : Bytes)
  | fetchRequest (uuid : Nat)
  | appendRequest (schemaName tableName : Bytes)
  /-- A type `ServerSupportsMessage` does not know. -/
  | unsupported
  deriving DecidableEq, Repr

/-- A message with the connection id of its header. -/
structure QuackRequest where
  connectionId : Bytes
  message : QuackMessage
  deriving DecidableEq, Repr

namespace Quack

/-- The text the authorization callback gets to see for an append. -/
def dummyInsertQuery (deps : Deps) (schemaName tableName : Bytes) : Bytes :=
  lit "INSERT INTO " ++ deps.sqlIdentifier schemaName ++ lit "." ++ deps.sqlIdentifier tableName ++
    lit " VALUES (NULL)"

/-- `CONNECTION_REQUEST`. -/
def handleConnection (minimumSupportedQuackVersion : Nat) (authString : Bytes) : Handler Reply :=
  if quackVersion < minimumSupportedQuackVersion then
    return .quackError
      (lit "Unsupported Quack version - server only supports version 1 of quack")
  else do
    match ← perform .generateSessionId with
    | none => return .exception
    | some sessionId =>
        if ← perform (.runAuthentication sessionId authString) then
          match ← perform (.createNewConnection sessionId) with
          | .error _ => return .exception
          | .ok _ => return .quackConnection sessionId
        else return .quackError (lit "Authentication failed")

/-- `CreateBatch`. -/
def createBatch (session : HarborSession) (result : QueryResult) : Handler Reply := do
  match ← Sql.fetchAll (.session session) result.fetches with
  | .error message => return .quackError message
  | .ok () => return .success

/-- `PREPARE_REQUEST`. -/
def handlePrepare (connectionId : Bytes) (session : HarborSession) (query : Bytes) :
    Handler Reply := do
  if ← perform (.runAuthorization connectionId query) then
    let _ ← perform (.lock session)
    match ← perform (.sendQuery (.session session) query) with
    | .error message => return .quackError message
    | .ok result =>
        if result.names = [] then
          return .quackError (lit "Query did not return any columns")
        else createBatch session result
  else return .quackError (lit "Authorization failed")

/-- `FETCH_REQUEST`. -/
def handleFetch (session : HarborSession) (uuid : Nat) : Handler Reply := do
  let _ ← perform (.lock session)
  match ← perform (.currentResult session uuid) with
  | .error message => return .quackError message
  | .ok result => createBatch session result

/-- `APPEND_REQUEST`. -/
def handleAppend (deps : Deps) (connectionId : Bytes) (session : HarborSession)
    (schemaName tableName : Bytes) : Handler Reply := do
  if ← perform (.runAuthorization connectionId (dummyInsertQuery deps schemaName tableName)) then
    let _ ← perform (.lock session)
    match ← perform (.append (.session session) schemaName tableName) with
    | .error message => return .quackError message
    | .ok () => return .success
  else return .quackError (lit "Authorization failed")

/-- `DISCONNECT_MESSAGE`. -/
def handleDisconnect (session : HarborSession) : Handler Reply := do
  match ← perform (.disconnectConnection session.sessionId) with
  | none => return .quackError (lit "Connection does not exist / already disconnected")
  | some _ => return .success

/-- The messages for which `MessageRequiresConnection` holds. -/
def withConnection (connectionId : Bytes) (rest : HarborSession → Handler Reply) : Handler Reply := do
  match ← perform (.getConnection connectionId) with
  | none => return .quackError (lit "Invalid connection id")
  | some session => rest session

/-- `QuackHandlers::HandleMessage`. -/
def handleMessage (deps : Deps) (req : QuackRequest) : Handler Reply := do
  if ← perform .lockDatabase then
    match req.message with
    | .unsupported => return .quackError (lit "Unsupported message type for server")
    | .connectionRequest version authString => handleConnection version authString
    | .disconnect => withConnection req.connectionId handleDisconnect
    | .prepareRequest query =>
        withConnection req.connectionId fun session => handlePrepare req.connectionId session query
    | .fetchRequest uuid =>
        withConnection req.connectionId fun session => handleFetch session uuid
    | .appendRequest schemaName tableName =>
        withConnection req.connectionId fun session =>
          handleAppend deps req.connectionId session schemaName tableName
  else return .quackError (lit "Database was closed")

end Quack

/-! ## POST /ddb/run -/

namespace Ui

/-- `UiHandlers::ScopedConnectionKey`. -/
def scopedConnectionKey (principalId connectionName : Bytes) : Bytes :=
  principalId ++ 0x00 :: connectionName

/-- The statements before the last one, from the place `index` of the text on. -/
def runEarlier (conn : Conn) (content : Bytes) : Nat → Nat → Handler (Except Bytes Unit)
  | _, 0 => return .ok ()
  | index, n + 1 => do
      match ← perform (.runStatement conn content index) with
      | .error message => return .error message
      | .ok _ => runEarlier conn content (index + 1) n

/-- The rows of the last statement. -/
def fetchRows (conn : Conn) (outcome : Except Bytes QueryResult) : Handler Reply :=
  match outcome with
  | .error message => return .uiError message
  | .ok result => do
      match ← Sql.fetchAll conn result.fetches with
      | .error what => return .uiError what
      | .ok () => return .success

/-- The last statement, which is the only one with parameters. -/
def runLast (options : UiOptions) (conn : Conn) (content : Bytes) (index : Nat) :
    Handler Reply := do
  if options.parameterValues ≠ [] then
    match ← perform (.prepare conn content) with
    | .error message => return .uiError message
    | .ok () => do
        let outcome ← perform (.execute conn content)
        fetchRows conn outcome
  else do
    let outcome ← perform (.runStatement conn content index)
    fetchRows conn outcome

/-- From the connection on. -/
def runContent (options : UiOptions) (conn : Conn) (content : Bytes) : Handler Reply := do
  match ← perform (.extractStatements conn content) with
  | .error message => return .uiError message
  | .ok statements =>
      if statements = [] then return .uiError (lit "No statements")
      else do
        match ← runEarlier conn content 0 (statements.length - 1) with
        | .error message => return .uiError message
        | .ok () => runLast options conn content (statements.length - 1)

/-- `UiHandlers::DoHandleRun`, with the exceptions `HandleRun` catches. -/
def handleRun (deps : Deps) (req : Request) : Handler Reply := do
  if ← perform (.isAllowedOrigin (req.header (lit "Origin"))) then
    let authn ← perform (.authenticateRequest req.headers (lit "__HARBOR_AUTH__:ddb"))
    if authn.ok then
      match deps.uiOptions req.headers with
      | .error what => return .uiError what
      | .ok options =>
          if ← perform .lockDatabase then
            let connectionName := scopedConnectionKey authn.principalId
              (req.header (lit "X-DuckDB-UI-Connection-Name"))
            runContent options (.ui connectionName) req.body.flatten
          else return .uiError (lit "Database was invalidated, UI needs to be restarted")
    else return .uiStatus 401
  else return .uiStatus 401

end Ui

end Harbor.Routes
