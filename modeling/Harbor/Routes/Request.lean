import Harbor.Routes.Calls

set_option autoImplicit false

/-! # Requests

An HTTP request as the handlers see it, and what several of them do with one: read the body up to a
limit, look at the content type, find a session id in a small JSON body.
-/

namespace Harbor.Routes

open Harbor.Auth Harbor.Session Bytes

structure Request where
  headers : Headers := []
  /-- The body in the chunks the content reader hands over. -/
  body : List Bytes := []
  params : List (Bytes × Bytes) := []
  /-- The capture groups of the route's pattern. -/
  segments : List Bytes := []
  deriving DecidableEq, Repr

/-- `req.get_header_value`. -/
def Request.header (req : Request) (key : Bytes) : Bytes := getHeaderValue req.headers key

/-- `req.get_param_value`. -/
def Request.param (req : Request) (key : Bytes) : Bytes :=
  match req.params.find? fun param => param.1 == key with
  | some param => param.2
  | none => []

/-- `SqlParamDecoder::ParseRequest`, when it succeeds. -/
structure SqlRequest where
  sql : Bytes
  sessionId : Bytes := []
  paramsJson : Bytes := []
  deriving DecidableEq, Repr

/-- What `DoHandleRun` takes from the headers besides the connection name. -/
structure UiOptions where
  parameterValues : List Bytes := []
  /-- The schema the connection is set to, if any. -/
  searchPath : Option (Bytes × Bytes) := none
  deriving DecidableEq, Repr

/-- Functions the handlers use whose results do not matter here. -/
structure Deps where
  parseRequest : Bytes → Except Bytes SqlRequest
  /-- `SQLIdentifier`: a name with quotes where it needs them. -/
  sqlIdentifier : Bytes → Bytes
  /-- The headers of `/ddb/run`; an exception when one of them is malformed. -/
  uiOptions : Headers → Except Bytes UiOptions

/-! ## Bodies -/

/-- `kDefaultMaxBodyBytes`. -/
def kDefaultMaxBodyBytes : Nat := 268435456

/-- `ReadUbigintSetting` of `harbor_max_request_body_bytes`. -/
def readUbigintSetting (setting : Option UInt64) (fallback : Nat) : Nat :=
  match setting with
  | none => fallback
  | some v => v.toNat

/-- `ReadMaxBodyBytes` of the admin handlers, where zero means the default. -/
def readMaxBodyBytes (setting : Option UInt64) : Nat :=
  match setting with
  | none => kDefaultMaxBodyBytes
  | some v => if v = 0 then kDefaultMaxBodyBytes else v.toNat

/-- `ReadRequestBodyWithLimit` and `ReadBoundedBody`: the chunks one after another, `none` when the next
one goes over the limit. -/
def readBody (maxBody : Nat) : Bytes → List Bytes → Option Bytes
  | out, [] => some out
  | out, chunk :: chunks =>
      if maxBody < out.length + chunk.length then none else readBody maxBody (out ++ chunk) chunks

/-- `IsJsonContentType` of the SQL handlers. -/
def isJsonContentType (contentType : Bytes) : Bool :=
  let lower := lower contentType
  lower == lit "application/json" || startsWith lower (lit "application/json;")

/-- `HasJsonContentType` of the admin handlers, also written out in `HandleSqlCancel`. -/
def hasJsonContentType (contentType : Bytes) : Bool := isJsonContentType (trim contentType)

/-- `ExtractJsonSessionId`, also written out in `HandleSqlCancel`: what stands between the two double
quotes after the colon after the first `sessionId` in quotes. -/
def extractJsonSessionId (body : Bytes) : Bytes :=
  let found := do
    let pos ← findFrom body (0x22 :: lit "sessionId" ++ [0x22]) 0
    let colon ← findFrom body (lit ":") pos
    let open' ← findFrom body [0x22] colon
    let close ← findFrom body [0x22] (open' + 1)
    some ((body.drop (open' + 1)).take (close - (open' + 1)))
  found.getD []

end Harbor.Routes
