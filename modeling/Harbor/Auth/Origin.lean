import Harbor.Auth.Request

set_option autoImplicit false

/-! # The origin gates

A browser attaches the session cookie by itself, so handlers that change something ask where a
cookie-authenticated request comes from. The SQL handlers and the admin handlers each have a gate of
their own, and the UI handlers compare with a list made at start; all of them read the `Origin` header,
two of them the `Referer` when there is none.
-/

namespace Harbor.Auth

/-- The address a server listens on and the entries of `harbor_cors_origins`. -/
structure Origins where
  host : Bytes
  port : UInt16
  ipv6 : Bool
  corsAllowedOrigins : List Bytes
  deriving DecidableEq, Repr

/-- `http://host:port`. -/
def httpOrigin (host : Bytes) (port : UInt16) : Bytes :=
  lit "http://" ++ host ++ lit ":" ++ Bytes.decNat port.toNat

/-- `AuthManager::ResolveCorsOrigin`, the field `allowed` of the decision. -/
def Origins.resolveCorsOrigin (origins : Origins) (requestOrigin : Bytes) : Bool :=
  requestOrigin ≠ [] && origins.corsAllowedOrigins.contains requestOrigin

/-- The bind host in the form it has in a URL. -/
def Origins.hostForm (origins : Origins) : Bytes :=
  if origins.ipv6 then lit "[" ++ origins.host ++ lit "]" else origins.host

/-- `IsSameOriginAllowed`. -/
def Origins.isSameOriginAllowed (origins : Origins) (origin : Bytes) : Bool :=
  if origin = [] then false
  else if origin = httpOrigin (lit "localhost") origins.port ∨
      origin = httpOrigin (lit "127.0.0.1") origins.port ∨
      origin = httpOrigin (lit "[::1]") origins.port then true
  else if origins.host ≠ [] ∧ origins.host ≠ lit "0.0.0.0" then
    origin == httpOrigin origins.hostForm origins.port
  else false

/-- `HasAllowedBrowserOrigin` of the SQL handlers. -/
def Origins.hasAllowedBrowserOrigin (origins : Origins) (headers : Headers) : Bool :=
  let origin := getHeaderValue headers (lit "Origin")
  let referer := getHeaderValue headers (lit "Referer")
  if origin ≠ [] then origins.isSameOriginAllowed origin || origins.resolveCorsOrigin origin
  else if referer ≠ [] then
    let start := match Bytes.findFrom referer (lit "://") 0 with
      | none => 0
      | some schemeEnd => schemeEnd + 3
    let refererOrigin := match Bytes.findFrom referer (lit "/") start with
      | none => referer
      | some slash => referer.take slash
    origins.isSameOriginAllowed refererOrigin || origins.resolveCorsOrigin refererOrigin
  else false

/-- `HasAllowedBrowserOriginIfCookie` of the admin handlers. -/
def Origins.hasAllowedBrowserOriginIfCookie (origins : Origins) (headers : Headers)
    (source : AuthSource) : Bool :=
  if source ≠ .cookie then true
  else
    let origin := getHeaderValue headers (lit "Origin")
    let ref := getHeaderValue headers (lit "Referer")
    if origin ≠ [] then origins.resolveCorsOrigin origin
    else if ref = [] then false
    else
      match Bytes.findFrom ref (lit "://") 0 with
      | none => false
      | some pos =>
          match Bytes.findFrom ref (lit "/") (pos + 3) with
          | none => origins.resolveCorsOrigin ref
          | some pathStart => origins.resolveCorsOrigin (ref.take pathStart)

/-- `UiHandlers::ComputeAllowedOrigins`. -/
def Origins.computeAllowedOrigins (origins : Origins) : List Bytes :=
  let loopback := [httpOrigin (lit "localhost") origins.port, httpOrigin (lit "127.0.0.1") origins.port,
    httpOrigin (lit "[::1]") origins.port]
  if origins.host ∈ [[], lit "0.0.0.0", lit "localhost", lit "127.0.0.1", lit "::1"] then loopback
  else loopback ++ [httpOrigin origins.hostForm origins.port]

/-- `UiHandlers::IsAllowedOrigin`. -/
def Origins.isAllowedOrigin (origins : Origins) (origin : Bytes) : Bool :=
  origin ≠ [] && origins.computeAllowedOrigins.contains origin

end Harbor.Auth
