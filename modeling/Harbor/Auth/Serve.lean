import Harbor.Auth.Manager

set_option autoImplicit false

/-! # The token rules of `harbor_serve`

`HarborServeBind` decides, from the settings it sees, whether the configured authentication function
is the built-in token check; only then does it demand a token. Which function runs is decided later,
by DuckDB, on the text `SELECT f(?, ?, ?)`. `tokenCheckGuarded_iff` says when the two agree: the
built-in check runs against a token of four or more bytes unless the setting is a spelling of its
name that the exact comparison does not know.
-/

namespace Harbor.Auth

/-! ## Named parameters -/

/-- A named parameter of a table function. -/
inductive NamedParameter (α : Type) where
  | omitted
  | null
  | given (value : α)
  deriving DecidableEq, Repr

/-- The value, the default when the parameter is omitted, and an error for NULL. -/
def NamedParameter.getOr {α : Type} (param : NamedParameter α) (default : α) (nullError : Bytes) :
    Except Bytes α :=
  match param with
  | .omitted => return default
  | .null => throw nullError
  | .given value => return value

/-- The named parameters of `harbor_serve`. -/
structure ServeCall where
  bind : NamedParameter Bytes := .omitted
  port : NamedParameter UInt16 := .omitted
  token : NamedParameter Bytes := .omitted
  deriving DecidableEq, Repr

/-! ## The listen address -/

/-- `HarborUriFromBindPort`. -/
def harborUriFromBindPort (bind : Bytes) (port : UInt16) : Except Bytes Bytes :=
  let host := Bytes.trim bind
  let bracketed := Bytes.startsWith host (lit "[") && host.getLast? == some 0x5D
  if host = [] then throw (lit "harbor_serve: bind must not be empty")
  else if host.count 0x3A = 1 ∧ bracketed = false then
    throw (lit "harbor_serve: bind must be a hostname or IP address only; pass the port with port := ...")
  else
    let host :=
      if 0x3A ∈ host ∧ bracketed = false then lit "[" ++ host ++ lit "]" else host
    return lit "harbor:" ++ host ++ lit ":" ++ Bytes.decNat port.toNat

/-! ## The token -/

/-- `Blob::HEX_TABLE`. -/
def hexTable : Bytes := lit "0123456789ABCDEF"

/-- `HexEncode`. -/
def hexEncode (bytes : Bytes) : Bytes :=
  bytes.flatMap fun (b : UInt8) =>
    [hexTable.getD (b >>> 4).toNat 0, hexTable.getD (b &&& 0x0F).toNat 0]

/-- `kTokenBytes`. -/
abbrev kTokenBytes : Nat := 16

/-- `AuthManager::GenerateRandomToken`, with what the generator gives. -/
def generateRandomToken (random : Vector UInt8 kTokenBytes) : Bytes := hexEncode random.toList

/-- `AuthManager::ValidateToken`. -/
def validateToken (token : Bytes) : Except Bytes Unit :=
  if token.length < 4 then throw (lit "harbor server token must be at least 4 characters long")
  else return ()

/-- The part of the bind data that the server is started with. -/
structure BindData (Uri : Type) where
  listenUri : Uri
  token : Bytes
  unauthenticated : Bool
  deriving DecidableEq, Repr

/-- What `HarborServeBind` computes as `has_custom_authn_fn`. -/
def hasCustomAuthnFn (settings : Settings) : Bool :=
  let fn := getSettingString settings.harborAuthenticationFunction
  let fn := if fn = [] then getSettingString settings.quackAuthenticationFunction else fn
  fn ≠ [] && fn ≠ lit "harbor_check_token" && fn ≠ lit "quack_check_token"

def customAuthnTokenError : Bytes :=
  lit "harbor_serve: token argument is not allowed when a custom " ++
  lit "harbor_authentication_function is configured. The custom " ++
  lit "callback decides credential validity; the static token would " ++
  lit "be dead config.\n" ++
  lit "  - Either omit the `token` argument:\n" ++
  lit "        CALL harbor_serve(bind := '127.0.0.1', port := 9494);\n" ++
  lit "  - Or unset the custom authn function to use static-token auth:\n" ++
  lit "        RESET GLOBAL harbor_authentication_function;\n" ++
  lit "        CALL harbor_serve(bind := '127.0.0.1', port := 9494, token := 'your-secret');"

def emptyTokenError : Bytes :=
  lit "harbor_serve: token := '' is not allowed.\n" ++
  lit "  - To require a static token, pass a non-empty string:\n" ++
  lit "        token := 'your-secret'\n" ++
  lit "  - To auto-generate a token, omit the argument:\n" ++
  lit "        harbor_serve(bind := '127.0.0.1', port := 9494)\n" ++
  lit "  - To disable authentication, pass NULL:\n" ++
  lit "        token := NULL\n" ++
  lit "Empty string is rejected because it is a common result of unset " ++
  lit "environment variables or missing configuration, and would " ++
  lit "otherwise silently disable authentication."

/-- The token rules: the token and whether the server is unauthenticated. -/
def serveToken (settings : Settings) (random : Vector UInt8 kTokenBytes)
    (token : NamedParameter Bytes) : Except Bytes (Bytes × Bool) :=
  if hasCustomAuthnFn settings && token ≠ .omitted then throw customAuthnTokenError
  else
    match token with
    | .omitted =>
        -- With a custom callback no token is made: it would be ignored.
        if hasCustomAuthnFn settings then return ([], false)
        else do
          let generated := generateRandomToken random
          validateToken generated
          return (generated, false)
    | .null => return ([], true)
    | .given tokenStr =>
        if tokenStr = [] then throw emptyTokenError
        else do
          validateToken tokenStr
          return (tokenStr, false)

/-- `HarborServeBind`. The `QuackUri` constructor is `parseUri`. -/
def harborServeBind {Uri : Type} (parseUri : Bytes → Except Bytes Uri) (settings : Settings)
    (random : Vector UInt8 kTokenBytes) (call : ServeCall) : Except Bytes (BindData Uri) := do
  let bind ← call.bind.getOr (lit "127.0.0.1") (lit "harbor_serve: bind must not be NULL")
  let port ← call.port.getOr 9494 (lit "harbor_serve: port must not be NULL")
  let listenUri ← parseUri (← harborUriFromBindPort bind port)
  let (token, unauthenticated) ← serveToken settings random call.token
  return { listenUri, token, unauthenticated }

/-! ## What an accepted call has for a token -/

theorem length_hexEncode (bytes : Bytes) : (hexEncode bytes).length = 2 * bytes.length := by
  induction bytes with
  | nil => rfl
  | cons b bytes ih =>
      unfold hexEncode at ih ⊢
      rw [List.flatMap_cons, List.length_append, ih]
      simp only [List.length_cons, List.length_nil]
      omega

theorem length_generateRandomToken (random : Vector UInt8 kTokenBytes) :
    (generateRandomToken random).length = 32 := by
  have hlen : random.toList.length = 16 := Vector.length_toList
  unfold generateRandomToken
  rw [length_hexEncode, hlen]

theorem validateToken_eq_ok {token : Bytes} {u : Unit} (h : validateToken token = .ok u) :
    4 ≤ token.length := by
  unfold validateToken at h
  by_cases hlen : token.length < 4
  · rw [if_pos hlen] at h
    cases h
  · omega

/-- Without a custom callback an authenticated server has a token; with one it has none. -/
theorem serveToken_cases {settings : Settings} {random : Vector UInt8 kTokenBytes}
    {param : NamedParameter Bytes} {token : Bytes}
    (h : serveToken settings random param = .ok (token, false)) :
    (hasCustomAuthnFn settings = false ∧ 4 ≤ token.length) ∨
    (hasCustomAuthnFn settings = true ∧ token = []) := by
  unfold serveToken at h
  cases hcustom : hasCustomAuthnFn settings with
  | true =>
      cases param with
      | omitted =>
          simp [hcustom, pure, Except.pure] at h
          exact Or.inr ⟨rfl, h⟩
      | null => simp [hcustom, throw, throwThe, MonadExceptOf.throw] at h
      | given tokenStr => simp [hcustom, throw, throwThe, MonadExceptOf.throw] at h
  | false =>
      refine Or.inl ⟨rfl, ?_⟩
      rw [hcustom, if_neg (by simp)] at h
      cases param with
      | omitted =>
          have hlen := length_generateRandomToken random
          have hvalid : validateToken (generateRandomToken random) = .ok () := by
            unfold validateToken
            rw [if_neg (by omega)]
            rfl
          simp only [Bool.false_eq_true, if_false, hvalid] at h
          cases h
          omega
      | null => cases h
      | given tokenStr =>
          dsimp only at h
          split at h
          · cases h
          · cases hvalid : validateToken tokenStr with
            | error message =>
                rw [hvalid] at h
                cases h
            | ok u =>
                rw [hvalid] at h
                cases h
                exact validateToken_eq_ok hvalid

/-- What the bind data of an authenticated server holds. -/
theorem harborServeBind_cases {Uri : Type} {parseUri : Bytes → Except Bytes Uri}
    {settings : Settings} {random : Vector UInt8 kTokenBytes} {call : ServeCall}
    {bindData : BindData Uri} (h : harborServeBind parseUri settings random call = .ok bindData)
    (hauth : bindData.unauthenticated = false) :
    (hasCustomAuthnFn settings = false ∧ 4 ≤ bindData.token.length) ∨
    (hasCustomAuthnFn settings = true ∧ bindData.token = []) := by
  unfold harborServeBind at h
  obtain ⟨bind, -, h⟩ := bind_eq_ok.mp h
  obtain ⟨port, -, h⟩ := bind_eq_ok.mp h
  obtain ⟨uriText, -, h⟩ := bind_eq_ok.mp h
  obtain ⟨uri, -, h⟩ := bind_eq_ok.mp h
  obtain ⟨⟨token, unauthenticated⟩, htoken, h⟩ := bind_eq_ok.mp h
  cases h
  dsimp only at hauth
  subst hauth
  exact serveToken_cases htoken

/-! ## The check against the server token -/

/-- The authentication function the manager takes from the settings. -/
def authnFnName (settings : Settings) : Bytes :=
  resolveName settings.harborAuthenticationFunction settings.quackAuthenticationFunction
    (lit "harbor_check_token")

/-- What the built-in check owes the server when it is the function that runs: a token to compare
with, no other token accepted, and the empty one of a `CONNECTION_REQUEST` refused. -/
def TokenCheckGuarded (auth : AuthManager) (db : Database) : Prop :=
  db.resolve (authnSql auth.snapshotAuthnFnName) = some .quackAuthToken →
    4 ≤ auth.serverToken.length ∧
    (∀ sessionId t, auth.runAuthentication (some db) sessionId t = true →
      t = auth.serverToken ∧ t ≠ []) ∧
    ∀ sessionId, auth.runAuthentication (some db) sessionId [] = false

theorem runAuthentication_quackAuthToken {auth : AuthManager} {db : Database}
    (hauth : auth.unauthenticated = false)
    (hresolve : db.resolve (authnSql auth.snapshotAuthnFnName) = some .quackAuthToken)
    (sessionId t : Bytes) :
    auth.runAuthentication (some db) sessionId t = true ↔ t = auth.serverToken := by
  unfold AuthManager.runAuthentication Database.query
  rw [hauth, if_neg (by simp)]
  simp only [hresolve, Callback.run, evaluateAuthQuery]
  exact timingSafeEqual_iff

/-- A token of four bytes is enough. -/
theorem tokenCheckGuarded_of_le {auth : AuthManager} (hauth : auth.unauthenticated = false)
    (hlen : 4 ≤ auth.serverToken.length) (db : Database) : TokenCheckGuarded auth db := by
  intro hresolve
  have hrun := runAuthentication_quackAuthToken hauth hresolve
  have hne : auth.serverToken ≠ [] := by
    intro h
    rw [h] at hlen
    simp at hlen
  refine ⟨hlen, fun sessionId t ht => ?_, fun sessionId => ?_⟩
  · have heq := (hrun sessionId t).mp ht
    exact ⟨heq, heq ▸ hne⟩
  · rw [← Bool.not_eq_true, hrun]
    exact fun h => hne h.symm

/-- **When the built-in check is guarded.** For a call of `harbor_serve` that was accepted with
authentication on: the check runs against a token of four or more bytes, and the empty token is
refused, iff it is not the function of a setting that the exact comparison of `HarborServeBind` took
for a custom one. -/
theorem tokenCheckGuarded_iff {Uri : Type} {parseUri : Bytes → Except Bytes Uri}
    {settings : Settings} {random : Vector UInt8 kTokenBytes} {call : ServeCall}
    {bindData : BindData Uri} (hbind : harborServeBind parseUri settings random call = .ok bindData)
    (hauth : bindData.unauthenticated = false) (start : Settings) (db : Database) :
    TokenCheckGuarded (.new (some start) bindData.token bindData.unauthenticated) db ↔
      (hasCustomAuthnFn settings = true →
        db.resolve (authnSql (authnFnName start)) ≠ some .quackAuthToken) := by
  have hunauth : (AuthManager.new (some start) bindData.token
      bindData.unauthenticated).unauthenticated = false := hauth
  obtain ⟨hcustom, hlen⟩ | ⟨hcustom, hempty⟩ := harborServeBind_cases hbind hauth
  · -- The default check: the token was made or validated.
    rw [hcustom]
    exact iff_of_true (tokenCheckGuarded_of_le hunauth hlen db) (fun h => by cases h)
  · -- A custom one: the token is empty, so the check must not be what runs.
    constructor
    · intro hguard _ hresolve
      have hlen : 4 ≤ bindData.token.length := (hguard hresolve).1
      rw [hempty] at hlen
      simp at hlen
    · intro hne hresolve
      exact absurd hresolve (hne hcustom)

/-- DuckDB's function lookup for a plain name: the letter case does not matter. -/
def plainNames : Bytes → Option Callback := fun sql =>
  let sql := sql.map Bytes.toLower
  if sql = lit "select harbor_check_token(?, ?, ?)" then some .quackAuthToken
  else if sql = lit "select quack_check_token(?, ?, ?)" then some .quackAuthToken
  else none

def defaultTokenBytes : Vector UInt8 kTokenBytes := Vector.replicate 16 0xA5

theorem tokenCheckGuarded_iff_default :
    TokenCheckGuarded (.new (some {}) (hexEncode (List.replicate 16 0xA5)) false)
        { resolve := plainNames } ↔
      (hasCustomAuthnFn {} = true →
        plainNames (authnSql (authnFnName {})) ≠ some .quackAuthToken) := by
  have hbind : harborServeBind (fun uri => .ok uri) {} defaultTokenBytes {} =
      .ok ⟨lit "harbor:127.0.0.1:9494", hexEncode (List.replicate 16 0xA5), false⟩ := by
    rfl
  exact tokenCheckGuarded_iff hbind rfl {} { resolve := plainNames }

/-- The setting that names the built-in check in capitals. -/
def shoutedSettings : Settings := { harborAuthenticationFunction := some (lit "HARBOR_CHECK_TOKEN") }

/-- The server of `shoutedSettings` has no token, and the empty one opens it. -/
theorem empty_token_accepted :
    harborServeBind (fun uri => .ok uri) shoutedSettings defaultTokenBytes {} =
        .ok ⟨lit "harbor:127.0.0.1:9494", [], false⟩ ∧
      (AuthManager.new (some shoutedSettings) [] false).runAuthentication
        (some { settings := shoutedSettings, resolve := plainNames }) [] [] = true ∧
      ¬ TokenCheckGuarded (.new (some shoutedSettings) [] false)
        { settings := shoutedSettings, resolve := plainNames } := by
  refine ⟨by rfl, by rfl, ?_⟩
  intro hguard
  have hresolve : plainNames (authnSql (authnFnName shoutedSettings)) = some .quackAuthToken := by
    have hsql : (authnSql (authnFnName shoutedSettings)).map Bytes.toLower =
        lit "select harbor_check_token(?, ?, ?)" := by rfl
    unfold plainNames
    rw [hsql]
    rfl
  have hlen : 4 ≤ (0 : Nat) := (hguard hresolve).1
  omega

end Harbor.Auth
