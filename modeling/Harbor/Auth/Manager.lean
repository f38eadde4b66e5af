import Harbor.Auth.Cookie
import Harbor.Lib.SqlName

set_option autoImplicit false

/-! # The authentication manager

`AuthManager` asks DuckDB: it interpolates the name of a callback into `SELECT f(…)` and binds the
values. The names come from the settings, once, when the server starts. Which function such a text
calls is decided by DuckDB's parser and catalog, so it is a parameter (`Database.resolve`); the
functions the extension itself registers are modelled.
-/

namespace Harbor.Auth

/-! ## Callbacks -/

/-- What the query of `EvaluateAuthQuery` comes to. -/
inductive QueryOutcome where
  | prepareError
  | executeError
  | noRows
  /-- The first cell is NULL or not a BOOLEAN. -/
  | notBoolean
  | boolean (value : Bool)
  | throws
  deriving DecidableEq, Repr

/-- `EvaluateAuthQuery`. -/
def evaluateAuthQuery : QueryOutcome → Bool
  | .boolean value => value
  | _ => false

/-- `TimingSafeEqual`. -/
def timingSafeEqual (a b : Bytes) : Bool :=
  if a.length ≠ b.length then false
  else (a.zip b).foldl (fun result (x, y) => result ||| (x ^^^ y)) 0 == 0

/-- The function a `SELECT f(…)` calls: one of the extension's own, or any other one. -/
inductive Callback where
  /-- Registered as `harbor_check_token` and `quack_check_token`. -/
  | quackAuthToken
  /-- Registered as `harbor_nop_authorization` and `quack_nop_authorization`. -/
  | quackDummyAuthorization
  | other (run : List Bytes → QueryOutcome)

/-- The outcome for the bound values. -/
def Callback.run : Callback → List Bytes → QueryOutcome
  | .quackAuthToken, [_, clientToken, serverToken] => .boolean (timingSafeEqual clientToken serverToken)
  | .quackAuthToken, _ => .prepareError
  | .quackDummyAuthorization, [_, _] => .boolean true
  | .quackDummyAuthorization, _ => .prepareError
  | .other run, values => run values

/-! ## Settings and the database -/

/-- The settings the manager reads; `none` is NULL. -/
structure Settings where
  harborAuthenticationFunction : Option Bytes := some []
  quackAuthenticationFunction : Option Bytes := some []
  harborAuthorizationFunction : Option Bytes := some []
  quackAuthorizationFunction : Option Bytes := some []
  harborAllowAdminWithoutAuthz : Option Bool := some false
  deriving DecidableEq, Repr

/-- `GetSettingString`. -/
def getSettingString (setting : Option Bytes) : Bytes := setting.getD []

/-- The database at the time of a call: its settings, and the function that a text calls (`none`
when DuckDB cannot parse or bind it). -/
structure Database where
  settings : Settings := {}
  resolve : Bytes → Option Callback

def Database.query (db : Database) (sql : Bytes) (values : List Bytes) : QueryOutcome :=
  match db.resolve sql with
  | none => .prepareError
  | some callback => callback.run values

/-- `SELECT f(?, ?, ?)`. -/
def authnSql (fnName : Bytes) : Bytes := lit "SELECT " ++ fnName ++ lit "(?, ?, ?)"

/-- `SELECT f(?, ?)`. -/
def authzSql (fnName : Bytes) : Bytes := lit "SELECT " ++ fnName ++ lit "(?, ?)"

/-! ## The names -/

/-- `IsBuiltinNopAuthz`. -/
def isBuiltinNopAuthz (fnName : Bytes) : Bool :=
  if fnName = [] then false
  else
    let name := Bytes.afterLastDot (Bytes.squeeze fnName)
    name == lit "harbor_nop_authorization" || name == lit "quack_nop_authorization"

/-- The lambda `resolve` of the constructor. -/
def resolveName (primary quackAlias : Option Bytes) (defaultName : Bytes) : Bytes :=
  let v := getSettingString primary
  let v := if v = [] then getSettingString quackAlias else v
  if v = [] then defaultName else v

/-! ## The manager -/

/-- The part of an `AuthManager` that is set by its constructor. -/
structure AuthManager where
  serverToken : Bytes
  unauthenticated : Bool
  snapshotAuthnFnName : Bytes := []
  snapshotAuthzFnName : Bytes := []
  snapshotHasCustomAuthnFn : Bool := false
  snapshotHasCustomAuthzFn : Bool := false
  deriving DecidableEq, Repr

/-- `AuthManager::AuthManager`; the database is `none` when it was closed. -/
def AuthManager.new (db : Option Settings) (serverToken : Bytes) (unauthenticated : Bool) :
    AuthManager :=
  match db with
  | none => { serverToken, unauthenticated }
  | some settings =>
      let authn := resolveName settings.harborAuthenticationFunction
        settings.quackAuthenticationFunction (lit "harbor_check_token")
      let authz := resolveName settings.harborAuthorizationFunction
        settings.quackAuthorizationFunction (lit "harbor_nop_authorization")
      { serverToken
        unauthenticated
        snapshotAuthnFnName := authn
        snapshotAuthzFnName := authz
        snapshotHasCustomAuthnFn :=
          authn ≠ lit "harbor_check_token" && authn ≠ lit "quack_check_token"
        snapshotHasCustomAuthzFn := !isBuiltinNopAuthz authz }

/-- `AuthManager::RunAuthentication`. -/
def AuthManager.runAuthentication (auth : AuthManager) (db : Option Database)
    (sessionId clientToken : Bytes) : Bool :=
  if auth.unauthenticated then true
  else
    match db with
    | none => false
    | some db =>
        evaluateAuthQuery (db.query (authnSql auth.snapshotAuthnFnName)
          [sessionId, clientToken, auth.serverToken])

def kAdminPrefix : Bytes := lit "__HARBOR_ADMIN__:"

/-- `AuthManager::RunAuthorization`. -/
def AuthManager.runAuthorization (auth : AuthManager) (db : Option Database)
    (sessionId query : Bytes) : Bool :=
  match db with
  | none => false
  | some db =>
      let allowAdminWithoutAuthz := db.settings.harborAllowAdminWithoutAuthz.getD false
      if (Bytes.startsWith query kAdminPrefix && !auth.snapshotHasCustomAuthzFn) &&
          !allowAdminWithoutAuthz then false
      else evaluateAuthQuery (db.query (authzSql auth.snapshotAuthzFnName) [sessionId, query])

/-! ## The token comparison -/

/-- Or-ing the differences together gives zero exactly when there is none. -/
theorem foldl_xor_eq_zero (a b : Bytes) (result : UInt8) (h : a.length = b.length) :
    (a.zip b).foldl (fun result (x, y) => result ||| (x ^^^ y)) result = 0 ↔
      result = 0 ∧ a = b := by
  induction a generalizing b result with
  | nil =>
      cases b with
      | nil => simp
      | cons y b => simp at h
  | cons x a ih =>
      cases b with
      | nil => simp at h
      | cons y b =>
          have hor : result ||| (x ^^^ y) = 0 ↔ result = 0 ∧ x = y := by
            rw [UInt8.or_eq_zero_iff, UInt8.xor_eq_zero_iff]
          simp only [List.zip_cons_cons, List.foldl_cons, List.cons.injEq]
          rw [ih b _ (by simpa using h), hor, and_assoc]

theorem timingSafeEqual_iff {a b : Bytes} : timingSafeEqual a b = true ↔ a = b := by
  unfold timingSafeEqual
  by_cases h : a.length = b.length
  · rw [if_neg (not_not.mpr h), beq_iff_eq, foldl_xor_eq_zero a b 0 h]
    simp
  · rw [if_pos h]
    simp only [Bool.false_eq_true, false_iff]
    rintro rfl
    exact h rfl

end Harbor.Auth
