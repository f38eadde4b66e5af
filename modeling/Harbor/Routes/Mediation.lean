import Harbor.Routes.Keeps

set_option autoImplicit false

/-! # Which SQL is authorized

A text of the client's should reach a DuckDB connection only after the authorization callback was asked
for it and allowed it. `/sql` and `/quack` do so; `/ddb/run` never asks.
-/

namespace Harbor.Routes

open Harbor.Auth Harbor.Session Prog

variable {deps : Deps} {r : RoutedRequest} {h : Past} {p : Handler Reply}

/-- In a past without an authorization no text is authorized. -/
theorem not_authorized {sql : Bytes}
    (hasks : ∀ ev ∈ h, ∀ sessionId query, ev.1 ≠ .runAuthorization sessionId query) :
    authorized sql h = false := by
  unfold authorized
  rw [List.any_eq_false]
  rintro ⟨call, answer⟩ hev
  cases call with
  | runAuthorization sessionId query => exact absurd rfl (hasks _ hev sessionId query)
  | _ => simp [allows]

/-- The UI's run handler never asks the callback. -/
theorem uiRun_never_asks {req : Request} (hobeys : Obeys (Ok deps (.uiRun req)) h) :
    ∀ ev ∈ h, ∀ sessionId query, ev.1 ≠ .runAuthorization sessionId query := by
  intro ev hev sessionId query hcall
  obtain ⟨later, before, rfl⟩ := List.append_of_mem hev
  exact (hobeys.of_append.asks sessionId query hcall).1 req rfl

/-- **Where mediation is complete.** Whatever the callback, the configuration and the sessions are: a
text that a request hands to a connection was authorized by the calls it made before, unless the request
is one to `/ddb/run`, and there it never was. -/
theorem mediated_iff {later before : Past} {ev : Event Answer} {sql : Bytes}
    (hgets : Gets Legal (handler deps r) (later ++ ev :: before) p)
    (hsql : ev.1.clientSql? = some sql) :
    authorized sql before = true ↔ ∀ req, r ≠ .uiRun req := by
  have hobeys : Obeys (Ok deps r) (later ++ ev :: before) := Ok.of_gets hgets
  constructor
  · rintro hauth req rfl
    have hnever := uiRun_never_asks hobeys
    rw [not_authorized fun ev' hev' => hnever ev' (by simp [hev'])] at hauth
    cases hauth
  · intro hui
    exact hobeys.of_append.mediated hui sql hsql

/-! ## A text that was denied -/

/-- The functions a server of these settings knows: the built-in token check, and a policy that denies
everything. -/
def denyAll : Bytes → Option Callback := fun sql =>
  if sql = lit "SELECT harbor_check_token(?, ?, ?)" then some .quackAuthToken
  else if sql = lit "SELECT deny(?, ?)" then some (.other fun _ => .boolean false)
  else none

def denySettings : Settings := { harborAuthorizationFunction := some (lit "deny") }

/-- A server with a token, and the policy that denies everything. -/
def denyWorld : World where
  crypto := ⟨fun _ => Vector.replicate 32 0, fun _ _ => Vector.replicate 32 0⟩
  auth := .new (some denySettings) (lit "secret") false
  origins := ⟨lit "127.0.0.1", 9494, false, []⟩
  db := some { settings := denySettings, resolve := denyAll }
  maxSessionsSetting := none
  maxRequestBodySetting := none
  signingKey := []
  pool := .empty

def dropRequest : Request where
  headers := [(lit "Origin", lit "http://localhost:9494"), (lit "Authorization", lit "Bearer secret")]
  body := [lit "DROP TABLE t"]

def plainDeps : Deps where
  parseRequest body := .ok { sql := body }
  sqlIdentifier name := name
  uiOptions _ := .ok {}

/-- The caller of `dropRequest`. -/
def secretCaller : AuthResult where
  ok := true
  principalId := bytesToHex (List.replicate 32 0)
  source := .bearer

/-- The connection the UI keeps for that caller. -/
def dropConn : Conn :=
  .ui (Ui.scopedConnectionKey secretCaller.principalId
    (dropRequest.header (lit "X-DuckDB-UI-Connection-Name")))

/-- What the request does, the last call first. -/
def dropPast : Past :=
  [⟨.runStatement dropConn dropRequest.body.flatten 0, .ok ⟨[], 0⟩⟩,
    ⟨.extractStatements dropConn dropRequest.body.flatten, .ok [⟨.other, false⟩]⟩,
    ⟨.lockDatabase, true⟩,
    ⟨.authenticateRequest dropRequest.headers (lit "__HARBOR_AUTH__:ddb"), secretCaller⟩,
    ⟨.isAllowedOrigin (dropRequest.header (lit "Origin")), true⟩]

theorem dropPast_alone :
    ∃ p, Alone exec denyWorld (handler plainDeps (.uiRun dropRequest)) dropPast denyWorld p := by
  have horigin : denyWorld.origins.isAllowedOrigin (dropRequest.header (lit "Origin")) = true := by
    rfl
  have hauthn : denyWorld.auth.authenticateRequest
      { crypto := denyWorld.crypto, db := denyWorld.db, signingKey := [], random := none, now := 0 }
      dropRequest.headers (lit "__HARBOR_AUTH__:ddb") = secretCaller := by
    rfl
  have hstart : Alone exec denyWorld (handler plainDeps (.uiRun dropRequest)) [] denyWorld
    (handler plainDeps (.uiRun dropRequest)) := .start
  have hgate := Alone.answer (v := denyWorld) true hstart ⟨horigin.symm, rfl⟩
  have hcaller := Alone.answer (v := denyWorld) secretCaller hgate
    ⟨none, 0, [], hauthn.symm, fun h => absurd rfl h, rfl⟩
  have hopen := Alone.answer (v := denyWorld) true hcaller ⟨rfl, rfl⟩
  have hparsed := Alone.answer (v := denyWorld) (.ok [⟨.other, false⟩]) hopen rfl
  have hran := Alone.answer (e := Call.runStatement dropConn dropRequest.body.flatten 0)
    (v := denyWorld) (Except.ok ⟨[], 0⟩) hparsed rfl
  exact ⟨_, hran⟩

theorem mediated_iff_drop :
    authorized dropRequest.body.flatten dropPast.tail = true ↔
      ∀ req, RoutedRequest.uiRun dropRequest ≠ .uiRun req := by
  obtain ⟨p, halone⟩ := dropPast_alone
  exact @mediated_iff plainDeps _ p [] _ _ _ (halone.gets legal_of_exec) rfl

/-- The callback denies every text to everybody, and the UI executes one all the same. -/
theorem denied_text_executed :
    (∀ sessionId query, denyWorld.auth.runAuthorization denyWorld.db sessionId query = false) ∧
      (∃ p, Alone exec denyWorld (handler plainDeps (.uiRun dropRequest)) dropPast denyWorld p) ∧
      (∃ sql, dropPast.head?.bind (fun ev => ev.1.clientSql?) = some sql ∧
        authorized sql dropPast.tail = false) := by
  refine ⟨?_, dropPast_alone, dropRequest.body.flatten, rfl, by rfl⟩
  intro sessionId query
  have hdeny : denyAll (authzSql denyWorld.auth.snapshotAuthzFnName) =
      some (.other fun _ => .boolean false) := by
    have hsql : authzSql denyWorld.auth.snapshotAuthzFnName = lit "SELECT deny(?, ?)" := by
      rfl
    unfold denyAll
    rw [hsql]
    rfl
  unfold AuthManager.runAuthorization Database.query
  dsimp only [denyWorld] at hdeny ⊢
  rw [hdeny]
  exact ite_self false

end Harbor.Routes
