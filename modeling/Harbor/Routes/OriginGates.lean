import Harbor.Routes.Mediation

set_option autoImplicit false

/-! # Which changes are behind an origin gate

A browser sends the session cookie along with any request to the server, so a handler should not change
anything for a cookie before it has asked where the request comes from. `/sql`, `/sql/cancel` and the
admin routes ask; the two routes that create and delete a session and the one that logs out do not.
-/

namespace Harbor.Routes

open Harbor.Auth Harbor.Session Prog

variable {deps : Deps} {r : RoutedRequest} {p : Handler Reply}

/-- No gate is ever evaluated on the routes that have none. -/
theorem not_gatePassed {h : Past} (hr : r.ungated = true) (hobeys : Obeys (Ok deps r) h) :
    gatePassed h = false := by
  unfold gatePassed
  rw [List.any_eq_false]
  intro ev hev
  obtain ⟨later, before, rfl⟩ := List.append_of_mem hev
  have hnot := (hobeys.of_append.ungated hr).1
  simp [hnot]

/-- **Which changes are behind a gate.** When a request that was authenticated by the cookie changes
something, the origin gate was evaluated and passed before, unless the route creates or deletes a
session or logs out, and there it never was. -/
theorem originGate_iff {later before : Past} {ev : Event Answer} {result : AuthResult}
    (hr : r.gated = true ∨ r.ungated = true)
    (hgets : Gets Legal (handler deps r) (later ++ ev :: before) p)
    (hcaller : caller (later ++ ev :: before) = some result) (hsource : result.source = .cookie)
    (hchanges : changesState ev = true) :
    gatePassed before = true ↔ r.ungated = false := by
  have hobeys : Obeys (Ok deps r) (later ++ ev :: before) := Ok.of_gets hgets
  constructor
  · intro hpassed
    by_contra hungated
    rw [not_gatePassed (by simpa using hungated) hobeys.before.2] at hpassed
    cases hpassed
  · intro hungated
    have hgated : r.gated = true := by
      apply hr.resolve_right
      simp [hungated]
    obtain ⟨first, hfirst, hgate⟩ := hobeys.of_append.gated hgated hchanges
    have hsame : first = result := by
      have happend := caller_append (caller_cons_of_some hfirst ev) later
      rw [hcaller] at happend
      exact (Option.some.inj happend).symm
    exact hgate (hsame ▸ hsource)

/-! ## A hostile page -/

/-- A server whose policy allows everything, with the signing key of `loginCalls`. -/
def pageWorld : World where
  crypto := loginCrypto
  auth := .new (some { harborAuthorizationFunction := some (lit "allow") }) (lit "secret") false
  origins := ⟨lit "127.0.0.1", 9494, false, []⟩
  db := some { resolve := fun _ => some (.other fun _ => .boolean true) }
  maxSessionsSetting := none
  maxRequestBodySetting := none
  signingKey := (CookieState.run loginCrypto loginCalls).signingKey
  pool := .empty

/-- What the browser sends for a page of another site. -/
def pageRequest : Request where
  headers := [(lit "Origin", lit "https://evil.example"), (lit "Cookie", lit "harbor_session=v1.ZWYxZWE1ZGQyYjI4ZDJjMTI3ZmZiNDFjNTIyYWMxOTc4N2Y0MDhjMTkxOTVjYzJiZWJiNDFlMjI3ZjY2NGU4Ng.MTcwMDA0MzIwMA.AAECAwQFBgcICQoLDA0ODw.d4QYgS4nM2Dve_Ig3b1BAQ35kSaR7slbK70JeqBZduI")]

/-- The caller of `pageRequest`. -/
def cookieCaller : AuthResult where
  ok := true
  principalId := lit "ef1ea5dd2b28d2c127ffb41c522ac19787f408c19195cc2bebb41e227f664e86"
  source := .cookie

def pageSession : HarborSession where
  ref := 0
  sessionId := hexEncode (List.replicate 16 0)
  ownerPrincipalId := cookieCaller.principalId

/-- What the request does, the last call first. -/
def pagePast : Past :=
  [⟨.insertOwned pageSession.sessionId cookieCaller.principalId 1024, .ok pageSession⟩,
    ⟨.readMaxSessions, 1024⟩,
    ⟨.generateSessionId, some pageSession.sessionId⟩,
    ⟨.runAuthorization Sql.kAdminSessionId Sql.kAuthzCreateSession, true⟩,
    ⟨.authenticateRequest pageRequest.headers Sql.kAdminSessionId, cookieCaller⟩]

/-- The server afterwards. -/
def pagedWorld : World :=
  { pageWorld with
    pool := (pageWorld.pool.insertOwned true pageSession.sessionId cookieCaller.principalId 1024).2 }

set_option maxRecDepth 4000 in
/-- The browser sends the cookie of the login. -/
theorem extractCookie_page :
    extractCookie (getHeaderValue pageRequest.headers (lit "Cookie")) (lit "harbor_session") =
      loginCookie.text := by
  have hheader : getHeaderValue pageRequest.headers (lit "Cookie") = lit "harbor_session=v1.ZWYxZWE1ZGQyYjI4ZDJjMTI3ZmZiNDFjNTIyYWMxOTc4N2Y0MDhjMTkxOTVjYzJiZWJiNDFlMjI3ZjY2NGU4Ng.MTcwMDA0MzIwMA.AAECAwQFBgcICQoLDA0ODw.d4QYgS4nM2Dve_Ig3b1BAQ35kSaR7slbK70JeqBZduI" :=
    rfl
  rw [hheader, ← text_login, show lit "harbor_session=v1.ZWYxZWE1ZGQyYjI4ZDJjMTI3ZmZiNDFjNTIyYWMxOTc4N2Y0MDhjMTkxOTVjYzJiZWJiNDFlMjI3ZjY2NGU4Ng.MTcwMDA0MzIwMA.AAECAwQFBgcICQoLDA0ODw.d4QYgS4nM2Dve_Ig3b1BAQ35kSaR7slbK70JeqBZduI" = _ from lit_ofList _,
    show lit "v1.ZWYxZWE1ZGQyYjI4ZDJjMTI3ZmZiNDFjNTIyYWMxOTc4N2Y0MDhjMTkxOTVjYzJiZWJiNDFlMjI3ZjY2NGU4Ng.MTcwMDA0MzIwMA.AAECAwQFBgcICQoLDA0ODw.d4QYgS4nM2Dve_Ig3b1BAQ35kSaR7slbK70JeqBZduI" = _ from lit_ofList _]
  rfl

/-- Whom `AuthenticateRequest` takes the page for, a second before the cookie expires. -/
theorem authenticateRequest_page :
    pageWorld.auth.authenticateRequest
      { crypto := pageWorld.crypto, db := pageWorld.db, signingKey := pageWorld.signingKey
        random := none, now := 1700043199 }
      pageRequest.headers Sql.kAdminSessionId = cookieCaller := by
  have hbearer : getHeaderValue pageRequest.headers (lit "Authorization") = [] := rfl
  have htoken : getHeaderValue pageRequest.headers (lit "X-Harbor-Token") = [] := rfl
  have hheader : getHeaderValue pageRequest.headers (lit "Cookie") ≠ [] := by
    intro hnil
    have htext := extractCookie_page
    rw [hnil] at htext
    exact absurd htext (by decide)
  have htext : loginCookie.text ≠ [] := by decide
  have hverify := verifyCookie_presented (cookieInv_run loginCrypto loginCalls)
    (by rw [issued_login]; exact List.mem_singleton_self _) presents_login none 1700043199
  unfold AuthManager.authenticateRequest
  rw [if_neg (by decide)]
  dsimp only
  rw [hbearer, htoken, if_neg (by decide), if_neg (by decide), extractCookie_page,
    if_pos ⟨hheader, htext⟩]
  exact hverify

theorem pagePast_alone : ∃ p,
    Alone exec pageWorld (handler plainDeps (.sessionNew pageRequest)) pagePast pagedWorld p := by
  have hauthn := authenticateRequest_page
  have hauthz : pageWorld.auth.runAuthorization pageWorld.db Sql.kAdminSessionId
      Sql.kAuthzCreateSession = true := by
    rfl
  have hvalid : isValidPrincipalHex cookieCaller.principalId = true := isValidPrincipalHex_login
  have hstart : Alone exec pageWorld (handler plainDeps (.sessionNew pageRequest)) [] pageWorld
    (handler plainDeps (.sessionNew pageRequest)) := .start
  have hcaller := Alone.answer (v := pageWorld) cookieCaller hstart
    ⟨none, 1700043199, pageWorld.signingKey, hauthn.symm, fun _ => rfl, rfl⟩
  have hallowed := Alone.answer (v := pageWorld) true hcaller ⟨hauthz.symm, rfl⟩
  have hgenerated := Alone.answer (v := pageWorld) (some pageSession.sessionId) hallowed
    ⟨fun _ hid => ⟨Vector.replicate 16 0, (Option.some.inj hid).symm⟩, (fun h => nomatch h), rfl⟩
  have hcreate : Alone exec pageWorld (handler plainDeps (.sessionNew pageRequest)) _ pageWorld
      (Sql.createOwnedSession pageSession.sessionId cookieCaller.principalId >>= _) := hgenerated
  rw [Sql.createOwnedSession, if_pos hvalid] at hcreate
  have hlimit := Alone.answer (e := Call.readMaxSessions) (v := pageWorld) (1024 : Nat) hcreate
    ⟨rfl, rfl⟩
  have hinserted := Alone.answer
    (e := Call.insertOwned pageSession.sessionId cookieCaller.principalId 1024)
    (v := pagedWorld) (Except.ok pageSession) hlimit ⟨_, rfl, rfl⟩
  exact ⟨_, hinserted⟩

theorem originGate_iff_page :
    gatePassed pagePast.tail = true ↔
      (RoutedRequest.sessionNew pageRequest).ungated = false := by
  obtain ⟨p, halone⟩ := pagePast_alone
  exact @originGate_iff plainDeps _ p [] _ _ cookieCaller (Or.inr rfl) (halone.gets legal_of_exec) rfl
    rfl rfl

/-- Both gates turn the page down, and with the cookie alone it makes a session. -/
theorem page_creates_session :
    pageWorld.origins.hasAllowedBrowserOrigin pageRequest.headers = false ∧
      pageWorld.origins.hasAllowedBrowserOriginIfCookie pageRequest.headers .cookie = false ∧
      (∃ p,
        Alone exec pageWorld (handler plainDeps (.sessionNew pageRequest)) pagePast pagedWorld p) ∧
      caller pagePast = some cookieCaller ∧ cookieCaller.source = .cookie ∧
      pagePast.head?.map changesState = some true ∧ gatePassed pagePast.tail = false := by
  have hsql : pageWorld.origins.hasAllowedBrowserOrigin pageRequest.headers = false := by
    rfl
  have hadmin : pageWorld.origins.hasAllowedBrowserOriginIfCookie pageRequest.headers .cookie =
      false := by
    rfl
  exact ⟨hsql, hadmin, pagePast_alone, rfl, rfl, rfl, rfl⟩

end Harbor.Routes
