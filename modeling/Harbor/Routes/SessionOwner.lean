import Harbor.Routes.SessionLimit

set_option autoImplicit false

/-! # Whether a caller can own a session

`AuthenticateRequest` names a principal, and `CreateOwnedSession` takes it as the owner of a session when
it is 64 lowercase hexadecimal digits. Tokens and cookies give such principals. Unauthenticated mode
lets everybody in as `harbor.local-dev`.
-/

namespace Harbor.Routes

open Harbor.Auth Harbor.Session Prog

/-- An answer that a server with this manager gives in some state. -/
def AnswersOf (auth : AuthManager) (ev : Event Answer) : Prop :=
  ∃ w w', w.auth = auth ∧ exec w ev w'

/-- Whoever is let in has a principal that can own a session, and the request that makes one fails for
other reasons only. -/
structure UsablePrincipals (auth : AuthManager) : Prop where
  principal : ∀ (ctx : AuthContext) (headers : Headers) (syntheticSessionId : Bytes),
    (auth.authenticateRequest ctx headers syntheticSessionId).ok = true →
    isValidPrincipalHex (auth.authenticateRequest ctx headers syntheticSessionId).principalId = true
  sessionNew : ∀ (deps : Deps) (req : Request) (h : Past) (reply : Reply),
    Gets (AnswersOf auth) (handler deps (.sessionNew req)) h (.done reply) →
    (caller h).isSome = true → authorized Sql.kAuthzCreateSession h = true →
    (∃ sessionId, reply = Sql.respondSession sessionId) ∨
      ∃ error, error ≠ .invalidOwner ∧ reply = Sql.createFailed error

/-- Callers have principals of the right shape. -/
def NamesValid : Event Answer → Prop
  | ⟨.authenticateRequest _ _, result⟩ =>
      result.ok = true → isValidPrincipalHex result.principalId = true
  | _ => True

theorem namesValid_of_answersOf {auth : AuthManager} (hauth : auth.unauthenticated = false)
    {ev : Event Answer} (h : AnswersOf auth ev) : NamesValid ev := by
  obtain ⟨call, answer⟩ := ev
  obtain ⟨w, w', rfl, hexec⟩ := h
  cases call with
  | authenticateRequest headers syntheticSessionId =>
      obtain ⟨random, now, signingKey, rfl, -, -⟩ := hexec
      exact authenticateRequest_principal hauth
  | _ => trivial

/-- `CreateOwnedSession` does not complain about a valid owner. -/
theorem wp_createOwnedSession_valid {h : Past} {sessionId owner : Bytes}
    (hvalid : isValidPrincipalHex owner = true) :
    wp (fun ev => Legal ev ∧ NamesValid ev) (fun _ _ => True) h (Sql.createOwnedSession sessionId owner)
      fun _ created => created ≠ .error .invalidOwner := by
  unfold Sql.createOwnedSession
  rw [if_pos hvalid]
  refine wp_perform_bind.mpr fun maxSessions _ => ⟨trivial, ?_⟩
  intro created hlegal
  exact ⟨trivial, hlegal.1.2⟩

/-- A new session fails for another reason than its owner. -/
theorem wp_handleSessionNew (req : Request) :
    wp (fun ev => Legal ev ∧ NamesValid ev) (fun _ _ => True) [] (Sql.handleSessionNew req)
      fun h reply => (caller h).isSome = true → authorized Sql.kAuthzCreateSession h = true →
        (∃ sessionId, reply = Sql.respondSession sessionId) ∨
          ∃ error, error ≠ .invalidOwner ∧ reply = Sql.createFailed error := by
  unfold Sql.handleSessionNew
  refine wp_perform_bind.mpr fun authn hauthn => ⟨trivial, ?_⟩
  by_cases hok : authn.ok = true
  · rw [if_pos hok]
    refine wp_perform_bind.mpr fun allowed _ => ⟨trivial, ?_⟩
    cases allowed with
    | false =>
        intro _ hauthorized
        simp [authorized, allows] at hauthorized
    | true =>
        refine wp_perform_bind.mpr fun generated _ => ⟨trivial, ?_⟩
        cases generated with
        | none => exact fun _ _ => Or.inr ⟨.databaseClosed, by simp, rfl⟩
        | some sessionId =>
            refine wp_bind.mpr (wp_mono (fun _ _ _ _ => trivial) (fun h created hcreated => ?_)
              (wp_createOwnedSession_valid (hauthn.2 hok)))
            cases created with
            | error error =>
                refine fun _ _ => Or.inr ⟨error, fun hinvalid => ?_, rfl⟩
                exact hcreated (hinvalid ▸ rfl)
            | ok s => exact fun _ _ => Or.inl ⟨sessionId, rfl⟩
  · rw [if_neg hok]
    intro hcaller
    simp [caller, callerOf, hok] at hcaller

/-- **Who can own a session.** Every caller can, by whatever credential and with whatever callbacks,
unless the server runs in unauthenticated mode. -/
theorem usablePrincipals_iff (auth : AuthManager) :
    UsablePrincipals auth ↔ auth.unauthenticated = false := by
  constructor
  · intro husable
    by_contra hauth
    have hauth : auth.unauthenticated = true := by simpa using hauth
    let ctx : AuthContext :=
      { crypto := loginCrypto, db := none, signingKey := [], random := none, now := 0 }
    have hvalid := husable.principal ctx [] []
    rw [authenticateRequest_localDev hauth] at hvalid
    have hinvalid := localDevPrincipalId_invalid
    rw [hvalid rfl] at hinvalid
    cases hinvalid
  · intro hauth
    constructor
    · intro ctx headers syntheticSessionId hok
      exact authenticateRequest_principal hauth hok
    · intro deps req h reply hgets
      refine Gets.result (hgets.mono fun ev hev => ?_) (wp_handleSessionNew req)
      obtain ⟨w, w', -, hexec⟩ := id hev
      exact ⟨legal_of_exec w ev w' hexec, namesValid_of_answersOf hauth hev⟩

/-! ## Unauthenticated mode -/

/-- A server that lets everybody in, with a policy that allows everything. -/
def localDevWorld : World :=
  { pageWorld with
    auth := .new (some { harborAuthorizationFunction := some (lit "allow") }) [] true }

def localDevCaller : AuthResult where
  ok := true
  principalId := localDevPrincipalId
  source := .localDev

/-- What a request for a session does there, the last call first. -/
def localDevPast : Past :=
  [⟨.generateSessionId, some pageSession.sessionId⟩,
    ⟨.runAuthorization Sql.kAdminSessionId Sql.kAuthzCreateSession, true⟩,
    ⟨.authenticateRequest [] Sql.kAdminSessionId, localDevCaller⟩]

/-- The caller is let in and authorized, and gets a 500 for the shape of its own principal. -/
theorem localDev_owns_nothing :
    isValidPrincipalHex localDevCaller.principalId = false ∧
      caller localDevPast = some localDevCaller ∧
      authorized Sql.kAuthzCreateSession localDevPast = true ∧
      Alone exec localDevWorld (handler plainDeps (.sessionNew {})) localDevPast localDevWorld
        (.done (Sql.createFailed .invalidOwner)) ∧
      (∃ body, Sql.createFailed .invalidOwner = .http ⟨500, lit "application/json", body⟩) := by
  have hauthn : localDevWorld.auth.authenticateRequest
      { crypto := localDevWorld.crypto, db := localDevWorld.db, signingKey := localDevWorld.signingKey
        random := none, now := 0 }
      [] Sql.kAdminSessionId = localDevCaller := rfl
  have hauthz : localDevWorld.auth.runAuthorization localDevWorld.db Sql.kAdminSessionId
      Sql.kAuthzCreateSession = true := by
    rfl
  have hstart : Alone exec localDevWorld (handler plainDeps (.sessionNew {})) [] localDevWorld
    (handler plainDeps (.sessionNew {})) := .start
  have hcaller := Alone.answer (v := localDevWorld) localDevCaller hstart
    ⟨none, 0, localDevWorld.signingKey, hauthn.symm, fun _ => rfl, rfl⟩
  have hallowed := Alone.answer (v := localDevWorld) true hcaller ⟨hauthz.symm, rfl⟩
  have hgenerated := Alone.answer (v := localDevWorld) (some pageSession.sessionId) hallowed
    ⟨fun _ hid => ⟨Vector.replicate 16 0, (Option.some.inj hid).symm⟩, (fun h => nomatch h), rfl⟩
  have hinvalid : ¬ isValidPrincipalHex localDevCaller.principalId = true := by
    rw [localDevCaller, localDevPrincipalId_invalid]
    exact Bool.false_ne_true
  simp only [Prog.bind, Sql.createOwnedSession, if_neg hinvalid] at hgenerated
  exact ⟨localDevPrincipalId_invalid, rfl, by rfl, hgenerated, _, rfl⟩

end Harbor.Routes
