import Harbor.Routes.OriginGates

set_option autoImplicit false

/-! # Whose session a request may use

A session made by `CreateOwnedSession` belongs to the principal it was made for. The SQL routes and logout
compare the owner before they use a session or take it out of the map; the binary protocol, which shares
the map, only looks up the id and has authenticated nobody.
-/

namespace Harbor.Routes

open Harbor.Auth Harbor.Session Prog

/-- The call works on sessions of the caller's or on sessions that nobody owns. -/
def OwnersOnly (h : Past) (ev : Event Answer) : Prop :=
  ∀ s ∈ touches ev, s.ownerPrincipalId ≠ [] →
    ∃ result, caller h = some result ∧ result.principalId = s.ownerPrincipalId

/-- The call does not ask for an owned session by its id alone. -/
def NamesNoOwned (w : World) : Call → Prop
  | .getConnection sessionId | .disconnectConnection sessionId =>
      ∀ s, w.pool.find? sessionId = some s → s.ownerPrincipalId = []
  | _ => True

/-- What a lookup by the id alone found is in the map. -/
theorem find?_of_findsById {w w' : World} {ev : Event Answer} {s : HarborSession}
    (hexec : exec w ev w') (hfinds : findsById s ev = true) :
    ∃ sessionId, w.pool.find? sessionId = some s ∧
      (ev.1 = .getConnection sessionId ∨ ev.1 = .disconnectConnection sessionId) := by
  obtain ⟨call, answer⟩ := ev
  cases call with
  | getConnection sessionId =>
      have hfound : answer = some s := by simpa [findsById] using hfinds
      refine ⟨sessionId, ?_, Or.inl rfl⟩
      rw [← hfound]
      exact hexec.1.symm
  | disconnectConnection sessionId =>
      have hremoved : answer = some s := by simpa [findsById] using hfinds
      obtain ⟨pool, heq, -⟩ := hexec
      refine ⟨sessionId, ?_, Or.inr rfl⟩
      have hfst := w.pool.disconnectConnection_fst sessionId
      rw [heq, hremoved] at hfst
      exact hfst.symm
  | _ => simp [findsById] at hfinds

/-- **Sessions stay with their owners.** In every run, whatever the requests, the principals and the
interleaving, in which no message of the binary protocol names the id of an owned session: every request
works on sessions of the principal it was authenticated as, besides those that nobody owns. -/
theorem ownersOnly_of_run {deps : Deps} {w₀ : World} {c : Config World Call Answer Reply}
    (hrun : Run (fun w ev w' => NamesNoOwned w ev.1 ∧ exec w ev w') env
      (fun p => ∃ r, p = handler deps r) w₀ c) :
    ∀ thread ∈ c.threads, Obeys OwnersOnly thread.past := by
  intro thread hthread
  let legal : Event Answer → Prop := fun ev =>
    Legal ev ∧ ∀ s, findsById s ev = true → s.ownerPrincipalId = []
  have hlegal : ∀ w ev w', NamesNoOwned w ev.1 ∧ exec w ev w' → legal ev := by
    intro w ev w' hstep
    refine ⟨legal_of_exec w ev w' hstep.2, fun s hfinds => ?_⟩
    obtain ⟨sessionId, hfind, hcall⟩ := find?_of_findsById hstep.2 hfinds
    have hnames := hstep.1
    obtain hcall | hcall := hcall
    · rw [hcall] at hnames
      exact hnames s hfind
    · rw [hcall] at hnames
      exact hnames s hfind
  obtain ⟨p₀, ⟨r, rfl⟩, hgets⟩ := hrun.gets hlegal thread hthread
  have hobeys : Obeys (Ok deps r) thread.past := Ok.of_gets (hgets.mono fun _ hev => hev.1)
  refine Obeys.mono_legal (fun h ev hpast hok => ?_) hgets.legal_of_mem hobeys
  intro s hs howner
  -- found by id alone, the session would have to be without an owner
  obtain hcaller | hfound := hok.isolated s hs
  · exact hcaller
  · obtain ⟨past, hmem, hfinds⟩ := List.any_eq_true.mp hfound
    exact absurd ((hpast past hmem).2 s hfinds) howner

/-! ## The session of `pagePast` -/

/-- Its owner deletes it. -/
def deleteRequest : Request := { pageRequest with segments := [pageSession.sessionId] }

def deletePast : Past :=
  [⟨.destroyOwnedSession pageSession.sessionId cookieCaller.principalId, some pageSession⟩,
    ⟨.runAuthorization Sql.kAdminSessionId Sql.kAuthzDeleteSession, true⟩,
    ⟨.authenticateRequest deleteRequest.headers Sql.kAdminSessionId, cookieCaller⟩]

theorem ownersOnly_of_run_delete : Obeys OwnersOnly deletePast := by
  have hauthn : pagedWorld.auth.authenticateRequest
      { crypto := pagedWorld.crypto, db := pagedWorld.db, signingKey := pagedWorld.signingKey
        random := none, now := 1700043199 }
      deleteRequest.headers Sql.kAdminSessionId = cookieCaller :=
    authenticateRequest_page
  have hauthz : pagedWorld.auth.runAuthorization pagedWorld.db Sql.kAdminSessionId
      Sql.kAuthzDeleteSession = true := by
    rfl
  have hstart : Alone (fun w ev w' => NamesNoOwned w ev.1 ∧ exec w ev w') pagedWorld
      (handler plainDeps (.sessionDelete deleteRequest)) [] pagedWorld
      (handler plainDeps (.sessionDelete deleteRequest)) := .start
  have hcaller := Alone.answer (v := pagedWorld) cookieCaller hstart
    ⟨trivial, none, 1700043199, pagedWorld.signingKey, hauthn.symm, fun _ => rfl, rfl⟩
  have hallowed := Alone.answer (v := pagedWorld) true hcaller ⟨trivial, hauthz.symm, rfl⟩
  have hdeleted := Alone.answer
    (e := Call.destroyOwnedSession pageSession.sessionId cookieCaller.principalId)
    (v := { pagedWorld with
      pool := (pagedWorld.pool.destroyOwnedSession pageSession.sessionId cookieCaller.principalId).2 })
    (some pageSession) hallowed ⟨trivial, _, rfl, rfl⟩
  have hrun : Run (fun w ev w' => NamesNoOwned w ev.1 ∧ exec w ev w') env
      (fun p => ∃ r, p = handler plainDeps r) pagedWorld _ :=
    Run.alone Relation.ReflTransGen.refl ⟨_, rfl⟩ hdeleted
  exact ownersOnly_of_run hrun _ (List.mem_append_right [] (List.mem_singleton_self _))

/-- Somebody else prepares a query on it. -/
def prepareQuery : Bytes := lit "SELECT * FROM my_temp_table"

def prepareRequest : QuackRequest := ⟨pageSession.sessionId, .prepareRequest prepareQuery⟩

def preparePast : Past :=
  [⟨.sendQuery (.session pageSession) prepareQuery, .ok ⟨[], 0⟩⟩,
    ⟨.lock pageSession, ()⟩,
    ⟨.runAuthorization pageSession.sessionId prepareQuery, true⟩,
    ⟨.getConnection pageSession.sessionId, some pageSession⟩,
    ⟨.lockDatabase, true⟩]

theorem preparePast_alone : ∃ p,
    Alone exec pagedWorld (handler plainDeps (.quack prepareRequest)) preparePast pagedWorld p := by
  have hauthz : pagedWorld.auth.runAuthorization pagedWorld.db pageSession.sessionId prepareQuery =
      true := by
    rfl
  have hstart : Alone exec pagedWorld (handler plainDeps (.quack prepareRequest)) [] pagedWorld
      (handler plainDeps (.quack prepareRequest)) := .start
  have hopen := Alone.answer (v := pagedWorld) true hstart ⟨rfl, rfl⟩
  have hfound := Alone.answer (v := pagedWorld) (some pageSession) hopen ⟨by rfl, rfl⟩
  have hallowed := Alone.answer (v := pagedWorld) true hfound ⟨hauthz.symm, rfl⟩
  have hlocked := Alone.answer (v := pagedWorld) () hallowed rfl
  have hsent := Alone.answer (e := Call.sendQuery (.session pageSession) prepareQuery)
    (v := pagedWorld) (Except.ok ⟨[], 0⟩) hlocked rfl
  exact ⟨_, hsent⟩

/-- A run in which a session is made for its owner, and a message that nobody is authenticated for
executes SQL on its connection. -/
theorem foreign_session_used :
    (∃ p q, Run exec env (fun p => ∃ r, p = handler plainDeps r) pageWorld
      ⟨pagedWorld, [⟨pagePast, p⟩, ⟨preparePast, q⟩]⟩) ∧
    pageSession.ownerPrincipalId = cookieCaller.principalId ∧
    caller preparePast = none ∧ ¬ Obeys OwnersOnly preparePast := by
  obtain ⟨p, hpage⟩ := pagePast_alone
  obtain ⟨q, hprepare⟩ := preparePast_alone
  have hfirst : Run exec env (fun p => ∃ r, p = handler plainDeps r) pageWorld _ :=
    Run.alone Relation.ReflTransGen.refl ⟨_, rfl⟩ hpage
  refine ⟨⟨p, q, hfirst.alone ⟨_, rfl⟩ hprepare⟩, rfl, rfl, fun hobeys => ?_⟩
  obtain ⟨result, hcaller, -⟩ := hobeys.1 pageSession (List.mem_singleton_self _) (by decide)
  cases hcaller

end Harbor.Routes
