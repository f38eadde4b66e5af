import Harbor.Routes.Rules

set_option autoImplicit false

/-! # Every route keeps to the rules

The programs of the handlers, gone through once. A piece of a handler that works on a connection needs
`Ready` for it; the beginnings of the handlers earn it.
-/

namespace Harbor.Routes

open Harbor.Auth Harbor.Session Prog

section Keeps

variable {deps : Deps} {r : RoutedRequest} {h : Past} {conn : Conn}

/-- Every call of the piece keeps to the rules. -/
abbrev Keeps (deps : Deps) (r : RoutedRequest) (h : Past) {α : Type} (p : Handler α) : Prop :=
  wp Legal (Ok deps r) h p fun _ _ => True

/-! ## On a connection -/

theorem wp_fetchAll (hready : Ready r conn h) (n : Nat) :
    wp Legal (Ok deps r) h (Sql.fetchAll conn n) fun h _ => Ready r conn h := by
  induction n generalizing h with
  | zero => exact hready
  | succ n ih =>
      unfold Sql.fetchAll
      rw [wp_bind]
      refine wp_onConn hready rfl rfl fun a hready => ?_
      cases a with
      | error what => exact hready
      | ok u => exact ih hready

theorem keeps_executeError (parsed : SqlRequest) (status : Nat) (message : Bytes) :
    Keeps deps r h (Sql.executeError parsed status message) := by
  unfold Sql.executeError
  refine wp_bind.mpr (wp_plain rfl fun a _ => ?_)
  cases a <;> exact True.intro

theorem keeps_respondRows (hready : Ready r conn h) (req : Request) (parsed : SqlRequest)
    (result : QueryResult) : Keeps deps r h (Sql.respondRows req parsed conn result) := by
  unfold Sql.respondRows
  refine wp_bind.mpr (wp_mono (fun _ _ _ hok => hok) (fun h a _ => ?_)
    (wp_fetchAll hready result.fetches))
  cases a with
  | ok u => exact True.intro
  | error what =>
      dsimp only
      split
      · exact keeps_executeError parsed 500 what
      · exact True.intro

theorem keeps_executePrepared (hready : Ready r conn h) {parsed : SqlRequest}
    (hauth : authorized parsed.sql h = true) (req : Request) (statement : SqlStatement) :
    Keeps deps r h (Sql.executePrepared req parsed conn statement) := by
  unfold Sql.executePrepared
  refine wp_bind.mpr (wp_onConn_sql hready rfl rfl (fun _ => hauth) fun a hready => ?_)
  cases a with
  | error message => exact keeps_executeError parsed 400 message
  | ok result =>
      dsimp only
      split
      · exact keeps_respondRows hready req parsed result
      · exact wp_bind.mpr (wp_onConn hready rfl rfl fun _ _ => True.intro)

theorem keeps_bindParameters (hready : Ready r conn h) {parsed : SqlRequest}
    (hauth : authorized parsed.sql h = true) (req : Request) (statement : SqlStatement) :
    Keeps deps r h (Sql.bindParameters req parsed conn statement) := by
  unfold Sql.bindParameters
  refine wp_bind.mpr (wp_onConn hready rfl rfl fun a hready => ?_)
  have hauth := any_cons_of_any hauth ⟨.expectedParameterTypes conn, a⟩
  cases a with
  | error what => exact True.intro
  | ok expectedTypes =>
      dsimp only
      split
      · refine wp_bind.mpr (wp_onConn hready rfl rfl fun a hready => ?_)
        cases a with
        | error message => exact True.intro
        | ok u => exact keeps_executePrepared hready (any_cons_of_any hauth _) req statement
      · split
        · exact True.intro
        · exact keeps_executePrepared hready hauth req statement

/-- From the connection on, `/sql` first asks for the text. -/
theorem keeps_runSql (hready : Ready r conn h) {parsed : SqlRequest}
    (hui : ∀ req, r ≠ .uiRun req)
    (hasks : ∀ ev, AsksFor deps r (ev :: h)
      (if parsed.sessionId = [] then Sql.kAdminSessionId else parsed.sessionId) parsed.sql)
    (req : Request) : Keeps deps r h (Sql.runSql req parsed conn) := by
  unfold Sql.runSql
  refine wp_bind.mpr (wp_plain rfl fun isOpen _ => ?_)
  have hready := hready.cons ⟨.lockDatabase, isOpen⟩
  cases isOpen with
  | false => exact True.intro
  | true =>
      refine wp_bind.mpr fun allowed _ => ⟨.runAuthorization hui (hasks _), ?_⟩
      cases allowed with
      | false => exact True.intro
      | true =>
          have hauth := authorized_cons (h := ⟨.lockDatabase, true⟩ :: h)
            (if parsed.sessionId = [] then Sql.kAdminSessionId else parsed.sessionId) parsed.sql
          refine wp_bind.mpr (wp_onConn (hready.cons _) rfl rfl fun a hready => ?_)
          have hauth := any_cons_of_any hauth ⟨.extractStatements conn parsed.sql, a⟩
          match a, hready, hauth with
          | .error what, _, _ => exact True.intro
          | .ok [], _, _ => exact True.intro
          | .ok (_ :: _ :: _), _, _ => exact True.intro
          | .ok [statement], hready, hauth =>
              dsimp only
              by_cases htransaction : conn = .ephemeral ∧ Sql.beginsTransaction parsed.sql = true
              · rw [if_pos htransaction]
                exact True.intro
              · rw [if_neg htransaction]
                refine wp_bind.mpr (wp_onConn_sql hready rfl rfl (fun _ => hauth)
                  fun a hready => ?_)
                cases a with
                | error message => exact True.intro
                | ok u => exact keeps_bindParameters hready (any_cons_of_any hauth _) req statement

/-! ## POST /sql -/

/-- Behind the gate a caller with a cookie has passed it. -/
theorem wp_originGate (hr : r.ungated = false) {result : AuthResult} (hcaller : caller h = some result)
    (req : Request) :
    wp Legal (Ok deps r) h (Sql.originGate req result.source) fun h allowed =>
      caller h = some result ∧
        (allowed = true → result.source = .cookie → gatePassed h = true) := by
  unfold Sql.originGate
  by_cases hsource : result.source = .cookie
  · rw [if_pos hsource]
    intro allowed _
    refine ⟨.gate hr rfl, caller_cons_of_some hcaller _, fun hallowed _ => ?_⟩
    simp [gatePassed, passesGate, hallowed]
  · rw [if_neg hsource]
    exact ⟨hcaller, fun _ h => absurd h hsource⟩

theorem keeps_resolveSession {req : Request} {parsed : SqlRequest} {maxBody : Nat}
    (hparsed : Sql.sqlRequest deps req maxBody = .ok parsed) {result : AuthResult}
    (hcaller : caller h = some result) (hgate : result.source = .cookie → gatePassed h = true) :
    Keeps deps (.sql req) h (Sql.resolveSession req parsed result.principalId) := by
  unfold Sql.resolveSession
  by_cases hsession : parsed.sessionId = []
  · rw [if_pos hsession]
    have hready : Ready (.sql req) .ephemeral h :=
      { changes := rfl
        isolated := fun s hs => nomatch hs
        gated := fun _ => ⟨result, hcaller, hgate⟩ }
    refine keeps_runSql hready (fun _ h => nomatch h) (fun ev => ?_) req
    rw [if_pos hsession]
    exact ⟨maxBody, parsed, hparsed, rfl, Or.inl ⟨hsession, rfl⟩⟩
  · rw [if_neg hsession]
    refine wp_bind.mpr (wp_plain rfl fun found hfound => ?_)
    cases found with
    | none => exact True.intro
    | some s =>
        -- the session that was found is the caller's own
        obtain ⟨-, howner⟩ := hfound s rfl
        refine wp_bind.mpr (wp_plain rfl fun locked _ => ?_)
        cases locked with
        | false => exact True.intro
        | true =>
            have hcaller' := caller_append hcaller [⟨.tryLock s, true⟩,
              ⟨.lookupOwnedSession parsed.sessionId result.principalId, some s⟩]
            have hready : Ready (.sql req) (.session s) (⟨.tryLock s, true⟩ ::
                ⟨.lookupOwnedSession parsed.sessionId result.principalId, some s⟩ :: h) :=
              { changes := rfl
                isolated := fun s' hs => by
                  cases hs
                  exact Or.inl ⟨result, hcaller', howner.symm⟩
                gated := fun _ => ⟨result, hcaller', fun hs =>
                  any_cons_of_any (any_cons_of_any (hgate hs) _) _⟩ }
            refine keeps_runSql hready (fun _ h => nomatch h) (fun ev => ?_) req
            rw [if_neg hsession]
            refine ⟨maxBody, parsed, hparsed, rfl, Or.inr ⟨hsession, rfl, result,
              caller_cons_of_some hcaller' ev, ?_⟩⟩
            simp [findsOwned]

theorem keeps_handleSql (req : Request) :
    Keeps deps (.sql req) [] (Sql.handleSql deps req) := by
  unfold Sql.handleSql
  split
  · refine wp_bind.mpr (wp_plain rfl fun setting _ => ?_)
    cases hparsed : Sql.sqlRequest deps req (readUbigintSetting setting kDefaultMaxBodyBytes) with
    | error reply => exact True.intro
    | ok parsed =>
        refine wp_bind.mpr (wp_plain rfl fun authn _ => ?_)
        split
        · rename_i hok
          have hcaller := caller_authenticated (h := [⟨.maxRequestBodySetting, setting⟩]) rfl hok
            req.headers Sql.kAdminSessionId
          refine wp_bind.mpr (wp_mono (fun _ _ _ hok => hok) (fun h allowed hgate => ?_)
            (wp_originGate rfl hcaller req))
          cases allowed with
          | false => exact True.intro
          | true => exact keeps_resolveSession hparsed hgate.1 (hgate.2 rfl)
        · exact True.intro
  · exact True.intro

/-! ## Sessions -/

/-- The caller may become the owner of a new session with a generated id. -/
theorem Ok.insertOwned (hr : r.gated = false) {sessionId owner : Bytes} {maxSessions : Nat}
    {created : Except CreateError HarborSession} (hid : GeneratedId sessionId)
    (hmax : h.any (readsMax maxSessions) = true) {result : AuthResult}
    (hcaller : caller h = some result) (howner : result.principalId = owner) :
    Ok deps r h ⟨.insertOwned sessionId owner maxSessions, created⟩ where
  mediated _ _ hsql := nomatch hsql
  asks _ _ hcall := nomatch hcall
  isolated _ hs := nomatch hs
  gated hgated := by
    rw [hr] at hgated
    cases hgated
  ungated _ := ⟨rfl, fun _ => ⟨result, hcaller⟩⟩
  samePool hgated := by
    rw [hr] at hgated
    cases hgated
  createsNew _ hcall := nomatch hcall
  createsOwned _ _ _ hcall := by
    cases hcall
    exact ⟨hid, hmax, result, hcaller, howner⟩

/-- `CreateOwnedSession` never comes back with the complaint about the owner for a good one. -/
theorem wp_createOwnedSession (hr : r.gated = false) {sessionId : Bytes} (hid : GeneratedId sessionId)
    {result : AuthResult} (hcaller : caller h = some result) :
    wp Legal (Ok deps r) h (Sql.createOwnedSession sessionId result.principalId) fun _ created =>
      created = .error .invalidOwner ↔ isValidPrincipalHex result.principalId = false := by
  unfold Sql.createOwnedSession
  by_cases hvalid : isValidPrincipalHex result.principalId = true
  · rw [if_pos hvalid]
    refine wp_bind.mpr (wp_plain rfl fun maxSessions _ => ?_)
    intro created hlegal
    refine ⟨.insertOwned hr hid (by simp [readsMax]) (caller_cons_of_some hcaller _) rfl, ?_⟩
    exact iff_of_false hlegal.2 (by simp [hvalid])
  · rw [if_neg hvalid]
    exact iff_of_true rfl (by simpa using hvalid)

theorem keeps_handleSessionNew (req : Request) :
    Keeps deps (.sessionNew req) [] (Sql.handleSessionNew req) := by
  unfold Sql.handleSessionNew
  refine wp_bind.mpr (wp_plain rfl fun authn _ => ?_)
  split
  · rename_i hok
    have hcaller := caller_authenticated (h := []) rfl hok req.headers Sql.kAdminSessionId
    refine wp_bind.mpr fun allowed _ => ⟨.runAuthorization (fun _ h => nomatch h) rfl, ?_⟩
    cases allowed with
    | false => exact True.intro
    | true =>
        refine wp_bind.mpr (wp_plain rfl fun generated hgenerated => ?_)
        cases generated with
        | none => exact True.intro
        | some sessionId =>
            refine wp_bind.mpr (wp_mono (fun _ _ _ hok => hok) (fun h created _ => ?_)
              (wp_createOwnedSession rfl (hgenerated sessionId rfl) (caller_append hcaller [_, _])))
            cases created <;> exact True.intro
  · exact True.intro

theorem keeps_handleSessionDelete (req : Request) :
    Keeps deps (.sessionDelete req) [] (Sql.handleSessionDelete req) := by
  unfold Sql.handleSessionDelete
  refine wp_bind.mpr (wp_plain rfl fun authn _ => ?_)
  split
  · rename_i hok
    have hcaller := caller_authenticated (h := []) rfl hok req.headers Sql.kAdminSessionId
    refine wp_bind.mpr fun allowed _ => ⟨.runAuthorization (fun _ h => nomatch h) rfl, ?_⟩
    cases allowed with
    | false => exact True.intro
    | true =>
        dsimp only
        split
        · exact True.intro
        · have hcaller := caller_cons_of_some hcaller
            ⟨.runAuthorization Sql.kAdminSessionId Sql.kAuthzDeleteSession, true⟩
          refine wp_bind.mpr fun taken hlegal => ⟨?_, by cases taken <;> exact True.intro⟩
          exact
            { mediated := fun _ _ hsql => nomatch hsql
              asks := fun _ _ hcall => nomatch hcall
              isolated := fun s hs => by
                have hsome : taken = some s := by
                  simpa [touches, Call.session?, Call.conn?, removed] using hs
                exact Or.inl ⟨authn, hcaller, (hlegal s hsome).2.symm⟩
              gated := fun hgated => nomatch hgated
              ungated := fun _ => ⟨rfl, fun _ => ⟨authn, hcaller⟩⟩
              samePool := fun hgated => nomatch hgated
              createsNew := fun _ hcall => nomatch hcall
              createsOwned := fun _ _ _ hcall => nomatch hcall }
  · exact True.intro

/-- An interrupt names its session by id; the caller has passed the gate. -/
theorem Ok.interruptSession (hr : r.ungated = false) {sessionId : Bytes} {found : Bool}
    {result : AuthResult} (hcaller : caller h = some result)
    (hgate : result.source = .cookie → gatePassed h = true) :
    Ok deps r h ⟨.interruptSession sessionId, found⟩ where
  mediated _ _ hsql := nomatch hsql
  asks _ _ hcall := nomatch hcall
  isolated _ hs := nomatch hs
  gated _ _ := ⟨result, hcaller, hgate⟩
  ungated hungated := by
    rw [hr] at hungated
    cases hungated
  samePool _ := rfl
  createsNew _ hcall := nomatch hcall
  createsOwned _ _ _ hcall := nomatch hcall

theorem keeps_cancelSession (hr : r.ungated = false) {result : AuthResult}
    (hcaller : caller h = some result) (hgate : result.source = .cookie → gatePassed h = true)
    (req : Request) : Keeps deps r h (Sql.cancelSession req) := by
  unfold Sql.cancelSession
  split
  · refine wp_bind.mpr (wp_plain rfl fun setting _ => ?_)
    cases readBody (readUbigintSetting setting kDefaultMaxBodyBytes) [] req.body with
    | none => exact True.intro
    | some body =>
        dsimp only
        split
        · exact True.intro
        · refine wp_bind.mpr fun found _ => ⟨.interruptSession hr (caller_cons_of_some hcaller _)
            (fun hs => any_cons_of_any (hgate hs) _), ?_⟩
          cases found <;> exact True.intro
  · exact True.intro

theorem keeps_handleSqlCancel (req : Request) :
    Keeps deps (.sqlCancel req) [] (Sql.handleSqlCancel req) := by
  unfold Sql.handleSqlCancel
  refine wp_bind.mpr (wp_plain rfl fun authn _ => ?_)
  split
  · rename_i hok
    have hcaller := caller_authenticated (h := []) rfl hok req.headers Sql.kAdminSessionId
    refine wp_bind.mpr (wp_mono (fun _ _ _ hok => hok) (fun h passed hgate => ?_)
      (wp_originGate rfl hcaller req))
    cases passed with
    | false => exact True.intro
    | true =>
        refine wp_bind.mpr fun allowed _ => ⟨.runAuthorization (fun _ h => nomatch h) rfl, ?_⟩
        cases allowed with
        | false => exact True.intro
        | true =>
            exact keeps_cancelSession rfl (caller_cons_of_some hgate.1 _)
              (fun hs => any_cons_of_any (hgate.2 rfl hs) _) req
  · exact True.intro

/-! ## The admin routes and logout -/

/-- A query of the server's own; only the checkpoint changes something. -/
theorem Ok.ownQuery (hr : r.ungated = false) {sql : Bytes} {outcome : Except Bytes QueryResult}
    (hgate : sql = Admin.checkpointSql → ∃ result, caller h = some result ∧
      (result.source = .cookie → gatePassed h = true)) :
    Ok deps r h ⟨.ownQuery sql, outcome⟩ where
  mediated _ _ hsql := nomatch hsql
  asks _ _ hcall := nomatch hcall
  isolated _ hs := nomatch hs
  gated _ hchanges := hgate (by simpa [changesState] using hchanges)
  ungated hungated := by
    rw [hr] at hungated
    cases hungated
  samePool _ := rfl
  createsNew _ hcall := nomatch hcall
  createsOwned _ _ _ hcall := nomatch hcall

theorem keeps_ownQuery (hr : r.ungated = false) {sql : Bytes} (hsql : sql ≠ Admin.checkpointSql)
    (route failure : Bytes) : Keeps deps r h (Admin.ownQuery sql route failure) := by
  unfold Admin.ownQuery
  refine wp_bind.mpr (wp_plain rfl fun isOpen _ => ?_)
  cases isOpen with
  | false => exact True.intro
  | true =>
      refine wp_bind.mpr fun outcome _ => ⟨.ownQuery hr fun h => absurd h hsql, ?_⟩
      cases outcome with
      | ok result => exact True.intro
      | error message =>
          refine wp_bind.mpr (wp_plain rfl fun timedOut _ => ?_)
          cases timedOut <;> exact True.intro

/-- The GET routes ask for what belongs to them. -/
theorem keeps_authorized (hui : ∀ req, r ≠ .uiRun req) {query : Bytes}
    (hasks : ∀ h, AsksFor deps r h Admin.kAdminSessionId query) {rest : Handler Reply}
    (hrest : ∀ h, Keeps deps r h rest) (req : Request) :
    Keeps deps r [] (Admin.authorized req query rest) := by
  unfold Admin.authorized
  refine wp_bind.mpr (wp_plain rfl fun authn _ => ?_)
  split
  · refine wp_bind.mpr fun allowed _ => ⟨.runAuthorization hui (hasks _), ?_⟩
    cases allowed with
    | false => exact True.intro
    | true => exact hrest _
  · exact True.intro

/-- The POST routes have passed the gate before. -/
theorem keeps_authorizedPost (hr : r.ungated = false) (hui : ∀ req, r ≠ .uiRun req) {query : Bytes}
    (hasks : ∀ h, AsksFor deps r h Admin.kAdminSessionId query) {rest : Handler Reply}
    (hrest : ∀ h result, caller h = some result →
      (result.source = .cookie → gatePassed h = true) → Keeps deps r h rest)
    (req : Request) (route : Bytes) :
    Keeps deps r [] (Admin.authorizedPost req route query rest) := by
  unfold Admin.authorizedPost
  refine wp_bind.mpr (wp_plain rfl fun authn _ => ?_)
  split
  · rename_i hok
    have hcaller := caller_authenticated (h := []) rfl hok req.headers Admin.kAdminSessionId
    refine wp_bind.mpr fun passed _ => ⟨.gate hr rfl, ?_⟩
    cases passed with
    | false => exact True.intro
    | true =>
        refine wp_bind.mpr fun allowed _ => ⟨.runAuthorization hui (hasks _), ?_⟩
        cases allowed with
        | false => exact True.intro
        | true =>
            refine hrest _ authn (caller_append hcaller [_, _]) fun _ => ?_
            simp [gatePassed, passesGate]
  · exact True.intro

theorem keeps_checkpoint (hr : r.ungated = false) {result : AuthResult}
    (hcaller : caller h = some result) (hgate : result.source = .cookie → gatePassed h = true) :
    Keeps deps r h Admin.checkpoint := by
  unfold Admin.checkpoint
  refine wp_bind.mpr (wp_plain rfl fun isOpen _ => ?_)
  cases isOpen with
  | false => exact True.intro
  | true =>
      refine wp_bind.mpr fun outcome _ => ⟨.ownQuery hr fun _ => ⟨result,
        caller_cons_of_some hcaller _, fun hs => any_cons_of_any (hgate hs) _⟩, ?_⟩
      cases outcome with
      | ok result => exact True.intro
      | error message =>
          refine wp_bind.mpr (wp_plain rfl fun timedOut _ => ?_)
          cases timedOut with
          | true => exact True.intro
          | false =>
              rw [if_neg (by simp)]
              split <;> exact True.intro

theorem keeps_checkpointBody (hr : r.ungated = false) {result : AuthResult}
    (hcaller : caller h = some result) (hgate : result.source = .cookie → gatePassed h = true)
    (req : Request) : Keeps deps r h (Admin.checkpointBody req) := by
  unfold Admin.checkpointBody
  dsimp only
  split
  · split
    · refine wp_bind.mpr (wp_plain rfl fun setting _ => ?_)
      cases readBody (readMaxBodyBytes setting) [] req.body with
      | none => exact True.intro
      | some body =>
          exact keeps_checkpoint hr (caller_cons_of_some hcaller _)
            fun hs => any_cons_of_any (hgate hs) _
    · exact True.intro
  · exact keeps_checkpoint hr hcaller hgate

theorem keeps_interrupt (hr : r.ungated = false) {result : AuthResult}
    (hcaller : caller h = some result) (hgate : result.source = .cookie → gatePassed h = true)
    (req : Request) : Keeps deps r h (Admin.interrupt req) := by
  unfold Admin.interrupt
  split
  · refine wp_bind.mpr (wp_plain rfl fun setting _ => ?_)
    cases readBody (readMaxBodyBytes setting) [] req.body with
    | none => exact True.intro
    | some body =>
        dsimp only
        split
        · exact True.intro
        · refine wp_bind.mpr fun found _ => ⟨.interruptSession hr (caller_cons_of_some hcaller _)
            (fun hs => any_cons_of_any (hgate hs) _), ?_⟩
          cases found <;> exact True.intro
  · exact True.intro

theorem keeps_handleLogout (req : Request) :
    Keeps deps (.logout req) [] (Admin.handleLogout req) := by
  unfold Admin.handleLogout
  dsimp only
  split
  · refine wp_bind.mpr (wp_plain rfl fun authn _ => ?_)
    split
    · rename_i hok
      have hcaller := caller_authenticated (h := []) rfl hok.1 req.headers Admin.kLoginSessionId
      refine wp_bind.mpr fun taken hlegal => ⟨?_, True.intro⟩
      exact
        { mediated := fun _ _ hsql => nomatch hsql
          asks := fun _ _ hcall => nomatch hcall
          isolated := fun s hs => Or.inl ⟨authn, hcaller, (hlegal s hs).symm⟩
          gated := fun hgated => nomatch hgated
          ungated := fun _ => ⟨rfl, fun _ => ⟨authn, hcaller⟩⟩
          samePool := fun hgated => nomatch hgated
          createsNew := fun _ hcall => nomatch hcall
          createsOwned := fun _ _ _ hcall => nomatch hcall }
    · exact True.intro
  · exact True.intro

/-! ## Quack -/

/-- A session found by its id, for the routes without a gate to pass. -/
theorem Ready.ofFound (hr : r.ungated = false) (hgated : r.gated = false) {s : HarborSession}
    (hfound : foundById s h = true) : Ready r (.session s) h where
  changes := hr
  isolated s' hs := by
    cases hs
    exact Or.inr hfound
  gated hg := by
    rw [hgated] at hg
    cases hg

theorem keeps_createBatch {s : HarborSession} (hready : Ready r (.session s) h)
    (result : QueryResult) : Keeps deps r h (Quack.createBatch s result) := by
  unfold Quack.createBatch
  refine wp_bind.mpr (wp_mono (fun _ _ _ hok => hok) (fun h a _ => ?_)
    (wp_fetchAll hready result.fetches))
  cases a <;> exact True.intro

theorem keeps_handleConnection {req : QuackRequest} (version : Nat) (authString : Bytes) :
    Keeps deps (.quack req) h (Quack.handleConnection version authString) := by
  unfold Quack.handleConnection
  split
  · exact True.intro
  · refine wp_bind.mpr (wp_plain rfl fun generated hgenerated => ?_)
    cases generated with
    | none => exact True.intro
    | some sessionId =>
        refine wp_bind.mpr (wp_plain rfl fun accepted _ => ?_)
        cases accepted with
        | false => exact True.intro
        | true =>
            refine wp_bind.mpr fun created _ => ⟨?_, by cases created <;> exact True.intro⟩
            exact
              { mediated := fun _ _ hsql => nomatch hsql
                asks := fun _ _ hcall => nomatch hcall
                isolated := fun _ hs => nomatch hs
                gated := fun hgated => nomatch hgated
                ungated := fun hungated => nomatch hungated
                samePool := fun hgated => nomatch hgated
                createsNew := fun _ hcall => by
                  cases hcall
                  exact hgenerated sessionId rfl
                createsOwned := fun _ _ _ hcall => nomatch hcall }

theorem keeps_handlePrepare {req : QuackRequest} {s : HarborSession}
    (hready : Ready (.quack req) (.session s) h) (connectionId query : Bytes) :
    Keeps deps (.quack req) h (Quack.handlePrepare connectionId s query) := by
  unfold Quack.handlePrepare
  refine wp_bind.mpr fun allowed _ => ⟨.runAuthorization (fun _ h => nomatch h) True.intro, ?_⟩
  cases allowed with
  | false => exact True.intro
  | true =>
      have hauth := authorized_cons (h := h) connectionId query
      refine wp_bind.mpr (wp_plain rfl fun u _ => ?_)
      have hready := (hready.cons ⟨.runAuthorization connectionId query, true⟩).cons ⟨.lock s, u⟩
      refine wp_bind.mpr (wp_onConn_sql hready rfl rfl (fun _ => any_cons_of_any hauth _)
        fun a hready => ?_)
      cases a with
      | error message => exact True.intro
      | ok result =>
          dsimp only
          split
          · exact True.intro
          · exact keeps_createBatch hready result

theorem keeps_handleFetch {req : QuackRequest} {s : HarborSession}
    (hready : Ready (.quack req) (.session s) h) (uuid : Nat) :
    Keeps deps (.quack req) h (Quack.handleFetch s uuid) := by
  unfold Quack.handleFetch
  refine wp_bind.mpr (wp_plain rfl fun u _ => ?_)
  refine wp_bind.mpr (wp_plain rfl fun found _ => ?_)
  cases found with
  | error message => exact True.intro
  | ok result => exact keeps_createBatch ((hready.cons _).cons _) result

theorem keeps_handleAppend {req : QuackRequest} {s : HarborSession}
    (hready : Ready (.quack req) (.session s) h) (connectionId schemaName tableName : Bytes) :
    Keeps deps (.quack req) h (Quack.handleAppend deps connectionId s schemaName tableName) := by
  unfold Quack.handleAppend
  refine wp_bind.mpr fun allowed _ => ⟨.runAuthorization (fun _ h => nomatch h) True.intro, ?_⟩
  cases allowed with
  | false => exact True.intro
  | true =>
      refine wp_bind.mpr (wp_plain rfl fun u _ => ?_)
      refine wp_bind.mpr (wp_onConn ((hready.cons _).cons _) rfl rfl fun a _ => ?_)
      cases a <;> exact True.intro

theorem keeps_handleDisconnect {req : QuackRequest} (s : HarborSession) :
    Keeps deps (.quack req) h (Quack.handleDisconnect s) := by
  unfold Quack.handleDisconnect
  refine wp_bind.mpr fun taken _ => ⟨?_, by cases taken <;> exact True.intro⟩
  exact
    { mediated := fun _ _ hsql => nomatch hsql
      asks := fun _ _ hcall => nomatch hcall
      isolated := fun s' hs => by
        have hsome : taken = some s' := by
          simpa [touches, Call.session?, Call.conn?, removed] using hs
        refine Or.inr ?_
        simp [foundById, findsById, hsome]
      gated := fun hgated => nomatch hgated
      ungated := fun hungated => nomatch hungated
      samePool := fun hgated => nomatch hgated
      createsNew := fun _ hcall => nomatch hcall
      createsOwned := fun _ _ _ hcall => nomatch hcall }

theorem keeps_withConnection {req : QuackRequest} {rest : HarborSession → Handler Reply}
    (hrest : ∀ h s, Ready (.quack req) (.session s) h → Keeps deps (.quack req) h (rest s))
    (connectionId : Bytes) :
    Keeps deps (.quack req) h (Quack.withConnection connectionId rest) := by
  unfold Quack.withConnection
  refine wp_bind.mpr (wp_plain rfl fun found _ => ?_)
  cases found with
  | none => exact True.intro
  | some s =>
      refine hrest _ s (.ofFound rfl rfl ?_)
      simp [foundById, findsById]

theorem keeps_handleMessage (req : QuackRequest) :
    Keeps deps (.quack req) [] (Quack.handleMessage deps req) := by
  unfold Quack.handleMessage
  refine wp_bind.mpr (wp_plain rfl fun isOpen _ => ?_)
  cases isOpen with
  | false => exact True.intro
  | true =>
      rw [if_pos rfl]
      cases req.message with
      | unsupported => exact True.intro
      | connectionRequest version authString => exact keeps_handleConnection version authString
      | disconnect => exact keeps_withConnection (fun h s _ => keeps_handleDisconnect s) _
      | prepareRequest query =>
          exact keeps_withConnection (fun h s hready => keeps_handlePrepare hready _ query) _
      | fetchRequest uuid =>
          exact keeps_withConnection (fun h s hready => keeps_handleFetch hready uuid) _
      | appendRequest schemaName tableName =>
          exact keeps_withConnection
            (fun h s hready => keeps_handleAppend hready _ schemaName tableName) _

/-! ## The UI -/

section UiRun

variable {req : Request}

theorem wp_runEarlier (hready : Ready (.uiRun req) conn h) (content : Bytes) (index n : Nat) :
    wp Legal (Ok deps (.uiRun req)) h (Ui.runEarlier conn content index n)
      fun h _ => Ready (.uiRun req) conn h := by
  induction n generalizing h index with
  | zero => exact hready
  | succ n ih =>
      unfold Ui.runEarlier
      refine wp_bind.mpr (wp_onConn_sql hready rfl rfl (fun hui => absurd rfl (hui req))
        fun a hready => ?_)
      cases a with
      | error message => exact hready
      | ok result => exact ih hready (index + 1)

theorem keeps_fetchRows (hready : Ready (.uiRun req) conn h) (outcome : Except Bytes QueryResult) :
    Keeps deps (.uiRun req) h (Ui.fetchRows conn outcome) := by
  unfold Ui.fetchRows
  cases outcome with
  | error message => exact True.intro
  | ok result =>
      refine wp_bind.mpr (wp_mono (fun _ _ _ hok => hok) (fun h a _ => ?_)
        (wp_fetchAll hready result.fetches))
      cases a <;> exact True.intro

theorem keeps_runLast (hready : Ready (.uiRun req) conn h) (options : UiOptions) (content : Bytes)
    (index : Nat) : Keeps deps (.uiRun req) h (Ui.runLast options conn content index) := by
  unfold Ui.runLast
  split
  · refine wp_bind.mpr (wp_onConn_sql hready rfl rfl (fun hui => absurd rfl (hui req))
      fun a hready => ?_)
    cases a with
    | error message => exact True.intro
    | ok u =>
        exact wp_bind.mpr (wp_onConn_sql hready rfl rfl (fun hui => absurd rfl (hui req))
          fun outcome hready => keeps_fetchRows hready outcome)
  · exact wp_bind.mpr (wp_onConn_sql hready rfl rfl (fun hui => absurd rfl (hui req))
      fun outcome hready => keeps_fetchRows hready outcome)

theorem keeps_runContent (hready : Ready (.uiRun req) conn h) (options : UiOptions)
    (content : Bytes) : Keeps deps (.uiRun req) h (Ui.runContent options conn content) := by
  unfold Ui.runContent
  refine wp_bind.mpr (wp_onConn hready rfl rfl fun a hready => ?_)
  cases a with
  | error message => exact True.intro
  | ok statements =>
      dsimp only
      split
      · exact True.intro
      · refine wp_bind.mpr (wp_mono (fun _ _ _ hok => hok) (fun h a hready => ?_)
          (wp_runEarlier hready content 0 (statements.length - 1)))
        cases a with
        | error message => exact True.intro
        | ok u => exact keeps_runLast hready options content _

theorem keeps_handleRun (req : Request) :
    Keeps deps (.uiRun req) [] (Ui.handleRun deps req) := by
  unfold Ui.handleRun
  refine wp_bind.mpr (wp_plain rfl fun allowed _ => ?_)
  cases allowed with
  | false => exact True.intro
  | true =>
      refine wp_bind.mpr (wp_plain rfl fun authn _ => ?_)
      split
      · cases deps.uiOptions req.headers with
        | error what => exact True.intro
        | ok options =>
            refine wp_bind.mpr (wp_plain rfl fun isOpen _ => ?_)
            cases isOpen with
            | false => exact True.intro
            | true =>
                refine keeps_runContent ?_ options _
                exact
                  { changes := rfl
                    isolated := fun s hs => nomatch hs
                    gated := fun hgated => nomatch hgated }
      · exact True.intro

end UiRun

/-! ## Every route -/

/-- **Every route keeps to the rules.** -/
theorem wp_handler (deps : Deps) (r : RoutedRequest) : Keeps deps r [] (handler deps r) := by
  have hui : ∀ {r : RoutedRequest}, r.gated = true → ∀ req, r ≠ .uiRun req := by
    rintro r hr req rfl
    cases hr
  cases r with
  | sql req => exact keeps_handleSql req
  | sessionNew req => exact keeps_handleSessionNew req
  | sessionDelete req => exact keeps_handleSessionDelete req
  | sqlCancel req => exact keeps_handleSqlCancel req
  | logout req => exact keeps_handleLogout req
  | whoami req => exact keeps_authorized (hui rfl) (fun _ => by rfl) (fun _ => by exact True.intro) req
  | tables req =>
      exact keeps_authorized (hui rfl) (fun _ => by rfl)
        (fun _ => keeps_ownQuery rfl (by decide) _ _) req
  | schema req =>
      refine keeps_authorized (hui rfl) (fun _ => by rfl) (fun _ => ?_) req
      split
      · exact True.intro
      · exact keeps_ownQuery rfl (by decide) _ _
  | sessions req =>
      exact keeps_authorized (hui rfl) (fun _ => by rfl)
        (fun _ => wp_bind.mpr (wp_plain rfl fun _ _ => by exact True.intro)) req
  | checkpoint req =>
      exact keeps_authorizedPost rfl (hui rfl) (fun _ => by rfl)
        (fun _ _ hcaller hgate => keeps_checkpointBody rfl hcaller hgate req) req _
  | interrupt req =>
      exact keeps_authorizedPost rfl (hui rfl) (fun _ => by rfl)
        (fun _ _ hcaller hgate => keeps_interrupt rfl hcaller hgate req) req _
  | quack req => exact keeps_handleMessage req
  | uiRun req => exact keeps_handleRun req

/-- Whichever route a request is to, its calls keep to the rules of some route. -/
theorem wp_arrives (deps : Deps) (p : Handler Reply) (hp : ∃ r, p = handler deps r) :
    wp Legal (fun h ev => ∃ r, Ok deps r h ev) [] p fun _ _ => True := by
  obtain ⟨r, rfl⟩ := hp
  exact wp_mono (fun h ev _ hok => ⟨r, hok⟩) (fun _ _ _ => trivial) (wp_handler deps r)

/-- Whatever a request has done so far, every call of it kept to the rules. -/
theorem Ok.of_gets {p : Handler Reply} (hgets : Gets Legal (handler deps r) h p) :
    Obeys (Ok deps r) h :=
  hgets.obeys (wp_handler deps r)

end Keeps

end Harbor.Routes
