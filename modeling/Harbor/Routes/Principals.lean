import Harbor.Routes.SessionOwner

set_option autoImplicit false

/-! # Whether the callback can tell callers apart

The authorization callback is asked with a session id and a text, and nothing else. On `/sql` the id is
that of the caller's session, which nobody else can use; in a request without one, and on all the other
routes, it is a constant.
-/

namespace Harbor.Routes

open Harbor.Auth Harbor.Session Prog

/-! ## Requests -/

/-- The two requests are to the same route, one that asks the callback for a caller it has
authenticated. -/
def RoutedRequest.sameRoute : RoutedRequest → RoutedRequest → Bool
  | .sql _, .sql _ | .sessionNew _, .sessionNew _ | .sessionDelete _, .sessionDelete _
  | .sqlCancel _, .sqlCancel _ | .whoami _, .whoami _ | .tables _, .tables _ | .schema _, .schema _
  | .sessions _, .sessions _ | .checkpoint _, .checkpoint _ | .interrupt _, .interrupt _ => true
  | _, _ => false

/-- The SQL of a request to `/sql` whose body can be parsed. -/
def RoutedRequest.sqlText (deps : Deps) : RoutedRequest → Option Bytes
  | .sql req => (deps.parseRequest req.body.flatten).toOption.map SqlRequest.sql
  | _ => none

/-- The session id a request to `/sql` names, in its body or in the header. -/
def RoutedRequest.namedSession (deps : Deps) : RoutedRequest → Bytes
  | .sql req =>
      match deps.parseRequest req.body.flatten with
      | .error _ => []
      | .ok parsed =>
          if parsed.sessionId = [] then req.header (lit "X-Harbor-Session-Id") else parsed.sessionId
  | _ => []

theorem readBody_eq_some {maxBody : Nat} {chunks : List Bytes} :
    ∀ {out body : Bytes}, readBody maxBody out chunks = some body → body = out ++ chunks.flatten := by
  induction chunks with
  | nil =>
      intro out body h
      simpa [readBody, eq_comm] using h
  | cons chunk chunks ih =>
      intro out body h
      unfold readBody at h
      split at h
      · cases h
      · rw [ih h, List.flatten_cons, List.append_assoc]

/-- What `/sql` goes on with is what the request names. -/
theorem sqlRequest_eq_ok {deps : Deps} {req : Request} {maxBody : Nat} {parsed : SqlRequest}
    (h : Sql.sqlRequest deps req maxBody = .ok parsed) :
    (RoutedRequest.sql req).sqlText deps = some parsed.sql ∧
      (RoutedRequest.sql req).namedSession deps = parsed.sessionId := by
  unfold Sql.sqlRequest at h
  cases hread : readBody maxBody [] req.body with
  | none =>
      rw [hread] at h
      cases h
  | some body =>
      have hbody : body = req.body.flatten := readBody_eq_some hread
      rw [hread] at h
      dsimp only at h
      rw [hbody] at h
      cases hparse : deps.parseRequest req.body.flatten with
      | error message =>
          rw [hparse] at h
          cases h
      | ok found =>
          rw [hparse] at h
          dsimp only at h
          split at h
          · cases h
          · cases h
            simp [RoutedRequest.sqlText, RoutedRequest.namedSession, hparse, Except.toOption]

/-! ## Sessions -/

/-- The ids in the map are generated ones. -/
def GeneratedIds (w : World) : Prop := ∀ s ∈ w.pool.active, GeneratedId s.sessionId

theorem generatedIds_of_exec {deps : Deps} {r : RoutedRequest} {w w' : World} {h : Past}
    {ev : Event Answer} (hw : GeneratedIds w) (hok : Ok deps r h ev) (hexec : exec w ev w') :
    GeneratedIds w' := by
  obtain hsub | ⟨sessionId, s, hcall, hid, hactive⟩ |
    ⟨sessionId, owner, m, s, hcall, hid, hactive, -, -⟩ := pool_of_exec hexec
  · exact fun t ht => hw t (hsub.subset ht)
  · intro t ht
    rw [hactive, List.mem_append, List.mem_singleton] at ht
    obtain hold | rfl := ht
    · exact hw t hold
    · exact hid ▸ hok.createsNew sessionId hcall
  · intro t ht
    rw [hactive, List.mem_append, List.mem_singleton] at ht
    obtain hold | rfl := ht
    · exact hw t hold
    · exact hid ▸ (hok.createsOwned sessionId owner m hcall).1

theorem generatedIds_of_run {deps : Deps} {w₀ : World} (hempty : w₀.pool.active = [])
    {c : Config World Call Answer Reply}
    (hrun : Run exec env (fun p => ∃ r, p = handler deps r) w₀ c) : GeneratedIds c.world := by
  have hcall : ∀ w h ev w', GeneratedIds w → (∀ past ∈ h, True) → (∃ r, Ok deps r h ev) →
      exec w ev w' → GeneratedIds w' ∧ True ∧ ∀ past : Event Answer, True → True := by
    rintro w h ev w' hw - ⟨r, hok⟩ hexec
    exact ⟨generatedIds_of_exec hw hok hexec, trivial, fun _ _ => trivial⟩
  have henv : ∀ w w', GeneratedIds w → env w w' →
      GeneratedIds w' ∧ ∀ past : Event Answer, True → True := by
    intro w w' hw henv
    refine ⟨?_, fun _ _ => trivial⟩
    rw [henv.2]
    exact hw
  have hstart : GeneratedIds w₀ := by
    intro s hs
    rw [hempty] at hs
    cases hs
  exact (hrun.invariant legal_of_exec (wp_arrives deps) hcall henv hstart).1

/-- The constant of the SQL routes is not the id of a session. -/
theorem kAdminSessionId_not_generated : ¬ GeneratedId Sql.kAdminSessionId := by
  rintro ⟨bytes, heq⟩
  have hlen := congrArg List.length heq
  rw [length_hexEncode, Vector.length_toList] at hlen
  revert hlen
  decide

/-- A request behind a gate finds the sessions there were when it came, with their owners. -/
theorem found_of_alone {deps : Deps} {r : RoutedRequest} (hr : r.gated = true) {w₀ w : World}
    {h : Past} {p : Handler Reply} (halone : Alone exec w₀ (handler deps r) h w p) :
    w.pool = w₀.pool ∧ ∀ sessionId principalId, h.any (findsOwned sessionId principalId) = true →
      ∃ s ∈ w₀.pool.active, s.sessionId = sessionId ∧ s.ownerPrincipalId = principalId := by
  induction halone with
  | start => exact ⟨rfl, fun _ _ hfound => nomatch hfound⟩
  | @answer h w w' e next a hbefore hexec ih =>
      obtain ⟨hpool, hfound⟩ := ih
      have hobeys := Ok.of_gets ((Alone.answer a hbefore hexec).gets legal_of_exec)
      refine ⟨(samePool_of_exec hexec (hobeys.1.samePool hr)).trans hpool, ?_⟩
      intro sessionId principalId hany
      rw [List.any_cons, Bool.or_eq_true] at hany
      obtain hfinds | hany := hany
      · cases e with
        | lookupOwnedSession id principal =>
            obtain ⟨⟨rfl, rfl⟩, hsome⟩ :
                (id = sessionId ∧ principal = principalId) ∧ a.isSome = true := by
              simpa [findsOwned] using hfinds
            obtain ⟨s, hs⟩ := Option.isSome_iff_exists.mp hsome
            have hlookup := Pool.lookupOwnedSession_eq_some (hexec.1.symm.trans hs)
            rw [hpool] at hlookup
            exact ⟨s, hlookup⟩
        | _ => cases hfinds
      · exact hfound sessionId principalId hany

/-! ## The callback -/

/-- The request is handled from the world `w` on, authenticated as that principal, and asks the callback
for that pair. -/
def AsksAs (deps : Deps) (w : World) (r : RoutedRequest) (principalId sessionId query : Bytes) : Prop :=
  ∃ h w' p result allowed, Alone exec w (handler deps r) h w' p ∧ caller h = some result ∧
    result.principalId = principalId ∧ ⟨.runAuthorization sessionId query, allowed⟩ ∈ h

section

variable {deps : Deps} {w : World} {r : RoutedRequest} {principalId sessionId query : Bytes}

/-- What is asked belongs to the route, and the caller is known by then, if ever a session was looked
up. -/
theorem AsksAs.asksFor (h : AsksAs deps w r principalId sessionId query) :
    ∃ later allowed before w' p result,
      Alone exec w (handler deps r)
        (later ++ ⟨.runAuthorization sessionId query, allowed⟩ :: before) w' p ∧
      caller (later ++ ⟨.runAuthorization sessionId query, allowed⟩ :: before) = some result ∧
      result.principalId = principalId ∧ AsksFor deps r before sessionId query := by
  obtain ⟨h, w', p, result, allowed, halone, hcaller, hprincipal, hmem⟩ := h
  obtain ⟨later, before, rfl⟩ := List.append_of_mem hmem
  have hobeys : Obeys (Ok deps r) _ := Ok.of_gets (halone.gets legal_of_exec)
  exact ⟨later, allowed, before, w', p, result, halone, hcaller, hprincipal,
    (hobeys.of_append.asks sessionId query rfl).2⟩

theorem AsksAs.fixed (h : AsksAs deps w r principalId sessionId query) {pair : Bytes × Bytes}
    (hpair : r.fixedPair = some pair) : pair = (sessionId, query) := by
  obtain ⟨later, allowed, before, w', p, result, -, -, -, hasks⟩ := h.asksFor
  have hfixed : r.fixedPair = some (sessionId, query) := by
    cases r with
    | sql req => cases hpair
    | quack req => cases hpair
    | _ => exact hasks
  rw [hpair] at hfixed
  exact Option.some.inj hfixed

/-- On `/sql` it is the text with the session the request names, which is the caller's, or with a
constant. -/
theorem AsksAs.sql {req : Request} (h : AsksAs deps w (.sql req) principalId sessionId query) :
    (RoutedRequest.sql req).sqlText deps = some query ∧
    (((RoutedRequest.sql req).namedSession deps = [] ∧ sessionId = Sql.kAdminSessionId) ∨
      ((RoutedRequest.sql req).namedSession deps ≠ [] ∧
        ∃ s ∈ w.pool.active, s.sessionId = sessionId ∧ s.ownerPrincipalId = principalId)) := by
  obtain ⟨later, allowed, before, w', p, result, halone, hcaller, hprincipal, maxBody, parsed, hparsed,
    hquery, hsession⟩ := h.asksFor
  obtain ⟨htext, hnamed⟩ := sqlRequest_eq_ok hparsed
  refine ⟨by rw [htext, hquery], ?_⟩
  rw [hnamed]
  obtain ⟨hnone, hconst⟩ | ⟨hsome, -, first, hfirst, hfound⟩ := hsession
  · exact Or.inl ⟨hnone, hconst⟩
  · refine Or.inr ⟨hsome, ?_⟩
    have hsame : first = result := by
      have happend := caller_append (caller_cons_of_some hfirst
        ⟨.runAuthorization sessionId query, allowed⟩) later
      rw [hcaller] at happend
      exact (Option.some.inj happend).symm
    rw [hsame, hprincipal] at hfound
    refine (found_of_alone rfl halone).2 sessionId principalId ?_
    rw [List.any_append, List.any_cons, hfound, Bool.or_true, Bool.or_true]

end

/-- Some callback answers the two pairs differently just when they are different. -/
theorem exists_callback_iff {sessionId₁ query₁ sessionId₂ query₂ : Bytes} :
    (∃ callback : Bytes → Bytes → Bool,
      callback sessionId₁ query₁ = true ∧ callback sessionId₂ query₂ = false) ↔
    (sessionId₁, query₁) ≠ (sessionId₂, query₂) := by
  constructor
  · rintro ⟨callback, hallow, hdeny⟩ heq
    cases heq
    rw [hallow] at hdeny
    cases hdeny
  · intro hne
    refine ⟨fun sessionId query => (sessionId, query) == (sessionId₁, query₁), by simp, ?_⟩
    exact beq_eq_false_iff_ne.mpr (Ne.symm hne)

/-- Two requests to one route ask for the same, or both are requests to `/sql`. -/
theorem sameRoute_cases (deps : Deps) {r₁ r₂ : RoutedRequest} (h : r₁.sameRoute r₂ = true) :
    (∃ req₁ req₂, r₁ = .sql req₁ ∧ r₂ = .sql req₂) ∨
      ∃ pair, r₁.fixedPair = some pair ∧ r₂.fixedPair = some pair ∧
        r₁.namedSession deps = [] ∧ r₂.namedSession deps = [] := by
  cases r₁ <;> cases r₂ <;> first
    | exact absurd h Bool.false_ne_true
    | exact Or.inl ⟨_, _, rfl, rfl⟩
    | exact Or.inr ⟨_, rfl, rfl, rfl, rfl⟩

/-- A session that a request names makes its pair different from that of any other principal. -/
theorem sql_ne {deps : Deps} {w : World} (hids : GeneratedIds w) {req₁ req₂ : Request}
    {principal₁ principal₂ sessionId₁ query₁ sessionId₂ query₂ : Bytes}
    (h₁ : AsksAs deps w (.sql req₁) principal₁ sessionId₁ query₁)
    (h₂ : AsksAs deps w (.sql req₂) principal₂ sessionId₂ query₂) (hne : principal₁ ≠ principal₂)
    (hnamed : (RoutedRequest.sql req₁).namedSession deps ≠ []) : sessionId₁ ≠ sessionId₂ := by
  obtain ⟨hnone, -⟩ | ⟨-, s, hs, hid, howner⟩ := h₁.sql.2
  · exact absurd hnone hnamed
  obtain ⟨-, hconst⟩ | ⟨-, t, ht, htid, htowner⟩ := h₂.sql.2
  · -- The constant is no generated id.
    rintro heq
    apply kAdminSessionId_not_generated
    rw [← hconst, ← heq, ← hid]
    exact hids s hs
  · -- One session has one owner.
    rintro heq
    have hst : s = t := Pool.eq_of_mem hs ht (by rw [hid, htid, heq])
    apply hne
    rw [← howner, ← htowner, hst]

/-- **Whom the callback can tell apart.** From any reachable state on, two principals' requests to the
same route, with the same SQL when it is `/sql`, are told apart by some callback just when the route is
`/sql` and one of the requests names a session. -/
theorem told_apart_iff {deps : Deps} {w₀ : World} (hempty : w₀.pool.active = [])
    {c : Config World Call Answer Reply}
    (hrun : Run exec env (fun p => ∃ r, p = handler deps r) w₀ c) {r₁ r₂ : RoutedRequest}
    (hroute : r₁.sameRoute r₂ = true) (hsql : r₁.sqlText deps = r₂.sqlText deps)
    {principal₁ principal₂ sessionId₁ query₁ sessionId₂ query₂ : Bytes}
    (h₁ : AsksAs deps c.world r₁ principal₁ sessionId₁ query₁)
    (h₂ : AsksAs deps c.world r₂ principal₂ sessionId₂ query₂) (hne : principal₁ ≠ principal₂) :
    (∃ callback : Bytes → Bytes → Bool,
      callback sessionId₁ query₁ = true ∧ callback sessionId₂ query₂ = false) ↔
    r₁.namedSession deps ≠ [] ∨ r₂.namedSession deps ≠ [] := by
  rw [exists_callback_iff]
  have hids := generatedIds_of_run hempty hrun
  obtain ⟨req₁, req₂, rfl, rfl⟩ | ⟨pair, hpair₁, hpair₂, hnone₁, hnone₂⟩ :=
    sameRoute_cases deps hroute
  · constructor
    · intro hpairs
      by_contra hnamed
      push Not at hnamed
      -- Without a session the two pairs are the same.
      obtain ⟨htext₁, ⟨-, hconst₁⟩ | ⟨hsome, -⟩⟩ := h₁.sql
      · obtain ⟨htext₂, ⟨-, hconst₂⟩ | ⟨hsome, -⟩⟩ := h₂.sql
        · apply hpairs
          rw [hsql, htext₂] at htext₁
          rw [hconst₁, hconst₂, Option.some.inj htext₁]
        · exact hsome hnamed.2
      · exact hsome hnamed.1
    · rintro (hnamed | hnamed) heq
      · exact sql_ne hids h₁ h₂ hne hnamed (congrArg Prod.fst heq)
      · exact sql_ne hids h₂ h₁ hne.symm hnamed (congrArg Prod.fst heq).symm
  · have hsame : (sessionId₁, query₁) = (sessionId₂, query₂) :=
      (h₁.fixed hpair₁).symm.trans (h₂.fixed hpair₂)
    refine iff_of_false (fun hpairs => hpairs hsame) ?_
    rintro (hnamed | hnamed)
    · exact hnamed hnone₁
    · exact hnamed hnone₂

/-! ## Two tokens -/

/-- A server with callbacks that accept every token and allow everything, and a hash that keeps two
tokens apart. -/
def tokenWorld : World where
  crypto :=
    { sha256 := fun token => Vector.replicate 32 (if token = lit "alice" then 1 else 2)
      hmacSha256 := fun _ _ => Vector.replicate 32 0 }
  auth := .new (some
    { harborAuthenticationFunction := some (lit "accept")
      harborAuthorizationFunction := some (lit "allow") }) [] false
  origins := ⟨lit "127.0.0.1", 9494, false, []⟩
  db := some { resolve := fun _ => some (.other fun _ => .boolean true) }
  maxSessionsSetting := none
  maxRequestBodySetting := none
  signingKey := []
  pool := .empty

/-- A query without a session. -/
def tokenRequest (token : Bytes) : Request where
  headers := [(lit "Content-Type", lit "application/json"),
    (lit "Authorization", lit "Bearer " ++ token)]
  body := [lit "SELECT 1"]

def tokenCaller (token : Bytes) : AuthResult where
  ok := true
  principalId := principalIdHex tokenWorld.crypto token
  source := .bearer

theorem tokenRequest_asks {token : Bytes}
    (hauthn : tokenWorld.auth.authenticateRequest
      { crypto := tokenWorld.crypto, db := tokenWorld.db, signingKey := [], random := none, now := 0 }
      (tokenRequest token).headers Sql.kAdminSessionId = tokenCaller token)
    (hjson : isJsonContentType ((tokenRequest token).header (lit "Content-Type")) = true) :
    AsksAs plainDeps tokenWorld (.sql (tokenRequest token)) (tokenCaller token).principalId
      Sql.kAdminSessionId (lit "SELECT 1") := by
  have hstart : Alone exec tokenWorld (handler plainDeps (.sql (tokenRequest token))) [] tokenWorld
      (Sql.handleSql plainDeps (tokenRequest token)) := .start
  unfold Sql.handleSql at hstart
  rw [if_pos hjson] at hstart
  have hparsed : Sql.sqlRequest plainDeps (tokenRequest token)
      (readUbigintSetting none kDefaultMaxBodyBytes) = .ok { sql := lit "SELECT 1" } := rfl
  have hbody := Alone.answer (e := Call.maxRequestBodySetting) (v := tokenWorld) none hstart ⟨rfl, rfl⟩
  simp only [Prog.bind, hparsed] at hbody
  have hcaller := Alone.answer (e := Call.authenticateRequest (tokenRequest token).headers
    Sql.kAdminSessionId) (v := tokenWorld) (tokenCaller token) hbody
    ⟨none, 0, [], hauthn.symm, fun h => absurd rfl h, rfl⟩
  have hopen := Alone.answer (v := tokenWorld) true hcaller ⟨rfl, rfl⟩
  have hauthz : tokenWorld.auth.runAuthorization tokenWorld.db Sql.kAdminSessionId
      (lit "SELECT 1") = true := by
    rfl
  have hasked := Alone.answer (v := tokenWorld) true hopen ⟨hauthz.symm, rfl⟩
  exact ⟨_, _, _, tokenCaller token, true, hasked, rfl, rfl, List.mem_cons_self⟩

theorem alice_asks : AsksAs plainDeps tokenWorld (.sql (tokenRequest (lit "alice")))
    (tokenCaller (lit "alice")).principalId Sql.kAdminSessionId (lit "SELECT 1") :=
  tokenRequest_asks (by rfl) (by rfl)

theorem bob_asks : AsksAs plainDeps tokenWorld (.sql (tokenRequest (lit "bob")))
    (tokenCaller (lit "bob")).principalId Sql.kAdminSessionId (lit "SELECT 1") :=
  tokenRequest_asks (by rfl) (by rfl)

theorem told_apart_iff_tokens :
    (∃ callback : Bytes → Bytes → Bool, callback Sql.kAdminSessionId (lit "SELECT 1") = true ∧
      callback Sql.kAdminSessionId (lit "SELECT 1") = false) ↔
    (RoutedRequest.sql (tokenRequest (lit "alice"))).namedSession plainDeps ≠ [] ∨
      (RoutedRequest.sql (tokenRequest (lit "bob"))).namedSession plainDeps ≠ [] := by
  have hrun : Run exec env (fun p => ∃ r, p = handler plainDeps r) tokenWorld ⟨tokenWorld, []⟩ :=
    Relation.ReflTransGen.refl
  exact told_apart_iff rfl hrun (by rfl) (by rfl) alice_asks bob_asks (by decide)

/-- Alice's query and Bob's reach the callback as one and the same question. -/
theorem same_question :
    AsksAs plainDeps tokenWorld (.sql (tokenRequest (lit "alice")))
      (tokenCaller (lit "alice")).principalId Sql.kAdminSessionId (lit "SELECT 1") ∧
    AsksAs plainDeps tokenWorld (.sql (tokenRequest (lit "bob")))
      (tokenCaller (lit "bob")).principalId Sql.kAdminSessionId (lit "SELECT 1") ∧
    (tokenCaller (lit "alice")).principalId ≠ (tokenCaller (lit "bob")).principalId ∧
    ¬ ∃ callback : Bytes → Bytes → Bool, callback Sql.kAdminSessionId (lit "SELECT 1") = true ∧
      callback Sql.kAdminSessionId (lit "SELECT 1") = false := by
  refine ⟨alice_asks, bob_asks, by decide, ?_⟩
  rw [exists_callback_iff]
  exact fun hne => hne rfl

end Harbor.Routes
