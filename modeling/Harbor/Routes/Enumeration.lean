import Harbor.Routes.Isolation

set_option autoImplicit false

/-! # What a principal can learn about the sessions of others

Two runs of the same requests of one principal, on maps that hold the same sessions of that principal
and any other sessions besides. The calls outside of the map (the callbacks, the engine, the locks)
are answered alike in both. `no_session_enumeration`: `/sql`, the deletion of a session and logout then go
the same way call by call, answer the same, and do the same to the sessions of the principal and nothing
to the others.
-/

namespace Harbor.Routes

open Harbor.Auth Harbor.Session Prog

/-! ## Logout with its body -/

/-- The body of logout: how many sessions were destroyed, if any were. -/
def logoutResponse (destroyed : Nat) : HttpResponse :=
  ⟨200, lit "application/json",
    if destroyed > 0 then
      lit "\x7b\"ok\":true,\"destroyedSessions\":" ++ Bytes.decNat destroyed ++ lit "\x7d"
    else lit "\x7b\"ok\":true\x7d"⟩

/-- `AuthHandlers::HandleLogout` with the response it writes. -/
def logout (req : Request) : Handler Reply :=
  let destroyParam := req.param (lit "destroy_sessions")
  if Bytes.lower destroyParam = lit "true" ∨ destroyParam = lit "1" then do
    let authn ← perform (.authenticateRequest req.headers Admin.kLoginSessionId)
    if authn.ok ∧ authn.principalId ≠ [] then do
      let destroyed ← perform (.destroyAllOwnedBy authn.principalId)
      return .http (logoutResponse destroyed.length)
    else return .http (logoutResponse 0)
  else return .http (logoutResponse 0)

/-- `Admin.handleLogout` is `logout` without the body. -/
theorem handleLogout_eq (req : Request) :
    Admin.handleLogout req = logout req >>= fun _ => pure .success := by
  unfold Admin.handleLogout logout
  dsimp only
  split
  · show Prog.call _ _ = Prog.call _ _
    congr 1
    funext authn
    simp only [Prog.bind]
    by_cases hcaller : authn.ok = true ∧ authn.principalId ≠ []
    · rw [if_pos hcaller, if_pos hcaller]
      rfl
    · rw [if_neg hcaller, if_neg hcaller]
      rfl
  · rfl

/-- The requests that resolve a session id, delete a session, or log out. -/
inductive SessionRequest where
  | sql (req : Request)
  | sessionDelete (req : Request)
  | logout (req : Request)
  deriving DecidableEq, Repr

def SessionRequest.handler (deps : Deps) : SessionRequest → Handler Reply
  | .sql req => Sql.handleSql deps req
  | .sessionDelete req => Sql.handleSessionDelete req
  | .logout req => Routes.logout req

/-! ## What a principal sees of the map -/

/-- The maps hold the same sessions of the principal. -/
def SameOwn (p : Bytes) (w w' : World) : Prop :=
  ∀ s : HarborSession, s.ownerPrincipalId = p → (s ∈ w.pool.active ↔ s ∈ w'.pool.active)

/-- The maps hold the same sessions of all others. -/
def SameForeign (p : Bytes) (w w' : World) : Prop :=
  ∀ s : HarborSession, s.ownerPrincipalId ≠ p → (s ∈ w.pool.active ↔ s ∈ w'.pool.active)

/-- The calls on the map. -/
def Call.usesPool : Call → Bool
  | .createNewConnection _ | .insertOwned _ _ _ | .getConnection _ | .disconnectConnection _
  | .lookupOwnedSession _ _ | .destroyOwnedSession _ _ | .destroyAllOwnedBy _
  | .interruptSession _ | .snapshot => true
  | _ => false

/-- The call does not use the map, or looks up or destroys one session of the principal. -/
def OwnCall (p : Bytes) (_ : Past) (ev : Event Answer) : Prop :=
  ev.1.usesPool = false ∨ (∃ id, ev.1 = .lookupOwnedSession id p) ∨
    ∃ id, ev.1 = .destroyOwnedSession id p

/-- Whoever is authenticated is the principal. -/
def ByPrincipal (p : Bytes) : Event Answer → Prop
  | ⟨.authenticateRequest _ _, result⟩ => result.ok = true → result.principalId = p
  | _ => True

theorem changesPool_of_usesPool {call : Call} (h : call.usesPool = false) :
    call.changesPool = false := by
  cases call <;> first | rfl | exact nomatch h

/-- Two maps with the same sessions of the principal answer these calls alike. -/
theorem exec_agree {p : Bytes} {w₁ w₂ u₁ u₂ : World} {h : Past} {call : Call}
    {a₁ a₂ : Answer call} (hsame : SameOwn p w₁ w₂) (hok : OwnCall p h ⟨call, a₁⟩)
    (h₁ : exec w₁ ⟨call, a₁⟩ u₁) (h₂ : exec w₂ ⟨call, a₂⟩ u₂)
    (hfree : call.usesPool = false → a₁ = a₂) : a₁ = a₂ ∧ SameOwn p u₁ u₂ := by
  -- the two pools find the same own session under an id
  have hlookup (id : Bytes) :
      w₁.pool.lookupOwnedSession id p = w₂.pool.lookupOwnedSession id p := by
    apply Option.ext
    intro s
    rw [Pool.lookupOwnedSession_eq_some_iff, Pool.lookupOwnedSession_eq_some_iff]
    constructor
    · rintro ⟨hs, hid, howner⟩
      exact ⟨(hsame s howner).mp hs, hid, howner⟩
    · rintro ⟨hs, hid, howner⟩
      exact ⟨(hsame s howner).mpr hs, hid, howner⟩
  rcases hok with hunused | ⟨id, hid⟩ | ⟨id, hid⟩
  · have hunused : call.usesPool = false := hunused
    refine ⟨hfree hunused, fun s howner => ?_⟩
    rw [samePool_of_exec h₁ (changesPool_of_usesPool hunused),
      samePool_of_exec h₂ (changesPool_of_usesPool hunused)]
    exact hsame s howner
  · obtain rfl : call = .lookupOwnedSession id p := hid
    obtain ⟨rfl, rfl⟩ := h₁
    obtain ⟨rfl, rfl⟩ := h₂
    exact ⟨hlookup id, hsame⟩
  · obtain rfl : call = .destroyOwnedSession id p := hid
    obtain ⟨pool₁, heq₁, rfl⟩ := h₁
    obtain ⟨pool₂, heq₂, rfl⟩ := h₂
    have hfst₁ := Pool.destroyOwnedSession_fst w₁.pool id p
    have hfst₂ := Pool.destroyOwnedSession_fst w₂.pool id p
    rw [heq₁] at hfst₁
    rw [heq₂] at hfst₂
    refine ⟨hfst₁.trans ((hlookup id).trans hfst₂.symm), fun s howner => ?_⟩
    have hmem₁ := Pool.mem_destroyOwnedSession w₁.pool id p s
    have hmem₂ := Pool.mem_destroyOwnedSession w₂.pool id p s
    rw [heq₁] at hmem₁
    rw [heq₂] at hmem₂
    exact hmem₁.trans ((and_congr_left' (hsame s howner)).trans hmem₂.symm)

/-- None of these calls touches a session of somebody else. -/
theorem exec_foreign {p : Bytes} {w u : World} {h : Past} {ev : Event Answer}
    (hok : OwnCall p h ev) (hexec : exec w ev u) : SameForeign p w u := by
  obtain ⟨call, answer⟩ := ev
  intro s howner
  rcases hok with hunused | ⟨id, hid⟩ | ⟨id, hid⟩
  · rw [samePool_of_exec hexec (changesPool_of_usesPool hunused)]
  · obtain rfl : call = .lookupOwnedSession id p := hid
    obtain ⟨-, rfl⟩ := hexec
    exact Iff.rfl
  · obtain rfl : call = .destroyOwnedSession id p := hid
    obtain ⟨pool, heq, rfl⟩ := hexec
    have hmem := Pool.mem_destroyOwnedSession w.pool id p s
    rw [heq] at hmem
    rw [hmem]
    exact ⟨fun hs => ⟨hs, fun hboth => howner hboth.2⟩, fun hs => hs.1⟩

/-! ## The handlers keep to these calls -/

/-- Wherever the piece stands in a request of the principal. -/
def OwnOnly (p : Bytes) {α : Type} (prog : Handler α) : Prop :=
  ∀ h, wp (ByPrincipal p) (OwnCall p) h prog fun _ _ => True

section

variable {p : Bytes} {α β : Type}

theorem own_pure (a : α) : OwnOnly p (pure a : Handler α) := fun _ => trivial

theorem own_bind {prog : Handler α} {rest : α → Handler β} (hprog : OwnOnly p prog)
    (hrest : ∀ a, OwnOnly p (rest a)) : OwnOnly p (prog >>= rest) := fun h =>
  wp_bind.mpr (wp_mono (fun _ _ _ hok => hok) (fun h a _ => hrest a h) (hprog h))

theorem own_perform {call : Call} (hcall : call.usesPool = false) : OwnOnly p (perform call) :=
  fun _ _ _ => ⟨.inl hcall, trivial⟩

/-- After the authentication the caller is the principal. -/
theorem own_authenticate {headers : Headers} {id : Bytes} {rest : AuthResult → Handler α}
    (hrest : ∀ authn, (authn.ok = true → authn.principalId = p) → OwnOnly p (rest authn)) :
    OwnOnly p (perform (.authenticateRequest headers id) >>= rest) := fun _ =>
  wp_perform_bind.mpr fun authn hauthn => ⟨.inl rfl, hrest authn hauthn _⟩

theorem own_fetchAll (conn : Conn) (n : Nat) : OwnOnly p (Sql.fetchAll conn n) := by
  induction n with
  | zero => exact own_pure _
  | succ n ih =>
      refine own_bind (own_perform rfl) fun a => ?_
      cases a with
      | error what => exact own_pure _
      | ok u => exact ih

theorem own_executeError (parsed : SqlRequest) (status : Nat) (message : Bytes) :
    OwnOnly p (Sql.executeError parsed status message) := by
  refine own_bind (own_perform rfl) fun timedOut => ?_
  cases timedOut <;> exact own_pure _

theorem own_respondRows (req : Request) (parsed : SqlRequest) (conn : Conn) (result : QueryResult) :
    OwnOnly p (Sql.respondRows req parsed conn result) := by
  refine own_bind (own_fetchAll conn result.fetches) fun a => ?_
  cases a with
  | ok u => exact own_pure _
  | error what =>
      dsimp only
      split
      · exact own_executeError parsed 500 what
      · exact own_pure _

theorem own_executePrepared (req : Request) (parsed : SqlRequest) (conn : Conn)
    (statement : SqlStatement) : OwnOnly p (Sql.executePrepared req parsed conn statement) := by
  refine own_bind (own_perform rfl) fun a => ?_
  cases a with
  | error message => exact own_executeError parsed 400 message
  | ok result =>
      dsimp only
      split
      · exact own_respondRows req parsed conn result
      · exact own_bind (own_perform rfl) fun _ => own_pure _

theorem own_bindParameters (req : Request) (parsed : SqlRequest) (conn : Conn)
    (statement : SqlStatement) : OwnOnly p (Sql.bindParameters req parsed conn statement) := by
  refine own_bind (own_perform rfl) fun a => ?_
  cases a with
  | error what => exact own_pure _
  | ok expectedTypes =>
      dsimp only
      split
      · refine own_bind (own_perform rfl) fun a => ?_
        cases a with
        | error message => exact own_pure _
        | ok u => exact own_executePrepared req parsed conn statement
      · split
        · exact own_pure _
        · exact own_executePrepared req parsed conn statement

theorem own_runSql (req : Request) (parsed : SqlRequest) (conn : Conn) :
    OwnOnly p (Sql.runSql req parsed conn) := by
  refine own_bind (own_perform rfl) fun isOpen => ?_
  cases isOpen with
  | false => exact own_pure _
  | true =>
      refine own_bind (own_perform rfl) fun allowed => ?_
      cases allowed with
      | false => exact own_pure _
      | true =>
          refine own_bind (own_perform rfl) fun a => ?_
          match a with
          | .error what => exact own_pure _
          | .ok [] => exact own_pure _
          | .ok (_ :: _ :: _) => exact own_pure _
          | .ok [statement] =>
              dsimp only
              by_cases htransaction : conn = .ephemeral ∧ Sql.beginsTransaction parsed.sql = true
              · rw [if_pos htransaction]
                exact own_pure _
              · rw [if_neg htransaction]
                refine own_bind (own_perform rfl) fun a => ?_
                cases a with
                | error message => exact own_pure _
                | ok u => exact own_bindParameters req parsed conn statement

/-- The lookup is by the principal. -/
theorem own_resolveSession (req : Request) (parsed : SqlRequest) :
    OwnOnly p (Sql.resolveSession req parsed p) := by
  unfold Sql.resolveSession
  split
  · exact own_runSql req parsed .ephemeral
  · refine own_bind (fun _ _ _ => ⟨.inr (.inl ⟨_, rfl⟩), trivial⟩) fun found => ?_
    cases found with
    | none => exact own_pure _
    | some session =>
        refine own_bind (own_perform rfl) fun locked => ?_
        cases locked with
        | false => exact own_pure _
        | true => exact own_runSql req parsed (.session session)

theorem own_handleSql (deps : Deps) (req : Request) : OwnOnly p (Sql.handleSql deps req) := by
  unfold Sql.handleSql
  split
  · refine own_bind (own_perform rfl) fun setting => ?_
    cases Sql.sqlRequest deps req (readUbigintSetting setting kDefaultMaxBodyBytes) with
    | error reply => exact own_pure _
    | ok parsed =>
        refine own_authenticate fun authn hauthn => ?_
        cases hok : authn.ok with
        | false => exact own_pure _
        | true =>
            refine own_bind ?_ fun allowed => ?_
            · unfold Sql.originGate
              split
              · exact own_perform rfl
              · exact own_pure _
            · cases allowed with
              | false => exact own_pure _
              | true =>
                  rw [show authn.principalId = p from hauthn hok]
                  exact own_resolveSession req parsed
  · exact own_pure _

/-- The session is destroyed by the principal. -/
theorem own_handleSessionDelete (req : Request) : OwnOnly p (Sql.handleSessionDelete req) := by
  refine own_authenticate fun authn hauthn => ?_
  cases hok : authn.ok with
  | false => exact own_pure _
  | true =>
      refine own_bind (own_perform rfl) fun allowed => ?_
      cases allowed with
      | false => exact own_pure _
      | true =>
          dsimp only
          rw [show authn.principalId = p from hauthn hok]
          by_cases hid : req.segments.headD [] = []
          · simp only [hid, if_true]
            exact own_pure _
          · simp only [hid, if_false, if_true]
            refine own_bind (fun _ _ _ => ⟨.inr (.inr ⟨_, rfl⟩), trivial⟩) fun removed => ?_
            cases removed <;> exact own_pure _

end

/-! ## One request, two maps -/

/-- Two runs of a request look alike to the principal: the same calls with the same answers, but for
the order in which logout finds the sessions it destroys. -/
def SameEvent (ev₁ ev₂ : Event Answer) : Prop :=
  ev₁ = ev₂ ∨ ∃ (p : Bytes) (out₁ out₂ : List HarborSession), out₁.Perm out₂ ∧
    ev₁ = ⟨.destroyAllOwnedBy p, out₁⟩ ∧ ev₂ = ⟨.destroyAllOwnedBy p, out₂⟩

theorem forall₂_sameEvent_refl (evs : List (Event Answer)) : List.Forall₂ SameEvent evs evs :=
  List.forall₂_same.mpr fun _ _ => .inl rfl

/-- The calls outside of the map. -/
def Outside (call : Call) : Prop := call.usesPool = false

theorem active_nodup (pool : Pool) : pool.active.Nodup := List.Nodup.of_map _ pool.nodup

/-- Logout destroys the same sessions in both. -/
theorem destroyAll_agree {p : Bytes} {w₁ w₂ u₁ u₂ : World} {out₁ out₂ : List HarborSession}
    (hsame : SameOwn p w₁ w₂) (h₁ : exec w₁ ⟨.destroyAllOwnedBy p, out₁⟩ u₁)
    (h₂ : exec w₂ ⟨.destroyAllOwnedBy p, out₂⟩ u₂) : out₁.Perm out₂ ∧ SameOwn p u₁ u₂ := by
  obtain ⟨pool₁, heq₁, rfl⟩ := h₁
  obtain ⟨pool₂, heq₂, rfl⟩ := h₂
  refine ⟨?_, fun s howner => ?_⟩
  · by_cases hempty : p = []
    · rw [Pool.destroyAllOwnedBy, if_pos hempty] at heq₁ heq₂
      rw [← (Prod.mk.inj heq₁).1, ← (Prod.mk.inj heq₂).1]
    · rw [Pool.destroyAllOwnedBy, if_neg hempty] at heq₁ heq₂
      rw [← (Prod.mk.inj heq₁).1, ← (Prod.mk.inj heq₂).1]
      refine (List.perm_ext_iff_of_nodup ((active_nodup _).filter _)
        ((active_nodup _).filter _)).mpr fun s => ?_
      rw [List.mem_filter, List.mem_filter, beq_iff_eq]
      exact and_congr_left fun howner => hsame s howner
  · have hmem₁ := Pool.mem_destroyAllOwnedBy w₁.pool p s
    have hmem₂ := Pool.mem_destroyAllOwnedBy w₂.pool p s
    rw [heq₁] at hmem₁
    rw [heq₂] at hmem₂
    exact hmem₁.trans ((and_congr_left' (hsame s howner)).trans hmem₂.symm)

theorem destroyAll_foreign {p : Bytes} {w u : World} {out : List HarborSession}
    (hexec : exec w ⟨.destroyAllOwnedBy p, out⟩ u) : SameForeign p w u := by
  obtain ⟨pool, heq, rfl⟩ := hexec
  intro s howner
  have hmem := Pool.mem_destroyAllOwnedBy w.pool p s
  rw [heq] at hmem
  rw [hmem]
  exact ⟨fun hs => ⟨hs, .inr howner⟩, fun hs => hs.1⟩

/-- What two runs of one request have in common. -/
structure Alike (p : Bytes) (evs₁ evs₂ : List (Event Answer)) (r₁ r₂ : Reply) (v₁ v₂ : World) :
    Prop where
  events : List.Forall₂ SameEvent evs₁ evs₂
  reply : r₁ = r₂
  own : SameOwn p v₁ v₂

/-- `/sql` and the deletion of a session. -/
theorem alike_of_ownOnly {p : Bytes} {prog : Handler Reply} {w₁ w₂ v₁ v₂ : World}
    {evs₁ evs₂ : List (Event Answer)} {r₁ r₂ : Reply} (hown : OwnOnly p prog)
    (hsame : SameOwn p w₁ w₂) (hlegal : ∀ ev ∈ evs₁, ByPrincipal p ev)
    (hanswers : SameAnswers Outside evs₁ evs₂) (h₁ : Ends exec w₁ prog evs₁ v₁ r₁)
    (h₂ : Ends exec w₂ prog evs₂ v₂ r₂) : Alike p evs₁ evs₂ r₁ r₂ v₁ v₂ := by
  have hcall : ∀ w₁ w₂ h e a₁ a₂ u₁ u₂, SameOwn p w₁ w₂ → OwnCall p h ⟨e, a₁⟩ →
      exec w₁ ⟨e, a₁⟩ u₁ → exec w₂ ⟨e, a₂⟩ u₂ → (Outside e → a₁ = a₂) →
      a₁ = a₂ ∧ SameOwn p u₁ u₂ := fun _ _ _ _ _ _ _ _ => exec_agree
  obtain ⟨rfl, rfl, hsame'⟩ := Ends.agree hcall (hown []) hsame hlegal hanswers h₁ h₂
  exact ⟨forall₂_sameEvent_refl evs₁, rfl, hsame'⟩

/-- `?destroy_sessions=true`, or `1`. -/
def DestroysSessions (req : Request) : Prop :=
  Bytes.lower (req.param (lit "destroy_sessions")) = lit "true" ∨
    req.param (lit "destroy_sessions") = lit "1"

/-- How a logout runs: nothing is asked, or the caller is not let in, or the sessions are destroyed. -/
theorem logout_ends {req : Request} {w v : World} {evs : List (Event Answer)} {r : Reply}
    (h : Ends exec w (logout req) evs v r) :
    (¬ DestroysSessions req ∧ evs = [] ∧ v = w ∧ r = .http (logoutResponse 0)) ∨
    DestroysSessions req ∧ ∃ authn u, exec w ⟨.authenticateRequest req.headers Admin.kLoginSessionId, authn⟩ u ∧
      ((¬ (authn.ok = true ∧ authn.principalId ≠ []) ∧ v = u ∧ r = .http (logoutResponse 0) ∧
          evs = [⟨.authenticateRequest req.headers Admin.kLoginSessionId, authn⟩]) ∨
        (authn.ok = true ∧ authn.principalId ≠ [] ∧
          ∃ destroyed : List HarborSession,
            exec u ⟨.destroyAllOwnedBy authn.principalId, destroyed⟩ v ∧
            r = .http (logoutResponse destroyed.length) ∧
            evs = [⟨.authenticateRequest req.headers Admin.kLoginSessionId, authn⟩,
              ⟨.destroyAllOwnedBy authn.principalId, destroyed⟩])) := by
  unfold logout at h
  dsimp only at h
  by_cases hdestroys : DestroysSessions req
  · unfold DestroysSessions at hdestroys
    rw [if_pos hdestroys] at h
    cases h with
    | call authn hauthn h =>
        refine .inr ⟨hdestroys, authn, _, hauthn, ?_⟩
        -- a caller is known and has a name, or nothing is destroyed
        by_cases hcaller : authn.ok = true ∧ authn.principalId ≠ []
        · simp only [Prog.bind, if_pos hcaller] at h
          cases h with
          | call destroyed hdestroyed h =>
              cases h
              exact .inr ⟨hcaller.1, hcaller.2, destroyed, hdestroyed, rfl, rfl⟩
        · simp only [Prog.bind, if_neg hcaller] at h
          cases h
          exact .inl ⟨hcaller, rfl, rfl, rfl⟩
  · unfold DestroysSessions at hdestroys
    rw [if_neg hdestroys] at h
    cases h
    exact .inl ⟨hdestroys, rfl, rfl, rfl⟩

theorem alike_logout {p : Bytes} {req : Request} {w₁ w₂ v₁ v₂ : World}
    {evs₁ evs₂ : List (Event Answer)} {r₁ r₂ : Reply} (hsame : SameOwn p w₁ w₂)
    (hlegal : ∀ ev ∈ evs₁, ByPrincipal p ev) (hanswers : SameAnswers Outside evs₁ evs₂)
    (h₁ : Ends exec w₁ (logout req) evs₁ v₁ r₁) (h₂ : Ends exec w₂ (logout req) evs₂ v₂ r₂) :
    Alike p evs₁ evs₂ r₁ r₂ v₁ v₂ := by
  obtain ⟨hnot, rfl, rfl, rfl⟩ | ⟨hdestroys, authn₁, u₁, hauthn₁, hrest₁⟩ := logout_ends h₁ <;>
    obtain ⟨hnot', rfl, rfl, rfl⟩ | ⟨hdestroys', authn₂, u₂, hauthn₂, hrest₂⟩ := logout_ends h₂
  · exact ⟨.nil, rfl, hsame⟩
  · exact absurd hdestroys' hnot
  · exact absurd hdestroys hnot'
  -- the authentication does not touch the map
  have hsame' : SameOwn p u₁ u₂ := fun s howner => by
    rw [samePool_of_exec hauthn₁ rfl, samePool_of_exec hauthn₂ rfl]
    exact hsame s howner
  obtain ⟨hno₁, rfl, rfl, rfl⟩ | ⟨hok₁, hne₁, out₁, hout₁, rfl, rfl⟩ := hrest₁ <;>
    obtain ⟨hno₂, rfl, rfl, rfl⟩ | ⟨hok₂, hne₂, out₂, hout₂, rfl, rfl⟩ := hrest₂
  · obtain rfl := hanswers.head rfl
    exact ⟨.cons (.inl rfl) .nil, rfl, hsame'⟩
  · obtain rfl := hanswers.head rfl
    exact absurd ⟨hok₂, hne₂⟩ hno₁
  · obtain rfl := hanswers.head rfl
    exact absurd ⟨hok₁, hne₁⟩ hno₂
  · obtain rfl := hanswers.head rfl
    have hcaller : authn₁.principalId = p := hlegal _ List.mem_cons_self hok₁
    rw [hcaller] at hout₁ hout₂ ⊢
    obtain ⟨hperm, hsame''⟩ := destroyAll_agree hsame' hout₁ hout₂
    refine ⟨.cons (.inl rfl) (.cons (.inr ⟨p, out₁, out₂, hperm, rfl, rfl⟩) .nil), ?_, hsame''⟩
    rw [hperm.length_eq]

theorem SameForeign.trans {p : Bytes} {w u v : World} (h : SameForeign p w u)
    (h' : SameForeign p u v) : SameForeign p w v :=
  fun s howner => (h s howner).trans (h' s howner)

theorem foreign_of_ownOnly {p : Bytes} {prog : Handler Reply} {w v : World}
    {evs : List (Event Answer)} {r : Reply} (hown : OwnOnly p prog)
    (hlegal : ∀ ev ∈ evs, ByPrincipal p ev) (h : Ends exec w prog evs v r) : SameForeign p w v :=
  Ends.keeps (K := SameForeign p) (fun _ _ _ => Iff.rfl) (fun _ _ _ => SameForeign.trans)
    (fun (w : World) (_ : Past) (ev : Event Answer) (u : World) hok (hexec : exec w ev u) =>
      exec_foreign hok hexec) (hown []) hlegal h

theorem foreign_logout {p : Bytes} {req : Request} {w v : World} {evs : List (Event Answer)}
    {r : Reply} (hlegal : ∀ ev ∈ evs, ByPrincipal p ev) (h : Ends exec w (logout req) evs v r) :
    SameForeign p w v := by
  obtain ⟨-, rfl, rfl, rfl⟩ | ⟨-, authn, u, hauthn, hrest⟩ := logout_ends h
  · exact fun _ _ => Iff.rfl
  have hsame : SameForeign p w u := fun s _ => by rw [samePool_of_exec hauthn rfl]
  obtain ⟨-, rfl, rfl, rfl⟩ | ⟨hok, -, out, hout, rfl, rfl⟩ := hrest
  · exact hsame
  · have hcaller : authn.principalId = p := hlegal _ List.mem_cons_self hok
    rw [hcaller] at hout
    exact hsame.trans (destroyAll_foreign hout)

/-! ## Sequences of requests -/

/-- A request that has been served: what it called, what it was answered, and the world before and
after it. -/
structure Served where
  request : SessionRequest
  before : World
  events : List (Event Answer)
  reply : Reply
  after : World

/-- The requests of the principal, served one after another. Between two of them anything may happen to
the world but to the sessions of the principal. -/
inductive Serves (deps : Deps) (p : Bytes) : World → List Served → World → Prop
  | nil {w v : World} : SameOwn p w v → Serves deps p w [] v
  | cons {w v : World} {x : Served} {rest : List Served} : SameOwn p w x.before →
      Ends exec x.before (x.request.handler deps) x.events x.after x.reply →
      (∀ ev ∈ x.events, ByPrincipal p ev) → Serves deps p x.after rest v →
      Serves deps p w (x :: rest) v

/-- The same request in both runs, with the same answers from outside of the map. -/
def SameOutside (x y : Served) : Prop :=
  x.request = y.request ∧ SameAnswers Outside x.events y.events

/-- The principal sees no difference. -/
def Indistinguishable (p : Bytes) (x y : Served) : Prop :=
  Alike p x.events y.events x.reply y.reply x.after y.after

theorem SameOwn.symm {p : Bytes} {w v : World} (h : SameOwn p w v) : SameOwn p v w :=
  fun s howner => (h s howner).symm

theorem SameOwn.trans {p : Bytes} {w u v : World} (h : SameOwn p w u) (h' : SameOwn p u v) :
    SameOwn p w v := fun s howner => (h s howner).trans (h' s howner)

theorem alike_request {deps : Deps} {p : Bytes} {x y : Served} (hsame : SameOwn p x.before y.before)
    (houtside : SameOutside x y) (hlegal : ∀ ev ∈ x.events, ByPrincipal p ev)
    (hx : Ends exec x.before (x.request.handler deps) x.events x.after x.reply)
    (hy : Ends exec y.before (y.request.handler deps) y.events y.after y.reply) :
    Indistinguishable p x y := by
  obtain ⟨hrequest, hanswers⟩ := houtside
  rw [← hrequest] at hy
  cases hr : x.request with
  | sql req =>
      rw [hr] at hx hy
      exact alike_of_ownOnly (own_handleSql deps req) hsame hlegal hanswers hx hy
  | sessionDelete req =>
      rw [hr] at hx hy
      exact alike_of_ownOnly (own_handleSessionDelete req) hsame hlegal hanswers hx hy
  | logout req =>
      rw [hr] at hx hy
      exact alike_logout hsame hlegal hanswers hx hy

theorem foreign_request {deps : Deps} {p : Bytes} {x : Served}
    (hlegal : ∀ ev ∈ x.events, ByPrincipal p ev)
    (hx : Ends exec x.before (x.request.handler deps) x.events x.after x.reply) :
    SameForeign p x.before x.after := by
  cases hr : x.request with
  | sql req =>
      rw [hr] at hx
      exact foreign_of_ownOnly (own_handleSql deps req) hlegal hx
  | sessionDelete req =>
      rw [hr] at hx
      exact foreign_of_ownOnly (own_handleSessionDelete req) hlegal hx
  | logout req =>
      rw [hr] at hx
      exact foreign_logout hlegal hx

theorem Serves.foreign {deps : Deps} {p : Bytes} {w v : World} {served : List Served}
    (h : Serves deps p w served v) : ∀ x ∈ served, SameForeign p x.before x.after := by
  induction h with
  | nil _ => exact fun _ hx => nomatch hx
  | cons _ hends hlegal _ ih =>
      intro x hx
      rcases List.mem_cons.mp hx with rfl | hx
      · exact foreign_request hlegal hends
      · exact ih x hx

/-- **No session enumeration.** The same requests of a principal, served on two maps with the same
sessions of that principal, with the same answers from outside of the maps: each request makes the same
calls, gets the same answers and is answered the same, and leaves the same sessions of the principal;
and no request in either run adds or removes a session of anybody else. -/
theorem no_session_enumeration (deps : Deps) (p : Bytes) {w₁ w₂ v₁ v₂ : World}
    {served₁ served₂ : List Served} (hsame : SameOwn p w₁ w₂)
    (houtside : List.Forall₂ SameOutside served₁ served₂)
    (h₁ : Serves deps p w₁ served₁ v₁) (h₂ : Serves deps p w₂ served₂ v₂) :
    List.Forall₂ (Indistinguishable p) served₁ served₂ ∧ SameOwn p v₁ v₂ ∧
      (∀ x ∈ served₁, SameForeign p x.before x.after) ∧
      ∀ x ∈ served₂, SameForeign p x.before x.after := by
  have halike : List.Forall₂ (Indistinguishable p) served₁ served₂ ∧ SameOwn p v₁ v₂ := by
    induction houtside generalizing w₁ w₂ with
    | nil =>
        cases h₁ with
        | nil hnoise₁ =>
            cases h₂ with
            | nil hnoise₂ => exact ⟨.nil, hnoise₁.symm.trans (hsame.trans hnoise₂)⟩
    | cons hxy _ ih =>
        cases h₁ with
        | cons hnoise₁ hends₁ hlegal hrest₁ =>
            cases h₂ with
            | cons hnoise₂ hends₂ _ hrest₂ =>
                have hbefore := hnoise₁.symm.trans (hsame.trans hnoise₂)
                have hxy := alike_request hbefore hxy hlegal hends₁ hends₂
                obtain ⟨hforall, hsame'⟩ := ih hxy.own hrest₁ hrest₂
                exact ⟨.cons hxy hforall, hsame'⟩
  exact ⟨halike.1, halike.2, h₁.foreign, h₂.foreign⟩

/-! ## A foreign id and an id that does not exist -/

def notFoundEvents : List (Event Answer) :=
  [⟨.authenticateRequest deleteRequest.headers Sql.kAdminSessionId, cookieCaller⟩,
    ⟨.runAuthorization Sql.kAdminSessionId Sql.kAuthzDeleteSession, true⟩,
    ⟨.destroyOwnedSession pageSession.sessionId cookieCaller.principalId, none⟩]

def notFoundReply : Reply :=
  Sql.fail 404 (lit "SESSION_NOT_FOUND") (lit "no such session for this principal")
    pageSession.sessionId

/-- The caller of `deleteRequest` on a map that has no session of its own with the id. -/
def notFoundServed (pool : Pool) : Served where
  request := .sessionDelete deleteRequest
  before := { pageWorld with pool := pool }
  events := notFoundEvents
  reply := notFoundReply
  after := { pageWorld with pool := pool }

theorem ends_notFoundServed {pool : Pool}
    (hnone : pool.lookupOwnedSession pageSession.sessionId cookieCaller.principalId = none) :
    Ends exec (notFoundServed pool).before (Sql.handleSessionDelete deleteRequest)
      (notFoundServed pool).events (notFoundServed pool).after (notFoundServed pool).reply := by
  have hauthz : pageWorld.auth.runAuthorization pageWorld.db Sql.kAdminSessionId
      Sql.kAuthzDeleteSession = true := by
    rfl
  have hremoved : pool.destroyOwnedSession pageSession.sessionId cookieCaller.principalId =
      (none, pool) := by
    rw [Pool.destroyOwnedSession, hnone]
  have hstart : Alone exec (notFoundServed pool).before (Sql.handleSessionDelete deleteRequest) []
      (notFoundServed pool).before (Sql.handleSessionDelete deleteRequest) := .start
  have hcaller := Alone.answer (v := (notFoundServed pool).before) cookieCaller hstart
    ⟨none, 1700043199, pageWorld.signingKey, authenticateRequest_page.symm, fun _ => rfl, rfl⟩
  have hallowed := Alone.answer (v := (notFoundServed pool).before) true hcaller
    ⟨hauthz.symm, rfl⟩
  have hexec : exec (notFoundServed pool).before
      ⟨.destroyOwnedSession pageSession.sessionId cookieCaller.principalId, none⟩
      (notFoundServed pool).after := ⟨pool, hremoved, rfl⟩
  exact (hallowed.answer _ hexec).ends

theorem serves_notFoundServed {pool : Pool}
    (hnone : pool.lookupOwnedSession pageSession.sessionId cookieCaller.principalId = none) :
    Serves plainDeps cookieCaller.principalId (notFoundServed pool).before [notFoundServed pool]
      (notFoundServed pool).after := by
  refine .cons (fun _ _ => Iff.rfl) (ends_notFoundServed hnone) (fun ev hev => ?_)
    (.nil fun _ _ => Iff.rfl)
  rcases List.mem_cons.mp hev with rfl | hev
  · exact fun _ => rfl
  rcases List.mem_cons.mp hev with rfl | hev
  · exact trivial
  rw [List.mem_singleton.mp hev]
  exact trivial

/-- The map with a session of that id, made over the binary protocol. -/
def foreignPool : Pool := (pageWorld.pool.createNewConnection true pageSession.sessionId).2

/-- The caller cannot tell the id of such a session from one that is not in the map. -/
theorem no_session_enumeration_delete :
    foreignPool.find? pageSession.sessionId ≠ none ∧
    Indistinguishable cookieCaller.principalId (notFoundServed foreignPool) (notFoundServed {}) ∧
    SameForeign cookieCaller.principalId (notFoundServed foreignPool).before
      (notFoundServed foreignPool).after := by
  have hsame : SameOwn cookieCaller.principalId (notFoundServed foreignPool).before
      (notFoundServed {}).before := by
    intro s howner
    have hforeign : ∀ s ∈ foreignPool.active, s.ownerPrincipalId = [] := by decide
    constructor
    · intro hs
      have hempty : cookieCaller.principalId = [] := howner.symm.trans (hforeign s hs)
      exact absurd hempty (by decide)
    · intro hs
      exact nomatch hs
  have houtside : SameOutside (notFoundServed foreignPool) (notFoundServed {}) := by
    refine ⟨rfl, fun i e a₁ a₂ _ h₁ h₂ => ?_⟩
    have heq := Option.some.inj (h₁.symm.trans h₂)
    cases heq
    rfl
  have hboth := no_session_enumeration plainDeps cookieCaller.principalId hsame
    (.cons houtside .nil) (serves_notFoundServed (by rfl))
    (serves_notFoundServed (by rfl))
  refine ⟨by decide, ?_, hboth.2.2.1 _ (List.mem_singleton_self _)⟩
  exact (List.forall₂_cons.mp hboth.1).1

end Harbor.Routes
