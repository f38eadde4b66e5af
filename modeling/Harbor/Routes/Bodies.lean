import Harbor.Lib.Feed
import Harbor.Routes.Rules

set_option autoImplicit false

/-! # The limit on request bodies

The readers of the routes that read a body, as the content reader calls them chunk by chunk. `/sql` and
`/sql/cancel` read up to `harbor_max_request_body_bytes`; `/checkpoint` and `/interrupt` do too, but take
zero for the default; `/quack`, `/ddb/run` and `/ddb/tokenize` read everything. `body_cap_iff` says for
which bodies and settings each of them keeps to the limit, and for which they all agree.
-/

namespace Harbor.Routes

open Harbor.Auth Prog Buffer

/-! ## The readers -/

/-- `ReadRequestBodyWithLimit`. The two sizes are of buffers in one address space, so that their sum does
not wrap around. -/
def readRequestBodyWithLimit (maxBody : Nat) (chunks : List Bytes) : Buffer UInt8 :=
  feed (receiveUpTo maxBody) {} chunks

/-- The reader written out in `HandleSqlCancel`. -/
def cancelBody (maxBody : Nat) (chunks : List Bytes) : Buffer UInt8 :=
  feed (receiveUpTo maxBody) {} chunks

/-- `ReadBoundedBody`. -/
def readBoundedBody (maxBytes : Nat) (chunks : List Bytes) : Buffer UInt8 :=
  feed (receiveUpTo maxBytes) {} chunks

/-- The `MemoryStream` of `/quack`. -/
def quackStream (chunks : List Bytes) : Buffer UInt8 := feed receiveAll {} chunks

/-- `UiHandlers::ReadContent`. -/
def readContent (chunks : List Bytes) : Buffer UInt8 := feed receiveAll {} chunks

/-- The routes that read a body. -/
inductive BodyRoute where
  | sql
  | sqlCancel
  | checkpoint
  | interrupt
  | quack
  | ddbRun
  | ddbTokenize
  deriving DecidableEq, Repr

/-- What a route holds after these chunks. -/
def BodyRoute.buffer (setting : Option UInt64) : BodyRoute → List Bytes → Buffer UInt8
  | .sql => readRequestBodyWithLimit (readUbigintSetting setting kDefaultMaxBodyBytes)
  | .sqlCancel => cancelBody (readUbigintSetting setting kDefaultMaxBodyBytes)
  | .checkpoint | .interrupt => readBoundedBody (readMaxBodyBytes setting)
  | .quack => quackStream
  | .ddbRun | .ddbTokenize => readContent

/-- `readBody` is the loop with the callback. -/
theorem readBody_eq (maxBody : Nat) (chunks : List Bytes) :
    readBody maxBody [] chunks = (readRequestBodyWithLimit maxBody chunks).read := by
  have hloop : ∀ (chunks : List Bytes) (b : Buffer UInt8), b.tooLarge = false →
      readBody maxBody b.content chunks = (feed (receiveUpTo maxBody) b chunks).read := by
    intro chunks
    induction chunks with
    | nil =>
        intro b hb
        simp [readBody, feed, Buffer.read, hb]
    | cons chunk chunks ih =>
        intro b hb
        by_cases hover : maxBody < b.content.length + chunk.length
        · rw [readBody, if_pos hover, feed_stop (receiveUpTo_over hb hover)]
          rfl
        · rw [readBody, if_neg hover, feed_more (receiveUpTo_within hb hover)]
          exact ih { b with content := b.content ++ chunk } hb
  exact hloop chunks {} rfl

/-! ## What the handlers answer -/

/-- The response says that the body was too large. -/
def Reply.tooLarge : Reply → Bool
  | .http response => response.status == 413
  | _ => false

/-- Whatever happens, the answer is not that the body was too large. -/
abbrev NotTooLarge (prog : Handler Reply) : Prop := prog.Returns fun reply => reply.tooLarge = false

theorem notTooLarge_executeError (parsed : SqlRequest) {status : Nat} (hstatus : status ≠ 413)
    (message : Bytes) : NotTooLarge (Sql.executeError parsed status message) := by
  refine returns_bind fun timedOut => ?_
  cases timedOut with
  | true => rfl
  | false => exact beq_eq_false_iff_ne.mpr hstatus

theorem notTooLarge_respondRows (req : Request) (parsed : SqlRequest) (conn : Conn)
    (result : QueryResult) : NotTooLarge (Sql.respondRows req parsed conn result) := by
  refine returns_bind fun fetched => ?_
  cases fetched with
  | ok u => rfl
  | error what =>
      dsimp only
      split
      · exact notTooLarge_executeError parsed (by decide) what
      · rfl

theorem notTooLarge_executePrepared (req : Request) (parsed : SqlRequest) (conn : Conn)
    (statement : SqlStatement) : NotTooLarge (Sql.executePrepared req parsed conn statement) := by
  refine returns_bind fun executed => ?_
  cases executed with
  | error message => exact notTooLarge_executeError parsed (by decide) message
  | ok result =>
      dsimp only
      split
      · exact notTooLarge_respondRows req parsed conn result
      · exact returns_bind fun _ => rfl

theorem notTooLarge_bindParameters (req : Request) (parsed : SqlRequest) (conn : Conn)
    (statement : SqlStatement) : NotTooLarge (Sql.bindParameters req parsed conn statement) := by
  refine returns_bind fun types => ?_
  cases types with
  | error what => rfl
  | ok expectedTypes =>
      dsimp only
      split
      · refine returns_bind fun decoded => ?_
        cases decoded with
        | error message => rfl
        | ok u => exact notTooLarge_executePrepared req parsed conn statement
      · split
        · rfl
        · exact notTooLarge_executePrepared req parsed conn statement

theorem notTooLarge_runSql (req : Request) (parsed : SqlRequest) (conn : Conn) :
    NotTooLarge (Sql.runSql req parsed conn) := by
  refine returns_bind fun isOpen => ?_
  cases isOpen with
  | false => rfl
  | true =>
      refine returns_bind fun allowed => ?_
      cases allowed with
      | false => rfl
      | true =>
          refine returns_bind fun statements => ?_
          match statements with
          | .error what => rfl
          | .ok [] => rfl
          | .ok (_ :: _ :: _) => rfl
          | .ok [statement] =>
              dsimp only
              by_cases htransaction : conn = .ephemeral ∧ Sql.beginsTransaction parsed.sql = true
              · rw [if_pos htransaction]
                rfl
              · rw [if_neg htransaction]
                refine returns_bind fun prepared => ?_
                cases prepared with
                | error message => rfl
                | ok u => exact notTooLarge_bindParameters req parsed conn statement

theorem notTooLarge_authenticateSql (req : Request) (parsed : SqlRequest) :
    NotTooLarge (Sql.authenticateSql req parsed) := by
  refine returns_bind fun authn => ?_
  cases authn.ok with
  | false => rfl
  | true =>
      refine returns_bind fun allowed => ?_
      cases allowed with
      | false => rfl
      | true =>
          show NotTooLarge (Sql.resolveSession req parsed authn.principalId)
          unfold Sql.resolveSession
          split
          · exact notTooLarge_runSql req parsed .ephemeral
          · refine returns_bind fun found => ?_
            cases found with
            | none => rfl
            | some session =>
                refine returns_bind fun locked => ?_
                cases locked with
                | false => rfl
                | true => exact notTooLarge_runSql req parsed (.session session)

/-- When the body has been read, the other complaints about the request are not about its size. -/
theorem sqlRequest_notTooLarge {deps : Deps} {req : Request} {maxBody : Nat} {body : Bytes}
    {reply : Reply} (hread : readBody maxBody [] req.body = some body)
    (herror : Sql.sqlRequest deps req maxBody = .error reply) : reply.tooLarge = false := by
  unfold Sql.sqlRequest at herror
  rw [hread] at herror
  dsimp only at herror
  cases hparse : deps.parseRequest body with
  | error message =>
      rw [hparse] at herror
      obtain rfl := Except.error.inj herror
      rfl
  | ok parsed =>
      rw [hparse] at herror
      dsimp only at herror
      split at herror
      · obtain rfl := Except.error.inj herror
        rfl
      · exact nomatch herror

theorem notTooLarge_checkpoint : NotTooLarge Admin.checkpoint := by
  refine returns_bind fun isOpen => ?_
  cases isOpen with
  | false => rfl
  | true =>
      refine returns_bind fun result => ?_
      cases result with
      | ok u => rfl
      | error message =>
          refine returns_bind fun timedOut => ?_
          cases timedOut with
          | true => rfl
          | false =>
              simp only [Bool.false_eq_true, if_false]
              split <;> rfl

/-- The setting does not change during the request. -/
def AnsweredWith (setting : Option UInt64) : Event Answer → Prop
  | ⟨.maxRequestBodySetting, answer⟩ => answer = setting
  | _ => True

/-- The handler has got as far as to ask for the limit. -/
def Asked (h : Past) : Prop := ∃ ev ∈ h, ev.1 = .maxRequestBodySetting

/-- A handler that asks for the limit answers that the body is too large exactly when its reader refuses
the body. -/
def Reports (setting : Option UInt64) (route : BodyRoute) (req : Request) (h : Past) (reply : Reply) :
    Prop :=
  Asked h → (reply.tooLarge = true ↔ (route.buffer setting req.body).read = none)

section

variable {setting : Option UInt64} {route : BodyRoute} {req : Request} {h : Past}

abbrev Answers (setting : Option UInt64) (route : BodyRoute) (req : Request) (h : Past)
    (prog : Handler Reply) : Prop :=
  wp (AnsweredWith setting) (fun _ _ => True) h prog (Reports setting route req)

theorem answers_early (hearly : ∀ ev ∈ h, ev.1 ≠ .maxRequestBodySetting) (reply : Reply) :
    Answers setting route req h (pure reply) :=
  fun hasked => by
    obtain ⟨ev, hev, hcall⟩ := hasked
    exact absurd hcall (hearly ev hev)

theorem answers_refused {reply : Reply} (hread : (route.buffer setting req.body).read = none)
    (hreply : reply.tooLarge = true) : Answers setting route req h (pure reply) :=
  fun _ => iff_of_true hreply hread

theorem answers_accepted {body : Bytes} {rest : Handler Reply}
    (hread : (route.buffer setting req.body).read = some body) (hrest : NotTooLarge rest) :
    Answers setting route req h rest := by
  refine wp_mono (fun _ _ _ hok => hok) (fun h reply hreply _ => ?_) (wp_of_returns hrest)
  rw [hreply, hread]
  simp

/-- A body that is read, and the answer when it is too large. -/
theorem answers_readBody {maxBody : Nat} {refusal : Reply} {rest : Bytes → Handler Reply}
    (hbuffer : route.buffer setting req.body = readRequestBodyWithLimit maxBody req.body)
    (hrefusal : refusal.tooLarge = true) (hrest : ∀ body, NotTooLarge (rest body)) :
    Answers setting route req h
      (match readBody maxBody [] req.body with
      | none => pure refusal
      | some body => rest body) := by
  rw [readBody_eq, ← hbuffer]
  cases hbody : (route.buffer setting req.body).read with
  | none => exact answers_refused hbody hrefusal
  | some body => exact answers_accepted hbody (hrest body)

theorem not_asked_cons {ev : Event Answer} (hev : ev.1 ≠ .maxRequestBodySetting)
    (hearly : ∀ ev ∈ h, ev.1 ≠ .maxRequestBodySetting) :
    ∀ past ∈ ev :: h, past.1 ≠ .maxRequestBodySetting := by
  intro past hpast
  rcases List.mem_cons.mp hpast with rfl | hpast
  · exact hev
  · exact hearly past hpast

/-- One call before the limit is asked for. -/
theorem answers_call {call : Call} {rest : Answer call → Handler Reply}
    (hcall : call ≠ .maxRequestBodySetting) (hearly : ∀ ev ∈ h, ev.1 ≠ .maxRequestBodySetting)
    (hrest : ∀ a, (∀ ev ∈ (⟨call, a⟩ :: h : Past), ev.1 ≠ .maxRequestBodySetting) →
      Answers setting route req (⟨call, a⟩ :: h) (rest a)) :
    Answers setting route req h (perform call >>= rest) :=
  wp_perform_bind.mpr fun a _ => ⟨trivial, hrest a (not_asked_cons hcall hearly)⟩

/-- The call that asks for it. -/
theorem answers_setting {rest : Option UInt64 → Handler Reply}
    (hrest : ∀ h, Answers setting route req h (rest setting)) :
    Answers setting route req h (perform .maxRequestBodySetting >>= rest) := by
  refine wp_perform_bind.mpr fun a ha => ⟨trivial, ?_⟩
  obtain rfl : a = setting := ha
  exact hrest _

theorem answers_handleSql (deps : Deps) (req : Request) :
    Answers setting .sql req [] (Sql.handleSql deps req) := by
  unfold Sql.handleSql
  split
  · refine answers_setting fun h => ?_
    have hread : readBody (readUbigintSetting setting kDefaultMaxBodyBytes) [] req.body =
        (BodyRoute.sql.buffer setting req.body).read := readBody_eq _ _
    cases hbody : (BodyRoute.sql.buffer setting req.body).read with
    | none =>
        rw [hbody] at hread
        rw [Sql.sqlRequest, hread]
        exact answers_refused hbody rfl
    | some body =>
        rw [hbody] at hread
        refine answers_accepted hbody ?_
        cases hrequest : Sql.sqlRequest deps req (readUbigintSetting setting kDefaultMaxBodyBytes) with
        | error reply => exact sqlRequest_notTooLarge hread hrequest
        | ok parsed => exact notTooLarge_authenticateSql req parsed
  · exact answers_early (List.forall_mem_nil _) _

theorem answers_cancelSession (hearly : ∀ ev ∈ h, ev.1 ≠ .maxRequestBodySetting) (req : Request) :
    Answers setting .sqlCancel req h (Sql.cancelSession req) := by
  unfold Sql.cancelSession
  split
  · refine answers_setting fun h => answers_readBody rfl rfl fun body => ?_
    dsimp only
    split
    · rfl
    · refine returns_bind fun interrupted => ?_
      cases interrupted <;> rfl
  · exact answers_early hearly _

theorem answers_interrupt (hearly : ∀ ev ∈ h, ev.1 ≠ .maxRequestBodySetting) (req : Request) :
    Answers setting .interrupt req h (Admin.interrupt req) := by
  unfold Admin.interrupt
  split
  · refine answers_setting fun h => answers_readBody rfl rfl fun body => ?_
    dsimp only
    split
    · rfl
    · refine returns_bind fun interrupted => ?_
      cases interrupted <;> rfl
  · exact answers_early hearly _

/-- A checkpoint without a body does not ask for the limit. -/
theorem answers_checkpoint (hearly : ∀ ev ∈ h, ev.1 ≠ .maxRequestBodySetting) :
    Answers setting .checkpoint req h Admin.checkpoint := by
  refine answers_call (fun heq => nomatch heq) hearly fun isOpen hopen => ?_
  cases isOpen with
  | false => exact answers_early hopen _
  | true =>
      refine answers_call (fun heq => nomatch heq) hopen fun result hresult => ?_
      cases result with
      | ok u => exact answers_early hresult _
      | error message =>
          refine answers_call (fun heq => nomatch heq) hresult fun timedOut htimedOut => ?_
          cases timedOut with
          | true => exact answers_early htimedOut _
          | false =>
              simp only [Bool.false_eq_true, if_false]
              split <;> exact answers_early htimedOut _

theorem answers_checkpointBody (hearly : ∀ ev ∈ h, ev.1 ≠ .maxRequestBodySetting)
    (req : Request) : Answers setting .checkpoint req h (Admin.checkpointBody req) := by
  unfold Admin.checkpointBody
  dsimp only
  split
  · split
    · exact answers_setting fun h => answers_readBody rfl rfl fun _ => notTooLarge_checkpoint
    · exact answers_early hearly _
  · exact answers_checkpoint hearly

/-- What stands before `/checkpoint` and `/interrupt` does not ask for the limit. -/
theorem answers_authorizedPost (path query : Bytes) {rest : Handler Reply}
    (hrest : ∀ h : Past, (∀ ev ∈ h, ev.1 ≠ .maxRequestBodySetting) →
      Answers setting route req h rest) :
    Answers setting route req [] (Admin.authorizedPost req path query rest) := by
  refine answers_call (fun heq => nomatch heq) (List.forall_mem_nil _) fun authn hauthn => ?_
  cases authn.ok with
  | false => exact answers_early hauthn _
  | true =>
      refine answers_call (fun heq => nomatch heq) hauthn fun same hsame => ?_
      cases same with
      | false => exact answers_early hsame _
      | true =>
          refine answers_call (fun heq => nomatch heq) hsame fun allowed hallowed => ?_
          cases allowed with
          | false => exact answers_early hallowed _
          | true => exact hrest _ hallowed

theorem answers_handleSqlCancel (req : Request) :
    Answers setting .sqlCancel req [] (Sql.handleSqlCancel req) := by
  have hauthorize : ∀ h : Past, (∀ ev ∈ h, ev.1 ≠ .maxRequestBodySetting) →
      Answers setting .sqlCancel req h (do
        if ← perform (.runAuthorization Sql.kAdminSessionId Sql.kAuthzCancelSession) then
          Sql.cancelSession req
        else return Sql.fail 403 (lit "FORBIDDEN") (lit "authorization callback rejected the admin call")) := by
    intro h hearly
    refine answers_call (fun heq => nomatch heq) hearly fun allowed hallowed => ?_
    cases allowed with
    | false => exact answers_early hallowed _
    | true => exact answers_cancelSession hallowed req
  refine answers_call (fun heq => nomatch heq) (List.forall_mem_nil _) fun authn hauthn => ?_
  cases authn.ok with
  | false => exact answers_early hauthn _
  | true =>
      -- the origin gate asks only for a cookie
      by_cases hcookie : authn.source = .cookie
      · simp only [Sql.originGate, if_pos hcookie]
        refine answers_call (fun heq => nomatch heq) hauthn fun same hsame => ?_
        cases same with
        | false => exact answers_early hsame _
        | true => exact hauthorize _ hsame
      · simp only [Sql.originGate, if_neg hcookie]
        exact hauthorize _ hauthn

end

/-- The request that reaches the handler of the route, where that handler is modelled from the body on. -/
def BodyRoute.request : BodyRoute → Request → Option RoutedRequest
  | .sql, req => some (.sql req)
  | .sqlCancel, req => some (.sqlCancel req)
  | .checkpoint, req => some (.checkpoint req)
  | .interrupt, req => some (.interrupt req)
  | .quack, _ | .ddbRun, _ | .ddbTokenize, _ => none

theorem answers_handler (deps : Deps) (setting : Option UInt64) {route : BodyRoute} {req : Request}
    {r : RoutedRequest} (hr : route.request req = some r) :
    Answers setting route req [] (handler deps r) := by
  cases route with
  | sql =>
      obtain rfl := Option.some.inj hr
      exact answers_handleSql deps req
  | sqlCancel =>
      obtain rfl := Option.some.inj hr
      exact answers_handleSqlCancel req
  | checkpoint =>
      obtain rfl := Option.some.inj hr
      exact answers_authorizedPost _ _ fun _ hearly => answers_checkpointBody hearly req
  | interrupt =>
      obtain rfl := Option.some.inj hr
      exact answers_authorizedPost _ _ fun _ hearly => answers_interrupt hearly req
  | quack => exact nomatch hr
  | ddbRun => exact nomatch hr
  | ddbTokenize => exact nomatch hr

/-! ## What the limit promises -/

/-- The value of `harbor_max_request_body_bytes` in effect. -/
def configuredLimit (setting : Option UInt64) : Nat :=
  (setting.map UInt64.toNat).getD kDefaultMaxBodyBytes

/-- The route keeps to the limit on this body: it never holds more, it refuses the body exactly when it
is longer, it does the same however the body is cut into chunks, and a handler that gets as far as the
body answers that it is too large exactly when it is. -/
structure Capped (setting : Option UInt64) (route : BodyRoute) (chunks : List Bytes) : Prop where
  buffered : ∀ n, (route.buffer setting (chunks.take n)).content.length ≤ configuredLimit setting
  refused : configuredLimit setting < chunks.flatten.length →
    (route.buffer setting chunks).read = none
  accepted : chunks.flatten.length ≤ configuredLimit setting →
    (route.buffer setting chunks).read = some chunks.flatten
  chunking : ∀ chunks' : List Bytes, chunks'.flatten = chunks.flatten →
    (route.buffer setting chunks').read = (route.buffer setting chunks).read
  answered : ∀ (deps : Deps) (req : Request) (r : RoutedRequest) (h : Past) (reply : Reply),
    req.body = chunks → route.request req = some r →
    Gets (AnsweredWith setting) (handler deps r) h (.done reply) → Asked h →
    (reply.tooLarge = true ↔ configuredLimit setting < chunks.flatten.length)

/-- The routes agree on whether they accept the body, whatever the chunks. -/
def Agree (setting : Option UInt64) (body : Bytes) : Prop :=
  ∀ (route route' : BodyRoute) (chunks chunks' : List Bytes), chunks.flatten = body →
    chunks'.flatten = body →
    ((route.buffer setting chunks).read = none ↔ (route'.buffer setting chunks').read = none)

/-- When a route keeps to the limit: the SQL routes always; the admin routes unless it is zero, and then
when they hold nothing, because there is nothing or because the first chunk is beyond the default; the
others when the body is within the limit anyway. -/
def KeepsCap (setting : Option UInt64) (route : BodyRoute) (chunks : List Bytes) : Prop :=
  match route with
  | .sql | .sqlCancel => True
  | .checkpoint | .interrupt => setting = some 0 → ∀ chunk,
      chunks.find? (fun chunk => !chunk.isEmpty) = some chunk → kDefaultMaxBodyBytes < chunk.length
  | .quack | .ddbRun | .ddbTokenize => chunks.flatten.length ≤ configuredLimit setting

/-- What is answered follows from what is read. -/
theorem Capped.of_reads {setting : Option UInt64} {route : BodyRoute} {chunks : List Bytes}
    (hbuffered : ∀ n,
      (route.buffer setting (chunks.take n)).content.length ≤ configuredLimit setting)
    (hrefused : configuredLimit setting < chunks.flatten.length →
      (route.buffer setting chunks).read = none)
    (haccepted : chunks.flatten.length ≤ configuredLimit setting →
      (route.buffer setting chunks).read = some chunks.flatten)
    (hchunking : ∀ chunks' : List Bytes, chunks'.flatten = chunks.flatten →
      (route.buffer setting chunks').read = (route.buffer setting chunks).read) :
    Capped setting route chunks where
  buffered := hbuffered
  refused := hrefused
  accepted := haccepted
  chunking := hchunking
  answered deps req r h reply hbody hr hgets hasked := by
    have hreports := hgets.result (answers_handler deps setting hr) hasked
    rw [hbody] at hreports
    rw [hreports]
    constructor
    · intro hnone
      by_contra hwithin
      rw [haccepted (by omega)] at hnone
      exact nomatch hnone
    · exact hrefused

theorem readUbigintSetting_eq (setting : Option UInt64) :
    readUbigintSetting setting kDefaultMaxBodyBytes = configuredLimit setting := by
  cases setting <;> rfl

theorem readMaxBodyBytes_of_ne {setting : Option UInt64} (h : setting ≠ some 0) :
    readMaxBodyBytes setting = configuredLimit setting := by
  cases setting with
  | none => rfl
  | some v =>
      rw [readMaxBodyBytes, if_neg (fun hv => h (congrArg some hv))]
      rfl

/-! ### With a limit and without -/

/-- A reader with a limit reads what is within it. -/
theorem read_bounded (limit : Nat) (chunks : List Bytes) :
    (readRequestBodyWithLimit limit chunks).read =
      if limit < chunks.flatten.length then none else some chunks.flatten := by
  have hread := read_feed_receiveUpTo limit chunks (b := {}) rfl (Nat.zero_le limit)
  simpa [readRequestBodyWithLimit] using hread

/-- A reader without one reads everything. -/
theorem read_content (chunks : List Bytes) : readContent chunks = { content := chunks.flatten } := by
  rw [readContent, feed_receiveAll]
  rfl

/-- A route whose reader has the limit keeps to it. -/
theorem capped_of_bounded {setting : Option UInt64} {route : BodyRoute} {chunks : List Bytes}
    (hbuffer : route.buffer setting = readRequestBodyWithLimit (configuredLimit setting)) :
    Capped setting route chunks := by
  refine .of_reads (fun n => ?_) (fun hlong => ?_) (fun hshort => ?_) fun chunks' hflatten => ?_
  · rw [hbuffer]
    exact length_feed_receiveUpTo _ _
  · rw [hbuffer, read_bounded, if_pos hlong]
  · rw [hbuffer, read_bounded, if_neg (by omega)]
  · rw [hbuffer, read_bounded, read_bounded, hflatten]

/-- A route whose reader has none keeps to it on the bodies within it. -/
theorem capped_iff_of_unbounded {setting : Option UInt64} {route : BodyRoute} {chunks : List Bytes}
    (hbuffer : route.buffer setting = readContent) :
    Capped setting route chunks ↔ chunks.flatten.length ≤ configuredLimit setting := by
  constructor
  · intro h
    by_contra hlong
    have hrefused := h.refused (by omega)
    rw [hbuffer, read_content] at hrefused
    exact nomatch hrefused
  · intro hshort
    refine .of_reads (fun n => ?_) (fun hlong => absurd hshort (by omega)) (fun _ => ?_)
      fun chunks' h => ?_
    · rw [hbuffer, read_content]
      calc (chunks.take n).flatten.length
          ≤ (chunks.take n).flatten.length + (chunks.drop n).flatten.length := Nat.le_add_right _ _
        _ = chunks.flatten.length := by
            rw [← List.length_append, ← List.flatten_append, List.take_append_drop]
        _ ≤ configuredLimit setting := hshort
    · rw [hbuffer, read_content]
      rfl
    · rw [hbuffer, read_content, read_content, h]

/-- A route that takes zero for the default keeps to zero where it holds nothing. -/
theorem capped_zero_iff {route : BodyRoute} {chunks : List Bytes}
    (hbuffer : route.buffer (some 0) = readRequestBodyWithLimit kDefaultMaxBodyBytes) :
    Capped (some 0) route chunks ↔ ∀ chunk,
      chunks.find? (fun chunk => !chunk.isEmpty) = some chunk →
        kDefaultMaxBodyBytes < chunk.length := by
  rw [← content_feed_receiveUpTo_eq_nil]
  constructor
  · intro h
    have hbuffered := h.buffered chunks.length
    rw [hbuffer, List.take_length] at hbuffered
    exact List.eq_nil_of_length_eq_zero (Nat.le_zero.mp hbuffered)
  · intro hnil
    have hread := read_bounded kDefaultMaxBodyBytes chunks
    refine .of_reads (fun n => ?_) (fun hlong => ?_) (fun hshort => ?_) fun chunks' hflatten => ?_
    · have htake : (readRequestBodyWithLimit kDefaultMaxBodyBytes (chunks.take n)).content = [] := by
        rw [readRequestBodyWithLimit, content_feed_receiveUpTo_eq_nil]
        intro chunk hchunk
        refine content_feed_receiveUpTo_eq_nil.mp hnil chunk ?_
        rw [← List.take_append_drop n chunks, List.find?_append, hchunk]
        rfl
      rw [hbuffer, htake]
      exact Nat.zero_le _
    · -- what is read is what is held, and that is nothing
      rw [hbuffer, hread, if_pos]
      by_contra hwithin
      rw [if_neg hwithin] at hread
      have hflatten : [] = chunks.flatten := hnil.symm.trans (content_of_read hread)
      rw [← hflatten] at hlong
      exact absurd hlong (Nat.not_lt_zero _)
    · have hempty : chunks.flatten.length ≤ 0 := hshort
      rw [hbuffer, hread, if_neg (by omega)]
    · rw [hbuffer, read_bounded, read_bounded, hflatten]

theorem capped_iff (setting : Option UInt64) (route : BodyRoute) (chunks : List Bytes) :
    Capped setting route chunks ↔ KeepsCap setting route chunks := by
  have hadmin : ∀ {route : BodyRoute},
      route.buffer setting = readRequestBodyWithLimit (readMaxBodyBytes setting) →
      (Capped setting route chunks ↔ KeepsCap setting .interrupt chunks) := by
    intro route hbuffer
    by_cases hzero : setting = some 0
    · subst hzero
      exact (capped_zero_iff hbuffer).trans ⟨fun h _ => h, fun h => h rfl⟩
    · rw [readMaxBodyBytes_of_ne hzero] at hbuffer
      exact ⟨fun _ h => absurd h hzero, fun _ => capped_of_bounded hbuffer⟩
  have hsql : readRequestBodyWithLimit (readUbigintSetting setting kDefaultMaxBodyBytes) =
      readRequestBodyWithLimit (configuredLimit setting) := by rw [readUbigintSetting_eq]
  cases route with
  | sql => exact ⟨fun _ => trivial, fun _ => capped_of_bounded hsql⟩
  | sqlCancel => exact ⟨fun _ => trivial, fun _ => capped_of_bounded hsql⟩
  | checkpoint => exact hadmin rfl
  | interrupt => exact hadmin rfl
  | quack => exact capped_iff_of_unbounded rfl
  | ddbRun => exact capped_iff_of_unbounded rfl
  | ddbTokenize => exact capped_iff_of_unbounded rfl

/-- Every route keeps to the limit on the bodies within it. -/
theorem keepsCap_of_within {setting : Option UInt64} {chunks : List Bytes}
    (h : chunks.flatten.length ≤ configuredLimit setting) (route : BodyRoute) :
    KeepsCap setting route chunks := by
  have hadmin : KeepsCap setting .interrupt chunks := by
    intro hzero chunk hchunk
    subst hzero
    have hempty : chunks.flatten = [] := List.eq_nil_of_length_eq_zero (Nat.le_zero.mp h)
    rw [List.flatten_eq_nil_iff.mp hempty chunk (List.mem_of_find?_eq_some hchunk)] at hchunk
    exact absurd (List.find?_some hchunk) (by simp)
  cases route with
  | sql => trivial
  | sqlCancel => trivial
  | checkpoint => exact hadmin
  | interrupt => exact hadmin
  | quack => exact h
  | ddbRun => exact h
  | ddbTokenize => exact h

/-- The routes agree on the bodies within the limit: those with a limit refuse no such body, and those
without refuse none. -/
theorem agree_iff (setting : Option UInt64) (body : Bytes) :
    Agree setting body ↔ body.length ≤ configuredLimit setting := by
  constructor
  · intro h
    by_contra hlong
    have hsql : (BodyRoute.sql.buffer setting [body]).read = none := by
      refine (capped_iff setting .sql [body]).mpr trivial |>.refused ?_
      rw [List.flatten_singleton]
      omega
    have hquack := (h .sql .quack [body] [body] (List.flatten_singleton) (List.flatten_singleton)).mp hsql
    exact nomatch hquack
  · intro hshort route route' chunks chunks' hchunks hchunks'
    have haccepts : ∀ (route : BodyRoute) (chunks : List Bytes), chunks.flatten = body →
        (route.buffer setting chunks).read ≠ none := by
      intro route chunks hchunks
      rw [← hchunks] at hshort
      rw [((capped_iff setting route chunks).mpr (keepsCap_of_within hshort route)).accepted hshort]
      exact Option.some_ne_none _
    exact iff_of_false (haccepts route chunks hchunks) (haccepts route' chunks' hchunks')

/-- **When the limit is kept.** All the routes keep to the limit and agree on a body exactly when the body
is within the limit; which route keeps to it on which bodies is `KeepsCap`. -/
theorem body_cap_iff (setting : Option UInt64) (chunks : List Bytes) :
    (((∀ route, Capped setting route chunks) ∧ Agree setting chunks.flatten) ↔
      chunks.flatten.length ≤ configuredLimit setting) ∧
    ∀ route, Capped setting route chunks ↔ KeepsCap setting route chunks := by
  refine ⟨⟨fun h => (agree_iff setting _).mp h.2, fun hwithin => ⟨fun route => ?_, ?_⟩⟩,
    fun route => capped_iff setting route chunks⟩
  · exact (capped_iff setting route chunks).mpr (keepsCap_of_within hwithin route)
  · exact (agree_iff setting _).mpr hwithin

/-- Five bytes. -/
def fiveBytes : List Bytes := [lit "hello"]

/-- With a limit of four they are refused by `/sql` and kept by `/quack` and `/ddb/run`; with a limit of
zero they are refused by `/sql` and kept by `/interrupt`. -/
theorem uncapped_fiveBytes :
    (BodyRoute.sql.buffer (some 4) fiveBytes).read = none ∧
    (BodyRoute.quack.buffer (some 4) fiveBytes).read = some (lit "hello") ∧
    (BodyRoute.ddbRun.buffer (some 4) fiveBytes).read = some (lit "hello") ∧
    (BodyRoute.sql.buffer (some 0) fiveBytes).read = none ∧
    (BodyRoute.interrupt.buffer (some 0) fiveBytes).read = some (lit "hello") ∧
    ¬ ∀ (setting : Option UInt64) (chunks : List Bytes),
      (∀ route, Capped setting route chunks) ∧ Agree setting chunks.flatten := by
  refine ⟨by decide, by decide, by decide, by decide, by decide, fun h => ?_⟩
  have hshort : fiveBytes.flatten.length ≤ configuredLimit (some 4) :=
    (agree_iff (some 4) fiveBytes.flatten).mp (h (some 4) fiveBytes).2
  exact absurd hshort (by decide)

end Harbor.Routes
