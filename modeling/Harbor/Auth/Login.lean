import Harbor.Auth.Origin
import Harbor.Lib.Find
import Harbor.Lib.JsonText

set_option autoImplicit false

/-! # The login

`AuthHandlers::HandleLogin` takes a token from one of two headers or from the JSON of the body, has it
checked, and issues a cookie for its principal. The headers are read as `AuthenticateRequest` reads
them. The body is searched for `"token"`, a colon and two quotes, and a token that its JSON spells with
an escape is refused. **`one_token_one_outcome`** compares the ways in.
-/

namespace Harbor.Auth

open Json (Piece spell quoted)

/-! ## The request and the reply -/

/-- `kLoginSessionId`. -/
def kLoginSessionId : Bytes := lit "__HARBOR_AUTH__:login"

/-- `kCookieName`. -/
def kCookieName : Bytes := lit "harbor_session"

/-- `kMaxLoginBodyBytes`. -/
def kMaxLoginBodyBytes : Nat := 4096

/-- `kDefaultCookieTtlSec`. -/
def kDefaultCookieTtlSec : Nat := 43200

/-- `kCookieMaxAgeCap`. -/
def kCookieMaxAgeCap : Nat := 315576000

structure LoginRequest where
  headers : Headers
  body : Bytes

/-- The reply; `issued` is the cookie its `Set-Cookie` field is made of. -/
structure LoginReply where
  status : Nat
  headers : Headers
  body : Bytes
  issued : Option IssuedCookie := none
  deriving DecidableEq, Repr

/-- What a login looks at besides the request. -/
structure LoginContext extends AuthContext where
  origins : Origins
  /-- The setting `harbor_auth_cookie_ttl_s`; `none` when it cannot be read. -/
  cookieTtl : Option Nat
  /-- What `RAND_bytes` gives for the nonce of the cookie. -/
  nonce : Option (Vector UInt8 16)
  /-- The time when the reply is written. -/
  replyTime : Nat
  /-- `IsoUtcFromUnix`. -/
  isoUtcFromUnix : Nat → Bytes

/-- `EscapeJsonString`. -/
def escapeJsonString (s : Bytes) : Bytes :=
  s.flatMap fun c =>
    if c = 0x22 then [0x5C, 0x22]
    else if c = 0x5C then [0x5C, 0x5C]
    else if c = 0x08 then lit "\\b"
    else if c = 0x0C then lit "\\f"
    else if c = 0x0A then lit "\\n"
    else if c = 0x0D then lit "\\r"
    else if c = 0x09 then lit "\\t"
    else if c < 0x20 then lit "\\u00" ++ bytesToHex [c]
    else [c]

/-- The headers `ApplyCorsHeaders` sets. -/
def corsHeaders (origins : Origins) (headers : Headers) : Headers :=
  let origin := getHeaderValue headers (lit "Origin")
  if origin ≠ [] ∧ origins.resolveCorsOrigin origin = true then
    [(lit "Access-Control-Allow-Origin", origin),
      (lit "Access-Control-Allow-Credentials", lit "true"), (lit "Vary", lit "Origin")]
  else []

/-- `WriteJsonError`. -/
def writeJsonError (headers : Headers) (status : Nat) (errorCode message : Bytes) : LoginReply where
  status := status
  headers := headers
  body := lit "\x7b\"error\":\"" ++ escapeJsonString errorCode ++ lit "\",\"message\":\"" ++
    escapeJsonString message ++ lit "\"\x7d"

/-- `CookieTtlSec`. -/
def cookieTtlSec (setting : Option Nat) : Nat :=
  match setting with
  | none => kDefaultCookieTtlSec
  | some v => if v = 0 then kDefaultCookieTtlSec else min v kCookieMaxAgeCap

/-- `RequestIsBehindHttps`. -/
def requestIsBehindHttps (headers : Headers) : Bool :=
  Bytes.lower (getHeaderValue headers (lit "X-Forwarded-Proto")) == lit "https" ||
    Bytes.startsWith (getHeaderValue headers (lit "Origin")) (lit "https://")

/-! ## The token -/

/-- `ExtractTokenFromBody`: what is between the first two quotes behind the first colon behind the
first `"token"`, unless it has a backslash. -/
def extractTokenFromBody (body : Bytes) : Bytes :=
  let value := do
    let keyPos ← Bytes.findFrom body (lit "\"token\"") 0
    let colon ← Bytes.findFrom body [0x3A] (keyPos + 7)
    let firstQuote ← Bytes.findFrom body [0x22] (colon + 1)
    let secondQuote ← Bytes.findFrom body [0x22] (firstQuote + 1)
    some ((body.drop (firstQuote + 1)).take (secondQuote - firstQuote - 1))
  match value with
  | none => []
  | some value => if 0x5C ∈ value then [] else value

/-- The token of a request; an error is its status, code and message. -/
def loginToken (req : LoginRequest) : Except (Nat × Bytes × Bytes) Bytes :=
  let authHeader := getHeaderValue req.headers (lit "Authorization")
  let xHarbor := getHeaderValue req.headers (lit "X-Harbor-Token")
  if authHeader ≠ [] then
    if Bytes.startsWith authHeader (lit "Bearer ") = false then
      .error (401, lit "UNSUPPORTED_AUTH_SCHEME",
        lit "unsupported Authorization scheme — only Bearer is accepted")
    else .ok (Bytes.trim (authHeader.drop 7))
  else if xHarbor ≠ [] then .ok (Bytes.trim xHarbor)
  else if req.body ≠ [] then
    if req.body.length > kMaxLoginBodyBytes then
      .error (413, lit "BODY_TOO_LARGE", lit "request body exceeds the /auth/login limit")
    else .ok (extractTokenFromBody req.body)
  else .ok []

/-! ## The handler -/

/-- The reply to a login that issued the cookie. -/
def acceptedReply (env : LoginContext) (req : LoginRequest) (cookie : IssuedCookie) : LoginReply :=
  let ttlS := cookieTtlSec env.cookieTtl
  { status := 200
    headers := corsHeaders env.origins req.headers ++
      [(lit "Set-Cookie", kCookieName ++ lit "=" ++ cookie.text ++
        lit "; HttpOnly; SameSite=Strict; Path=/; Max-Age=" ++ Bytes.decNat ttlS ++
        (if requestIsBehindHttps req.headers then lit "; Secure" else []))]
    body := lit "\x7b\"principal\":\"" ++ escapeJsonString (cookie.principalHex.take 8) ++
      lit "\",\"expires_at\":\"" ++
      escapeJsonString (env.isoUtcFromUnix ((env.replyTime + ttlS) % 2 ^ 64)) ++ lit "\"\x7d"
    issued := some cookie }

def missingCredential : Bytes :=
  lit "/auth/login requires Authorization, X-Harbor-Token, or \x7b\"token\":\"...\"\x7d body"

/-- `AuthHandlers::HandleLogin`, with the signing key after it; `none` where it throws. -/
def handleLogin (auth : AuthManager) (env : LoginContext) (req : LoginRequest) :
    Option (LoginReply × Bytes) :=
  let cors := corsHeaders env.origins req.headers
  match loginToken req with
  | .error (status, errorCode, message) =>
      some (writeJsonError cors status errorCode message, env.signingKey)
  | .ok token =>
      if token = [] then
        some (writeJsonError cors 400 (lit "MISSING_CREDENTIAL") missingCredential, env.signingKey)
      else if auth.runAuthentication env.db kLoginSessionId token = false then
        some (writeJsonError cors 401 (lit "INVALID_TOKEN") (lit "authentication failed"),
          env.signingKey)
      else do
        let (cookie, key) ← issueCookie env.crypto env.signingKey
          ⟨principalIdHex env.crypto token, cookieTtlSec env.cookieTtl, env.now, env.nonce, env.random⟩
        some (acceptedReply env req cookie, key)

/-! ## A token in a body -/

/-- The body as a client writes it: white space and a brace, the key, the colon, the string. -/
structure BodyLayout where
  before : Bytes
  beforeColon : Bytes
  afterColon : Bytes
  behind : Bytes

/-- White space and at most the brace. -/
structure BodyLayout.Ok (layout : BodyLayout) : Prop where
  before : ∃ w w', Json.IsBlank w ∧ Json.IsBlank w' ∧ layout.before = w ++ 0x7B :: w'
  beforeColon : Json.IsBlank layout.beforeColon
  afterColon : Json.IsBlank layout.afterColon

/-- The member `token` with the string, and whatever stands behind it. -/
def BodyLayout.text (layout : BodyLayout) (ps : List Piece) : Bytes :=
  layout.before ++ (lit "\"token\"" ++ (layout.beforeColon ++ 0x3A ::
    (layout.afterColon ++ (quoted ps ++ layout.behind))))

/-- No escapes. -/
def Plain (ps : List Piece) : Prop := ∀ p ∈ ps, ∃ c, p = .char c

section

variable {w w' w'' s : Bytes}

/-- The first quote is the one of the key. -/
theorem findFrom_key (hw : 0x22 ∉ w) (s : Bytes) :
    Bytes.findFrom (w ++ (lit "\"token\"" ++ s)) (lit "\"token\"") 0 = some w.length := by
  refine Bytes.findFrom_eq_some.mpr ⟨Nat.zero_le _, ?_, ?_, fun j _ hj hfound => ?_⟩
  · rw [List.length_append]
    omega
  · rw [List.drop_left]
    exact List.prefix_append _ _
  · rw [List.drop_append_of_le_length (by omega), List.drop_eq_getElem_cons hj,
      List.cons_append] at hfound
    have hquote : 0x22 = w[j] := (List.cons_prefix_cons.mp hfound).1
    exact hw (hquote ▸ List.getElem_mem hj)

/-- The four searches, each from where the one before it ended. -/
theorem extractTokenFromBody_key (hw : 0x22 ∉ w) (hw' : 0x3A ∉ w') (hw'' : 0x22 ∉ w'')
    (hs : 0x22 ∈ s) :
    extractTokenFromBody (w ++ (lit "\"token\"" ++ (w' ++ 0x3A :: (w'' ++ 0x22 :: s)))) =
      if 0x5C ∈ s.takeWhile (· ≠ 0x22) then [] else s.takeWhile (· ≠ 0x22) := by
  have hrest := Bytes.eq_takeWhile_of_mem hs
  have hfree := Bytes.notMem_takeWhile 0x22 s
  generalize s.takeWhile (· ≠ 0x22) = value at hrest hfree ⊢
  generalize (s.dropWhile (· ≠ 0x22)).tail = behind at hrest
  subst hrest
  have hkey := findFrom_key hw (w' ++ 0x3A :: (w'' ++ 0x22 :: (value ++ 0x22 :: behind)))
  have hlen : (lit "\"token\"").length = 7 := rfl
  rw [extractTokenFromBody]
  generalize lit "\"token\"" = key at hkey hlen ⊢
  have hcolon := Bytes.findFrom_byte hw' (w ++ key) (w'' ++ 0x22 :: (value ++ 0x22 :: behind))
  have hfirst := Bytes.findFrom_byte hw'' (w ++ key ++ (w' ++ [0x3A])) (value ++ 0x22 :: behind)
  have hsecond := Bytes.findFrom_byte hfree
    (w ++ key ++ (w' ++ [0x3A]) ++ (w'' ++ [0x22])) behind
  have hdrop := @List.drop_left UInt8 (w ++ key ++ (w' ++ [0x3A]) ++ (w'' ++ [0x22]))
    (value ++ 0x22 :: behind)
  simp only [List.append_assoc, List.cons_append, List.nil_append, List.length_append,
    List.length_cons, List.length_nil, hlen] at hcolon hfirst hsecond hdrop
  -- the positions of the source, counted from the front
  have hbehindColon : w.length + 7 + w'.length + 1 = w.length + (7 + (w'.length + (0 + 1))) := by
    omega
  have hbehindQuote : w.length + (7 + (w'.length + (0 + 1))) + w''.length + 1 =
      w.length + (7 + (w'.length + (w''.length + (0 + 1) + 1))) := by
    omega
  have hlength : w.length + (7 + (w'.length + (w''.length + (0 + 1) + 1))) + value.length -
      (w.length + (7 + (w'.length + (0 + 1))) + w''.length) - 1 = value.length := by
    omega
  simp only [hkey, hcolon, hbehindColon, hfirst, hbehindQuote, hsecond, hdrop, hlength,
    Option.bind_eq_bind, Option.bind_some, List.take_left]

/-! ## The strings of a body -/

theorem quote_notMem_blank (hw : Json.IsBlank w) : 0x22 ∉ w := by
  intro h
  exact absurd (hw _ h) (by decide)

theorem colon_notMem_blank (hw : Json.IsBlank w) : 0x3A ∉ w := by
  intro h
  exact absurd (hw _ h) (by decide)

theorem quote_notMem_before {layout : BodyLayout} (h : layout.Ok) : 0x22 ∉ layout.before := by
  obtain ⟨v, v', hv, hv', hbefore⟩ := h.before
  rw [hbefore, List.mem_append, List.mem_cons, not_or, not_or]
  exact ⟨quote_notMem_blank hv, by decide, quote_notMem_blank hv'⟩

/-- What stands between the first two quotes behind the colon. -/
theorem extractTokenFromBody_text {layout : BodyLayout} (h : layout.Ok) (ps : List Piece) :
    extractTokenFromBody (layout.text ps) =
      if 0x5C ∈ (spell ps ++ 0x22 :: layout.behind).takeWhile (· ≠ 0x22) then []
      else (spell ps ++ 0x22 :: layout.behind).takeWhile (· ≠ 0x22) := by
  have hquoted : quoted ps ++ layout.behind = 0x22 :: (spell ps ++ 0x22 :: layout.behind) := by
    simp [quoted]
  rw [BodyLayout.text, hquoted]
  exact extractTokenFromBody_key (quote_notMem_before h) (colon_notMem_blank h.beforeColon)
    (quote_notMem_blank h.afterColon) (by simp)

theorem spell_plain {ps : List Piece} (hplain : Plain ps) : spell ps = ps.flatMap Piece.chars := by
  refine List.flatMap_congr fun p hp => ?_
  obtain ⟨c, rfl⟩ := hplain p hp
  rfl

theorem mem_spell_plain {ps : List Piece} (hps : ∀ p ∈ ps, p.Ok) (hplain : Plain ps) :
    0x22 ∉ spell ps ∧ 0x5C ∉ spell ps := by
  have hbyte : ∀ b ∈ spell ps, b ≠ 0x22 ∧ b ≠ 0x5C := by
    intro b hb
    obtain ⟨p, hp, hb⟩ := List.mem_flatMap.mp hb
    obtain ⟨c, rfl⟩ := hplain p hp
    exact (Json.plain_of_mem_chars (hps _ hp) hb).2
  exact ⟨fun h => (hbyte _ h).1 rfl, fun h => (hbyte _ h).2 rfl⟩

/-- **A string without escapes is the token.** -/
theorem extractTokenFromBody_plain {layout : BodyLayout} (h : layout.Ok) {ps : List Piece}
    (hps : ∀ p ∈ ps, p.Ok) (hplain : Plain ps) :
    extractTokenFromBody (layout.text ps) = ps.flatMap Piece.chars := by
  obtain ⟨hquote, hslash⟩ := mem_spell_plain hps hplain
  rw [extractTokenFromBody_text h, Bytes.takeWhile_append hquote, if_neg hslash, spell_plain hplain]

/-- In front of the first quote of a string with an escape there is a backslash. -/
theorem slash_mem_takeWhile {ps : List Piece} (hps : ∀ p ∈ ps, p.Ok) (hescape : ¬ Plain ps)
    (s : Bytes) : 0x5C ∈ (spell ps ++ s).takeWhile (· ≠ 0x22) := by
  induction ps with
  | nil => exact absurd (fun p hp => nomatch hp) hescape
  | cons p ps ih =>
      obtain ⟨hp, hrest⟩ := List.forall_mem_cons.mp hps
      rw [Json.spell_cons, List.append_assoc]
      cases p with
      | short b => exact List.mem_cons_self
      | unicode a b c d => exact List.mem_cons_self
      | char c =>
          have htail : ¬ Plain ps := fun hplain =>
            hescape (List.forall_mem_cons.mpr ⟨⟨c, rfl⟩, hplain⟩)
          have hkeep : ∀ b ∈ (Piece.char c).text, decide (b ≠ 0x22) = true := fun b hb =>
            decide_eq_true (Json.plain_of_mem_chars hp hb).2.1
          rw [List.takeWhile_append_of_pos hkeep]
          exact List.mem_append_right _ (ih hrest htail)

/-- **A string with an escape is refused.** -/
theorem extractTokenFromBody_escape {layout : BodyLayout} (h : layout.Ok) {ps : List Piece}
    (hps : ∀ p ∈ ps, p.Ok) (hescape : ¬ Plain ps) : extractTokenFromBody (layout.text ps) = [] := by
  rw [extractTokenFromBody_text h, if_pos (slash_mem_takeWhile hps hescape _)]

end

/-! ## Presenting a token -/

/-- Whom a request is taken for; `none` when it is refused. -/
def AuthResult.outcome (result : AuthResult) : Option Bytes :=
  if result.ok then some result.principalId else none

/-- The authentication callback looks at the token alone. -/
def TokenOnly (auth : AuthManager) (db : Option Database) : Prop :=
  ∀ sessionId sessionId' token,
    auth.runAuthentication db sessionId token = auth.runAuthentication db sessionId' token

/-- Whom the token makes of the one who presents it, without the white space around it. -/
def AuthManager.holder (auth : AuthManager) (ctx : AuthContext) (t : Bytes) : Option Bytes :=
  let token := Bytes.trim t
  if token ≠ [] ∧ auth.runAuthentication ctx.db kLoginSessionId token = true then
    some (if auth.unauthenticated then localDevPrincipalId else principalIdHex ctx.crypto token)
  else none

inductive TokenHeader where
  | authorization
  | xHarborToken
  deriving DecidableEq, Repr

/-- The token is in this header, and no other credential is there. -/
structure Presented (way : TokenHeader) (t : Bytes) (headers : Headers) : Prop where
  authorization : getHeaderValue headers (lit "Authorization") =
    match way with
    | .authorization => lit "Bearer " ++ t
    | .xHarborToken => []
  xHarborToken : getHeaderValue headers (lit "X-Harbor-Token") =
    match way with
    | .authorization => []
    | .xHarborToken => t
  cookie : getHeaderValue headers (lit "Cookie") = []

/-- The request has neither header. -/
structure Bare (headers : Headers) : Prop where
  authorization : getHeaderValue headers (lit "Authorization") = []
  xHarborToken : getHeaderValue headers (lit "X-Harbor-Token") = []

/-- A login request with the token in a header, or, without an escape and trimmed, in its body. -/
inductive Carries (t : Bytes) : LoginRequest → Prop where
  | header {way : TokenHeader} {headers : Headers} {body : Bytes} (h : Presented way t headers)
      (hbody : t ≠ [] ∨ body = []) : Carries t ⟨headers, body⟩
  | body {headers : Headers} {layout : BodyLayout} {ps : List Piece} (hbare : Bare headers)
      (hlayout : layout.Ok) (hps : ∀ p ∈ ps, p.Ok) (hplain : Plain ps)
      (ht : ps.flatMap Piece.chars = t) (htrim : Bytes.trim t = t)
      (hlength : (layout.text ps).length ≤ kMaxLoginBodyBytes) : Carries t ⟨headers, layout.text ps⟩

/-- A browser sends the cookie back. -/
structure BringsBack (cookie : IssuedCookie) (headers : Headers) : Prop extends Bare headers where
  cookie : getHeaderValue headers (lit "Cookie") = kCookieName ++ lit "=" ++ cookie.text

/-- What a login comes to: a refusal, or a cookie that, until it expires, makes every request that
brings it back one of the principal. -/
def LoginOutcome (auth : AuthManager) (env : LoginContext) (req : LoginRequest) :
    Option Bytes → Prop
  | none => ∃ reply, handleLogin auth env req = some (reply, env.signingKey) ∧
      reply.issued = none ∧ reply.status ∈ [400, 401]
  | some principal => ∃ cookie key,
      handleLogin auth env req = some (acceptedReply env req cookie, key) ∧
      ∀ (ctx : AuthContext) headers sessionId, ctx.crypto = env.crypto → ctx.signingKey = key →
        ctx.now < cookie.expiresUnix → BringsBack cookie headers →
        (auth.authenticateRequest ctx headers sessionId).outcome = some principal

/-! ### In a header of any request -/

variable {auth : AuthManager} {env : LoginContext} {t : Bytes}

theorem tryExplicitToken_outcome {ctx : AuthContext} (hcallback : TokenOnly auth ctx.db)
    (hmode : auth.unauthenticated = false) (sessionId : Bytes) {source : AuthSource} {raw : Bytes}
    (hscheme : source = .bearer → Bytes.startsWith raw (lit "Bearer ") = true) :
    (auth.tryExplicitToken ctx sessionId source raw).outcome =
      auth.holder ctx (if source = .bearer then raw.drop 7 else raw) := by
  have hnot : ¬ (source = .bearer ∧ Bytes.startsWith raw (lit "Bearer ") = false) := by
    rintro ⟨hsource, hfalse⟩
    rw [hscheme hsource] at hfalse
    cases hfalse
  rw [AuthManager.tryExplicitToken, if_neg hnot, AuthManager.holder]
  generalize Bytes.trim (if source = .bearer then raw.drop 7 else raw) = token
  dsimp only
  rw [hcallback sessionId kLoginSessionId token]
  by_cases htoken : token = []
  · rw [if_pos htoken, if_neg (fun h => h.1 htoken)]
    rfl
  · rw [if_neg htoken]
    cases hrun : auth.runAuthentication ctx.db kLoginSessionId token with
    | false =>
        rw [if_pos rfl, if_neg (fun h => Bool.false_ne_true h.2)]
        rfl
    | true =>
        rw [if_neg (by decide), if_pos ⟨htoken, rfl⟩, hmode]
        rfl

theorem startsWith_bearer (t : Bytes) :
    Bytes.startsWith (lit "Bearer " ++ t) (lit "Bearer ") = true :=
  Bytes.startsWith_iff.mpr (List.prefix_append _ _)

theorem bearer_ne_nil (t : Bytes) : lit "Bearer " ++ t ≠ [] := fun h => nomatch h

theorem holder_nil (auth : AuthManager) (ctx : AuthContext) : auth.holder ctx [] = none := by
  rw [AuthManager.holder]
  exact if_neg fun h => h.1 rfl

theorem authenticate_presented {ctx : AuthContext} (hcallback : TokenOnly auth ctx.db)
    (hmode : auth.unauthenticated = false) {way : TokenHeader} {headers : Headers}
    (h : Presented way t headers) (sessionId : Bytes) :
    (auth.authenticateRequest ctx headers sessionId).outcome = auth.holder ctx t := by
  rw [AuthManager.authenticateRequest, hmode, if_neg Bool.false_ne_true, h.authorization,
    h.xHarborToken, h.cookie]
  cases way with
  | authorization =>
      dsimp only
      rw [if_pos (bearer_ne_nil t)]
      exact tryExplicitToken_outcome hcallback hmode sessionId fun _ => startsWith_bearer t
  | xHarborToken =>
      dsimp only
      rw [if_neg (not_not.mpr rfl)]
      by_cases ht : t = []
      · subst ht
        rw [if_neg (not_not.mpr rfl), if_neg (fun h => h.1 rfl), holder_nil]
        rfl
      · rw [if_pos ht]
        exact tryExplicitToken_outcome hcallback hmode sessionId fun h => nomatch h

/-! ### In a login -/

theorem text_body_ne_nil (layout : BodyLayout) (ps : List Piece) : layout.text ps ≠ [] := by
  intro hnil
  have hmem : (0x3A : UInt8) ∈ layout.text ps := by simp [BodyLayout.text]
  rw [hnil] at hmem
  cases hmem

/-- Every way into a login leads to the same token. -/
theorem loginToken_carries {req : LoginRequest} (h : Carries t req) :
    loginToken req = .ok (Bytes.trim t) := by
  cases h with
  | @header way headers body h hbody =>
      rw [loginToken, h.authorization, h.xHarborToken]
      cases way with
      | authorization =>
          dsimp only
          rw [if_pos (bearer_ne_nil t), startsWith_bearer, if_neg (by decide)]
          rfl
      | xHarborToken =>
          dsimp only
          rw [if_neg (not_not.mpr rfl)]
          by_cases ht : t = []
          · subst ht
            rw [if_neg (not_not.mpr rfl), if_neg (not_not.mpr (hbody.resolve_left (not_not.mpr rfl)))]
            rfl
          · rw [if_pos ht]
  | @body headers layout ps hbare hlayout hps hplain ht htrim hlength =>
      have hne := text_body_ne_nil layout ps
      rw [loginToken, hbare.authorization, hbare.xHarborToken]
      dsimp only
      rw [if_neg (not_not.mpr rfl), if_neg (not_not.mpr rfl), if_pos hne, if_neg (not_lt.mpr hlength),
        extractTokenFromBody_plain hlayout hps hplain, ht, htrim]

/-! ### Back with the cookie -/

theorem semicolon_notMem_text (cookie : IssuedCookie) : 0x3B ∉ cookie.text := by
  intro h
  have hencode : ∀ s, (0x3B : UInt8) ∉ Base64Url.encode s := by
    intro s hmem
    obtain ⟨n, hn, heq⟩ := Base64Url.mem_encode _ hmem
    exact absurd heq.symm ((by decide : ∀ n < 64, Base64Url.alphabet n ≠ 0x3B) n hn)
  rcases Bytes.mem_intercalate h with hdot | ⟨segment, hsegment, hmem⟩
  · exact absurd hdot (by decide)
  · simp only [IssuedCookie.segments, List.cons_append, List.nil_append, List.mem_cons,
      List.not_mem_nil, or_false] at hsegment
    rcases hsegment with rfl | rfl | rfl | rfl | rfl
    · exact absurd hmem (by decide)
    all_goals exact hencode _ hmem

theorem text_ne_nil (cookie : IssuedCookie) : cookie.text ≠ [] := by
  intro h
  have hsplit := splitOn_text cookie
  rw [h] at hsplit
  cases hsplit

/-- A header with this cookie alone gives its value. -/
theorem extractCookie_alone {value : Bytes} (h : 0x3B ∉ value) :
    extractCookie (kCookieName ++ lit "=" ++ value) kCookieName = value := by
  have hfree : (0x3B : UInt8) ∉ kCookieName ++ lit "=" ++ value := by
    rw [List.mem_append, not_or]
    exact ⟨by decide, h⟩
  have hsplit : (kCookieName ++ lit "=" ++ value).splitOn 0x3B = [kCookieName ++ lit "=" ++ value] := by
    have hpieces : ∀ l ∈ [kCookieName ++ lit "=" ++ value], (0x3B : UInt8) ∉ l :=
      fun l hl => List.mem_singleton.mp hl ▸ hfree
    have hone := List.splitOn_intercalate 0x3B hpieces (by simp)
    rwa [List.intercalate_singleton] at hone
  have hspace : (kCookieName ++ lit "=" ++ value).dropWhile Bytes.isSpace =
      kCookieName ++ lit "=" ++ value := Bytes.dropWhile_isSpace_of_head fun b hb => by
    cases hb
    rfl
  have hname : kCookieName ++ lit "=" ++ value = kCookieName ++ 0x3D :: value := by
    rw [List.append_assoc]
    rfl
  have hkeep : ∀ b ∈ kCookieName, decide (b ≠ 0x3D) = true := by decide
  rw [extractCookie, if_neg (not_or.mpr ⟨fun h => (nomatch h), by decide⟩), hsplit,
    extractCookieLoop, hspace, hname, if_neg (not_not.mpr (by simp)),
    if_pos (Bytes.takeWhile_append (by decide) value), List.dropWhile_append_of_pos hkeep]
  rfl

/-- The issued cookie is taken for the principal it was issued for. -/
theorem authenticate_broughtBack {call : IssueCall} {cookie : IssuedCookie} {signingKey key : Bytes}
    {ctx : AuthContext} (hissue : issueCookie ctx.crypto signingKey call = some (cookie, key))
    (hkey : ctx.signingKey = key) (hnow : ctx.now < cookie.expiresUnix) {headers : Headers}
    (h : BringsBack cookie headers) (sessionId : Bytes) :
    (auth.authenticateRequest ctx headers sessionId).outcome =
      some (if auth.unauthenticated then localDevPrincipalId else cookie.principalHex) := by
  rw [AuthManager.authenticateRequest]
  cases hmode : auth.unauthenticated with
  | true => rfl
  | false =>
      obtain ⟨hsigning, hvalid, htag⟩ := issueCookie_cases hissue
      -- the one cookie that was issued under this key
      have hinv : CookieInv ctx.crypto ⟨key, [cookie]⟩ := by
        intro c hc
        rw [List.mem_singleton.mp hc]
        exact ⟨cookieSigningKey_ne hsigning, hvalid, htag⟩
      have hpresents : Presents cookie.text cookie.segments cookie.tag :=
        ⟨_, splitOn_text cookie, Base64Url.decode_encode _⟩
      have hverify := verifyCookie_presented hinv (List.mem_singleton_self cookie) hpresents
        ctx.random ctx.now
      rw [if_neg (by omega)] at hverify
      have hextract := extractCookie_alone (semicolon_notMem_text cookie)
      have hheader : kCookieName ++ lit "=" ++ cookie.text ≠ [] := fun h => nomatch h
      rw [if_neg Bool.false_ne_true, h.authorization, h.xHarborToken, h.cookie]
      dsimp only
      rw [if_neg (not_not.mpr rfl), if_neg (not_not.mpr rfl)]
      rw [show lit "harbor_session" = kCookieName from rfl, hextract, if_pos ⟨hheader, text_ne_nil cookie⟩,
        hkey, hverify]
      rfl

theorem exists_issueCookie (crypto : Crypto) (signingKey : Bytes) {call : IssueCall}
    (hvalid : isValidPrincipalHex call.principalHex = true) (hnonce : call.nonce.isSome)
    (hrandom : call.random.isSome) :
    ∃ cookie key, issueCookie crypto signingKey call = some (cookie, key) ∧
      cookie.principalHex = call.principalHex := by
  obtain ⟨nonce, hnonce⟩ := Option.isSome_iff_exists.mp hnonce
  obtain ⟨random, hrandom⟩ := Option.isSome_iff_exists.mp hrandom
  obtain ⟨key, hkey⟩ : ∃ key, cookieSigningKey signingKey call.random = some key := by
    rw [cookieSigningKey, hrandom]
    split_ifs
    · exact ⟨_, rfl⟩
    · exact ⟨_, rfl⟩
  rw [issueCookie, if_pos hvalid, hnonce, hkey]
  exact ⟨_, _, rfl, rfl⟩

/-- A login with this token comes to what the token makes of its holder. -/
theorem login_outcome (auth : AuthManager) (hnonce : env.nonce.isSome) (hrandom : env.random.isSome)
    {req : LoginRequest}
    (htoken : loginToken req = .ok (Bytes.trim t)) :
    LoginOutcome auth env req (auth.holder env.toAuthContext t) := by
  rw [AuthManager.holder]
  generalize Bytes.trim t = token at htoken ⊢
  by_cases hnil : token = []
  · have hlogin : handleLogin auth env req = some (writeJsonError (corsHeaders env.origins req.headers)
        400 (lit "MISSING_CREDENTIAL") missingCredential, env.signingKey) := by
      rw [handleLogin, htoken]
      exact if_pos hnil
    rw [if_neg (fun h => h.1 hnil)]
    exact ⟨_, hlogin, rfl, List.mem_cons_self⟩
  cases hrun : auth.runAuthentication env.db kLoginSessionId token with
  | false =>
      have hlogin : handleLogin auth env req = some (writeJsonError (corsHeaders env.origins req.headers)
          401 (lit "INVALID_TOKEN") (lit "authentication failed"), env.signingKey) := by
        rw [handleLogin, htoken]
        exact (if_neg hnil).trans (if_pos hrun)
      rw [if_neg (fun h => Bool.false_ne_true h.2)]
      exact ⟨_, hlogin, rfl, List.mem_cons_of_mem _ List.mem_cons_self⟩
  | true =>
      rw [if_pos ⟨hnil, rfl⟩]
      have hvalid := isValidPrincipalHex_principalIdHex env.crypto token
      -- the cookie names the holder, and that is who it brings back
      let call : IssueCall :=
        ⟨principalIdHex env.crypto token, cookieTtlSec env.cookieTtl, env.now, env.nonce, env.random⟩
      obtain ⟨cookie, key, hissue, hprincipal⟩ :=
        @exists_issueCookie env.crypto env.signingKey call hvalid hnonce hrandom
      refine ⟨cookie, key, ?_, fun ctx headers sessionId hcrypto hkey hnow hback => ?_⟩
      · rw [handleLogin, htoken]
        dsimp only
        rw [if_neg hnil, hrun, if_neg (by decide), hissue]
        rfl
      · rw [← hcrypto] at hissue
        rw [authenticate_broughtBack hissue hkey hnow hback, hprincipal]

/-- A body whose string has an escape. -/
theorem loginToken_escape {headers : Headers} (hbare : Bare headers) {layout : BodyLayout}
    (hlayout : layout.Ok) {ps : List Piece} (hps : ∀ p ∈ ps, p.Ok) (hescape : ¬ Plain ps)
    (hlength : (layout.text ps).length ≤ kMaxLoginBodyBytes) :
    loginToken ⟨headers, layout.text ps⟩ = .ok (Bytes.trim []) := by
  have hne := text_body_ne_nil layout ps
  rw [loginToken, hbare.authorization, hbare.xHarborToken]
  dsimp only
  rw [if_neg (not_not.mpr rfl), if_neg (not_not.mpr rfl), if_pos hne, if_neg (not_lt.mpr hlength),
    extractTokenFromBody_escape hlayout hps hescape]
  rfl

/-- **One token, one outcome.** -/
theorem one_token_one_outcome (hcallback : TokenOnly auth env.db) (hnonce : env.nonce.isSome)
    (hrandom : env.random.isSome) (t : Bytes) :
    (auth.unauthenticated = false ∨ Bytes.trim t ≠ [] →
      ∀ way headers sessionId, Presented way t headers →
        (auth.authenticateRequest env.toAuthContext headers sessionId).outcome =
          auth.holder env.toAuthContext t) ∧
    (∀ req, Carries t req → LoginOutcome auth env req (auth.holder env.toAuthContext t)) ∧
    (∀ (headers : Headers) (layout : BodyLayout) (ps : List Piece), Bare headers → layout.Ok →
      (∀ p ∈ ps, p.Ok) → ¬ Plain ps → (layout.text ps).length ≤ kMaxLoginBodyBytes →
        LoginOutcome auth env ⟨headers, layout.text ps⟩ none) := by
  refine ⟨fun hmode way headers sessionId h => ?_, fun req h => ?_, ?_⟩
  · cases hauth : auth.unauthenticated with
    | false => exact authenticate_presented hcallback hauth h sessionId
    | true =>
        have htoken : Bytes.trim t ≠ [] := hmode.resolve_left (by rw [hauth]; decide)
        have hrun : auth.runAuthentication env.db kLoginSessionId (Bytes.trim t) = true := by
          unfold AuthManager.runAuthentication
          rw [if_pos hauth]
        rw [authenticateRequest_localDev hauth, AuthManager.holder, if_pos ⟨htoken, hrun⟩, if_pos hauth]
        rfl
  · exact login_outcome auth hnonce hrandom (loginToken_carries h)
  · intro headers layout ps hbare hlayout hps hescape hlength
    have hlogin := login_outcome auth hnonce hrandom
      (loginToken_escape hbare hlayout hps hescape hlength)
    rwa [holder_nil] at hlogin

/-! ### A server -/

/-- A server of this token, with the callback every server has. -/
def tokenServer (serverToken : Bytes) : AuthManager := .new (some {}) serverToken false

/-- A login on it, for twelve hours. -/
def tokenLogin : LoginContext where
  crypto := loginCrypto
  db := some { resolve := fun _ => some .quackAuthToken }
  signingKey := []
  random := some (Vector.ofFn fun i => i.val.toUInt8)
  now := 1700000000
  origins := { host := lit "127.0.0.1", port := 9494, ipv6 := false, corsAllowedOrigins := [] }
  cookieTtl := some 43200
  nonce := some (Vector.ofFn fun i => i.val.toUInt8)
  replyTime := 1700000000
  isoUtcFromUnix := fun _ => lit "2023-11-15T10:13:20Z"

/-- The token of the server. -/
theorem one_token_one_outcome_server :
    ((tokenServer (lit "your-secret")).unauthenticated = false ∨ Bytes.trim (lit "your-secret") ≠ [] →
      ∀ way headers sessionId, Presented way (lit "your-secret") headers →
        ((tokenServer (lit "your-secret")).authenticateRequest tokenLogin.toAuthContext headers
          sessionId).outcome =
          (tokenServer (lit "your-secret")).holder tokenLogin.toAuthContext (lit "your-secret")) ∧
    (∀ req, Carries (lit "your-secret") req →
      LoginOutcome (tokenServer (lit "your-secret")) tokenLogin req
        ((tokenServer (lit "your-secret")).holder tokenLogin.toAuthContext (lit "your-secret"))) ∧
    (∀ (headers : Headers) (layout : BodyLayout) (ps : List Piece), Bare headers → layout.Ok →
      (∀ p ∈ ps, p.Ok) → ¬ Plain ps → (layout.text ps).length ≤ kMaxLoginBodyBytes →
        LoginOutcome (tokenServer (lit "your-secret")) tokenLogin ⟨headers, layout.text ps⟩ none) :=
  one_token_one_outcome (fun _ _ _ => rfl) rfl rfl (lit "your-secret")

/-- A token with a quote is good in a header, and refused as `JSON.stringify` spells it. -/
theorem quote_refused :
    ((tokenServer (lit "a\"b")).authenticateRequest tokenLogin.toAuthContext
      [(lit "Authorization", lit "Bearer a\"b")] kLoginSessionId).ok = true ∧
    (handleLogin (tokenServer (lit "a\"b")) tokenLogin
      ⟨[], lit "\x7b\"token\":\"a\\\"b\"\x7d"⟩).map (fun r => r.1.status) = some 400 := by
  constructor
  all_goals rfl

end Harbor.Auth
