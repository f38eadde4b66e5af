import Harbor.Auth.Manager

set_option autoImplicit false

/-! # Who sends a request

`AuthManager::AuthenticateRequest` looks for a credential in three places, the explicit ones first,
and names the caller by a *principal*: the SHA-256 of the token in lowercase hexadecimal, the principal
a cookie was issued for, or the synthetic one of unauthenticated mode. The last one is the only
principal that is not 64 hexadecimal digits (`authenticateRequest_principal`).
-/

namespace Harbor.Auth

/-! ## Headers -/

/-- The header fields of a request in the order they came in. -/
abbrev Headers := List (Bytes × Bytes)

/-- `Request::get_header_value` of cpp-httplib, which is not part of the repository: the first field of that
name, whatever its letter case. -/
def getHeaderValue (headers : Headers) (key : Bytes) : Bytes :=
  match headers.find? fun field => Bytes.lower field.1 == Bytes.lower key with
  | some field => field.2
  | none => []

/-- The loop of `ExtractCookie`, one round for each piece between semicolons: it gives up at the first
piece without an equals sign. -/
def extractCookieLoop (name : Bytes) : List Bytes → Bytes
  | [] => []
  | piece :: pieces =>
      let piece := piece.dropWhile Bytes.isSpace
      if 0x3D ∉ piece then []
      else if piece.takeWhile (· ≠ 0x3D) = name then (piece.dropWhile (· ≠ 0x3D)).tail
      else extractCookieLoop name pieces

/-- `ExtractCookie`. -/
def extractCookie (cookieHeader name : Bytes) : Bytes :=
  if cookieHeader = [] ∨ name = [] then [] else extractCookieLoop name (cookieHeader.splitOn 0x3B)

/-! ## Principals -/

/-- The digits of `BytesToHex`. -/
def hexDigits : Bytes := lit "0123456789abcdef"

/-- `BytesToHex`. -/
def bytesToHex (bytes : Bytes) : Bytes :=
  bytes.flatMap fun (b : UInt8) =>
    [hexDigits.getD (b >>> 4).toNat 0, hexDigits.getD (b &&& 0x0F).toNat 0]

/-- `harbor_crypto::PrincipalIdHex`. -/
def principalIdHex (crypto : Crypto) (clientToken : Bytes) : Bytes :=
  bytesToHex (crypto.sha256 clientToken).toList

/-- `AuthManager::LocalDevPrincipalId`. -/
def localDevPrincipalId : Bytes := lit "harbor.local-dev"

theorem length_bytesToHex (bytes : Bytes) : (bytesToHex bytes).length = 2 * bytes.length := by
  induction bytes with
  | nil => rfl
  | cons b bytes ih =>
      unfold bytesToHex at ih ⊢
      rw [List.flatMap_cons, List.length_append, ih]
      simp only [List.length_cons, List.length_nil]
      omega

/-- Both digits of a byte are lowercase hexadecimal digits. -/
theorem hexDigits_byte (b : UInt8) :
    [hexDigits.getD (b >>> 4).toNat 0, hexDigits.getD (b &&& 0x0F).toNat 0].all
      (fun c => (0x30 ≤ c && c ≤ 0x39) || (0x61 ≤ c && c ≤ 0x66)) = true :=
  forall_byte (P := fun b =>
    [hexDigits.getD (b >>> 4).toNat 0, hexDigits.getD (b &&& 0x0F).toNat 0].all
      (fun c => (0x30 ≤ c && c ≤ 0x39) || (0x61 ≤ c && c ≤ 0x66)) = true) (by decide +kernel) b

theorem isValidPrincipalHex_principalIdHex (crypto : Crypto) (clientToken : Bytes) :
    isValidPrincipalHex (principalIdHex crypto clientToken) = true := by
  have hlen : (crypto.sha256 clientToken).toList.length = 32 := Vector.length_toList
  have hdigits : ∀ bytes : Bytes, (bytesToHex bytes).all
      (fun c => (0x30 ≤ c && c ≤ 0x39) || (0x61 ≤ c && c ≤ 0x66)) = true := by
    intro bytes
    induction bytes with
    | nil => rfl
    | cons b bytes ih =>
        unfold bytesToHex at ih ⊢
        rw [List.flatMap_cons, List.all_append, ih, hexDigits_byte, Bool.and_self]
  unfold isValidPrincipalHex principalIdHex
  rw [length_bytesToHex, hlen, hdigits]
  rfl

theorem localDevPrincipalId_invalid : isValidPrincipalHex localDevPrincipalId = false := by decide

/-! ## The credentials -/

/-- What an `AuthManager` looks at besides the request, at the time of a call. -/
structure AuthContext where
  crypto : Crypto
  db : Option Database
  signingKey : Bytes
  /-- What `RAND_bytes` gives, should the signing key be made now. -/
  random : Option (Vector UInt8 32)
  now : Nat

/-- The lambda `try_explicit_token` of `AuthenticateRequest`. -/
def AuthManager.tryExplicitToken (auth : AuthManager) (ctx : AuthContext)
    (syntheticSessionId : Bytes) (source : AuthSource) (rawValue : Bytes) : AuthResult :=
  if source = .bearer ∧ Bytes.startsWith rawValue (lit "Bearer ") = false then
    { source, errorCode := lit "UNSUPPORTED_AUTH_SCHEME" }
  else
    let token := Bytes.trim (if source = .bearer then rawValue.drop 7 else rawValue)
    if token = [] then { source, errorCode := lit "MISSING_CREDENTIAL" }
    else if auth.runAuthentication ctx.db syntheticSessionId token = false then
      { source, errorCode := lit "INVALID_TOKEN" }
    else { ok := true, principalId := principalIdHex ctx.crypto token, source }

/-- `AuthManager::AuthenticateRequest`. -/
def AuthManager.authenticateRequest (auth : AuthManager) (ctx : AuthContext) (headers : Headers)
    (syntheticSessionId : Bytes) : AuthResult :=
  if auth.unauthenticated then
    { ok := true, principalId := localDevPrincipalId, source := .localDev }
  else
    let authHeader := getHeaderValue headers (lit "Authorization")
    let xHarbor := getHeaderValue headers (lit "X-Harbor-Token")
    let cookieHeader := getHeaderValue headers (lit "Cookie")
    let cookieValue := extractCookie cookieHeader (lit "harbor_session")
    -- An explicit credential that is wrong never falls back to the cookie.
    if authHeader ≠ [] then auth.tryExplicitToken ctx syntheticSessionId .bearer authHeader
    else if xHarbor ≠ [] then auth.tryExplicitToken ctx syntheticSessionId .xHarborToken xHarbor
    else if cookieHeader ≠ [] ∧ cookieValue ≠ [] then
      (verifyCookie ctx.crypto ctx.signingKey ctx.random ctx.now cookieValue).1
    else { errorCode := lit "MISSING_CREDENTIAL" }

/-! ## The principals of a server -/

theorem verifyPayload_principal {now : Nat} {seg1 seg2 : Bytes}
    (h : (verifyPayload now seg1 seg2).ok = true) :
    isValidPrincipalHex (verifyPayload now seg1 seg2).principalId = true := by
  unfold verifyPayload at h ⊢
  cases hprincipal : Base64Url.decode seg1 with
  | none =>
      rw [hprincipal] at h
      cases h
  | some principalHex =>
      cases hexpires : (Base64Url.decode seg2).bind Bytes.stoull with
      | none =>
          rw [hprincipal, hexpires] at h
          cases h
      | some expiresUnix =>
          rw [hprincipal, hexpires] at h
          dsimp only at h ⊢
          by_cases hvalid : isValidPrincipalHex principalHex = false
          · rw [if_pos hvalid] at h
            cases h
          · by_cases hexpired : now ≥ expiresUnix
            · rw [if_neg hvalid, if_pos hexpired] at h
              cases h
            · rw [if_neg hvalid, if_neg hexpired]
              simpa using hvalid

/-- A cookie that is accepted names a principal of the right shape. -/
theorem verifyCookie_principal {crypto : Crypto} {signingKey : Bytes}
    {random : Option (Vector UInt8 32)} {now : Nat} {cookieValue : Bytes}
    (h : (verifyCookie crypto signingKey random now cookieValue).1.ok = true) :
    isValidPrincipalHex (verifyCookie crypto signingKey random now cookieValue).1.principalId =
      true := by
  unfold verifyCookie at h ⊢
  split at h
  · cases h
  rename_i hne
  rw [if_neg hne]
  split at h
  · rename_i version seg1 seg2 seg3 seg4 hsegments
    split at h
    · cases h
    rename_i hversion
    rw [if_neg hversion]
    split at h
    · rename_i actualMac key hmac hkey
      dsimp only at h ⊢
      by_cases hsig : (crypto.hmacSha256 key (joinDots [version, seg1, seg2, seg3])).toList ≠ actualMac
      · rw [if_pos hsig] at h
        cases h
      · rw [if_neg hsig] at h ⊢
        exact verifyPayload_principal h
    · cases h
  · cases h

/-- A token that is accepted names the caller by its hash. -/
theorem tryExplicitToken_ok {auth : AuthManager} {ctx : AuthContext} {sessionId rawValue : Bytes}
    {source : AuthSource} (h : (auth.tryExplicitToken ctx sessionId source rawValue).ok = true) :
    ∃ token, (auth.tryExplicitToken ctx sessionId source rawValue).principalId =
      principalIdHex ctx.crypto token := by
  unfold AuthManager.tryExplicitToken at h ⊢
  by_cases hscheme : source = .bearer ∧ Bytes.startsWith rawValue (lit "Bearer ") = false
  · rw [if_pos hscheme] at h
    cases h
  rw [if_neg hscheme] at h ⊢
  dsimp only at h ⊢
  generalize Bytes.trim (if source = .bearer then rawValue.drop 7 else rawValue) = token at h ⊢
  by_cases htoken : token = []
  · rw [if_pos htoken] at h
    cases h
  rw [if_neg htoken] at h ⊢
  by_cases hrun : auth.runAuthentication ctx.db sessionId token = false
  · rw [if_pos hrun] at h
    cases h
  rw [if_neg hrun]
  exact ⟨token, rfl⟩

/-- With authentication on, whoever is let in has a principal of the right shape. -/
theorem authenticateRequest_principal {auth : AuthManager} (hauth : auth.unauthenticated = false)
    {ctx : AuthContext} {headers : Headers} {sessionId : Bytes}
    (h : (auth.authenticateRequest ctx headers sessionId).ok = true) :
    isValidPrincipalHex (auth.authenticateRequest ctx headers sessionId).principalId = true := by
  unfold AuthManager.authenticateRequest at h ⊢
  rw [hauth, if_neg (by simp)] at h ⊢
  dsimp only at h ⊢
  split at h
  · rename_i hbearer
    rw [if_pos hbearer]
    obtain ⟨token, htoken⟩ := tryExplicitToken_ok h
    rw [htoken]
    exact isValidPrincipalHex_principalIdHex ctx.crypto token
  rename_i hbearer
  rw [if_neg hbearer]
  split at h
  · rename_i hxHarbor
    rw [if_pos hxHarbor]
    obtain ⟨token, htoken⟩ := tryExplicitToken_ok h
    rw [htoken]
    exact isValidPrincipalHex_principalIdHex ctx.crypto token
  rename_i hxHarbor
  rw [if_neg hxHarbor]
  split at h
  · rename_i hcookie
    rw [if_pos hcookie]
    exact verifyCookie_principal h
  · cases h

/-- In unauthenticated mode every request is let in as the synthetic principal. -/
theorem authenticateRequest_localDev {auth : AuthManager} (hauth : auth.unauthenticated = true)
    (ctx : AuthContext) (headers : Headers) (sessionId : Bytes) :
    auth.authenticateRequest ctx headers sessionId =
      { ok := true, principalId := localDevPrincipalId, source := .localDev } := by
  unfold AuthManager.authenticateRequest
  rw [if_pos hauth]

end Harbor.Auth
