import Harbor.Lib.Base64Url

set_option autoImplicit false

/-! # The session cookie

`AuthManager::IssueCookie` and `AuthManager::VerifyCookie`. A cookie is five segments between dots,
`v1.principal.expiry.nonce.mac`, all but the first one in base64url; the MAC is over the text of the
first four. `verifyCookie_iff` says which byte strings are accepted when nobody but `IssueCookie` can
produce a tag: those that differ from an issued, unexpired cookie in the text of the last segment at
most.
-/

namespace Harbor.Auth

open Bytes (decNat stoull)

/-! ## What the cookie is made with -/

/-- The primitives `harbor_crypto` takes from OpenSSL. -/
structure Crypto where
  sha256 : Bytes → Vector UInt8 32
  /-- `HMAC(EVP_sha256(), key, message)`. -/
  hmacSha256 : Bytes → Bytes → Vector UInt8 32

inductive AuthSource where
  | none
  | bearer
  | xHarborToken
  | cookie
  | localDev
  deriving DecidableEq, Repr

structure AuthResult where
  ok : Bool := false
  principalId : Bytes := []
  source : AuthSource := .none
  errorCode : Bytes := []
  deriving DecidableEq, Repr

def AuthResult.failed (errorCode : Bytes) : AuthResult := { errorCode }

/-- `IsValidPrincipalHex`: 64 lowercase hexadecimal digits. -/
def isValidPrincipalHex (s : Bytes) : Bool :=
  s.length == 64 && s.all fun c => (0x30 ≤ c && c ≤ 0x39) || (0x61 ≤ c && c ≤ 0x66)

def kCookieVersion : Bytes := lit "v1"

/-- The segments with a dot between them. -/
def joinDots (segments : List Bytes) : Bytes := [0x2E].intercalate segments

/-- `CookieSigningKey`: on first use 32 random bytes; `none` when `RAND_bytes` fails. -/
def cookieSigningKey (signingKey : Bytes) (random : Option (Vector UInt8 32)) : Option Bytes :=
  if signingKey = [] then random.map (·.toList) else some signingKey

/-! ## Issuing -/

/-- A call of `IssueCookie` at the time `now`, with what `RAND_bytes` gives it. -/
structure IssueCall where
  principalHex : Bytes
  ttlS : Nat
  now : Nat
  nonce : Option (Vector UInt8 16)
  random : Option (Vector UInt8 32)

/-- A cookie that was issued, in the values it was made from; `tag` is the raw MAC. -/
structure IssuedCookie where
  principalHex : Bytes
  ttlS : Nat
  issuedAt : Nat
  nonce : Bytes
  tag : Bytes
  deriving DecidableEq, Repr

/-- The `uint64_t` sum of the issue time and the time to live. -/
def IssuedCookie.expiresUnix (cookie : IssuedCookie) : Nat :=
  (cookie.issuedAt + cookie.ttlS) % 2 ^ 64

/-- The first four segments. -/
def IssuedCookie.segments (cookie : IssuedCookie) : List Bytes :=
  [kCookieVersion, Base64Url.encode cookie.principalHex,
    Base64Url.encode (decNat cookie.expiresUnix), Base64Url.encode cookie.nonce]

/-- What `IssueCookie` returns. -/
def IssuedCookie.text (cookie : IssuedCookie) : Bytes :=
  joinDots (cookie.segments ++ [Base64Url.encode cookie.tag])

/-- `AuthManager::IssueCookie`, with the signing key before and after; `none` where it throws. -/
def issueCookie (crypto : Crypto) (signingKey : Bytes) (call : IssueCall) :
    Option (IssuedCookie × Bytes) :=
  if isValidPrincipalHex call.principalHex then do
    let nonce ← call.nonce
    let key ← cookieSigningKey signingKey call.random
    let unsigned : IssuedCookie := ⟨call.principalHex, call.ttlS, call.now, nonce.toList, []⟩
    let mac := crypto.hmacSha256 key (joinDots unsigned.segments)
    some ({ unsigned with tag := mac.toList }, key)
  else none

/-! ## Verifying -/

/-- The payload of a cookie whose MAC is right. -/
def verifyPayload (now : Nat) (seg1 seg2 : Bytes) : AuthResult :=
  match Base64Url.decode seg1, (Base64Url.decode seg2).bind stoull with
  | some principalHex, some expiresUnix =>
      if isValidPrincipalHex principalHex = false then .failed (lit "BAD_COOKIE_PAYLOAD")
      else if now ≥ expiresUnix then .failed (lit "COOKIE_EXPIRED")
      else { ok := true, principalId := principalHex, source := .cookie }
  | _, _ => .failed (lit "BAD_COOKIE_PAYLOAD")

/-- `AuthManager::VerifyCookie` at the time `now`, with the signing key after it. -/
def verifyCookie (crypto : Crypto) (signingKey : Bytes) (random : Option (Vector UInt8 32))
    (now : Nat) (cookieValue : Bytes) : AuthResult × Bytes :=
  if cookieValue = [] then (.failed (lit "MISSING_COOKIE"), signingKey)
  else
    match cookieValue.splitOn 0x2E with
    | [version, seg1, seg2, seg3, seg4] =>
        if version ≠ kCookieVersion then (.failed (lit "BAD_COOKIE_VERSION"), signingKey)
        else
          match Base64Url.decode seg4, cookieSigningKey signingKey random with
          | some actualMac, some key =>
              let expectedMac := crypto.hmacSha256 key (joinDots [version, seg1, seg2, seg3])
              if expectedMac.toList ≠ actualMac then (.failed (lit "BAD_COOKIE_SIG"), key)
              else (verifyPayload now seg1 seg2, key)
          | _, _ => (.failed (lit "BAD_COOKIE_FORMAT"), signingKey)
    | _ => (.failed (lit "BAD_COOKIE_FORMAT"), signingKey)

/-! ## Runs -/

/-- The calls an `AuthManager` gets that have to do with cookies. -/
inductive CookieCall where
  | issue (call : IssueCall)
  | verify (random : Option (Vector UInt8 32)) (now : Nat) (cookieValue : Bytes)

/-- The signing key of an `AuthManager` (empty before first use) and the cookies it has issued. -/
structure CookieState where
  signingKey : Bytes := []
  issued : List IssuedCookie := []

def CookieState.step (crypto : Crypto) (s : CookieState) : CookieCall → CookieState
  | .issue call =>
      match issueCookie crypto s.signingKey call with
      | some (cookie, key) => ⟨key, s.issued ++ [cookie]⟩
      | none => s
  | .verify random now cookieValue =>
      { s with signingKey := (verifyCookie crypto s.signingKey random now cookieValue).2 }

def CookieState.run (crypto : Crypto) (calls : List CookieCall) : CookieState :=
  calls.foldl (CookieState.step crypto) {}

/-- The signing key never changes once it is there, and the cookies were made with it. -/
def CookieInv (crypto : Crypto) (s : CookieState) : Prop :=
  ∀ cookie ∈ s.issued, s.signingKey ≠ [] ∧ isValidPrincipalHex cookie.principalHex = true ∧
    cookie.tag = (crypto.hmacSha256 s.signingKey (joinDots cookie.segments)).toList

theorem cookieSigningKey_of_ne {signingKey : Bytes} (h : signingKey ≠ [])
    (random : Option (Vector UInt8 32)) : cookieSigningKey signingKey random = some signingKey := by
  rw [cookieSigningKey, if_neg h]

theorem cookieSigningKey_ne {signingKey key : Bytes} {random : Option (Vector UInt8 32)}
    (h : cookieSigningKey signingKey random = some key) : key ≠ [] := by
  unfold cookieSigningKey at h
  split at h
  · obtain ⟨bytes, _, rfl⟩ := Option.map_eq_some_iff.mp h
    intro hnil
    have hlen := congrArg List.length hnil
    simp at hlen
  · rename_i hne
    cases h
    exact hne

theorem issueCookie_cases {crypto : Crypto} {signingKey key : Bytes} {call : IssueCall}
    {cookie : IssuedCookie} (h : issueCookie crypto signingKey call = some (cookie, key)) :
    cookieSigningKey signingKey call.random = some key ∧
      isValidPrincipalHex cookie.principalHex = true ∧
      cookie.tag = (crypto.hmacSha256 key (joinDots cookie.segments)).toList := by
  unfold issueCookie at h
  split at h
  · rename_i hvalid
    obtain ⟨nonce, _, h⟩ := Option.bind_eq_some_iff.mp h
    obtain ⟨newKey, hkey, h⟩ := Option.bind_eq_some_iff.mp h
    simp only [Option.some.injEq, Prod.mk.injEq] at h
    obtain ⟨rfl, rfl⟩ := h
    exact ⟨hkey, hvalid, rfl⟩
  · cases h

/-- `VerifyCookie` leaves a key that is there as it is. -/
theorem verifyCookie_key {crypto : Crypto} {signingKey : Bytes} (hkey : signingKey ≠ [])
    (random : Option (Vector UInt8 32)) (now : Nat) (cookieValue : Bytes) :
    (verifyCookie crypto signingKey random now cookieValue).2 = signingKey := by
  unfold verifyCookie
  rw [cookieSigningKey_of_ne hkey]
  split
  · rfl
  split
  · split
    · rfl
    split
    · rename_i heq
      cases heq
      dsimp only
      split
      · rfl
      · rfl
    · rfl
  · rfl

theorem cookieInv_step {crypto : Crypto} {s : CookieState} (hs : CookieInv crypto s)
    (call : CookieCall) : CookieInv crypto (s.step crypto call) := by
  cases call with
  | issue call =>
      simp only [CookieState.step]
      cases hissue : issueCookie crypto s.signingKey call with
      | none => exact hs
      | some result =>
          obtain ⟨cookie, key⟩ := result
          obtain ⟨hkey, hvalid, htag⟩ := issueCookie_cases hissue
          intro c hc
          rcases List.mem_append.mp hc with hc | hc
          · obtain ⟨hne, hold⟩ := hs c hc
            rw [cookieSigningKey_of_ne hne] at hkey
            cases hkey
            exact ⟨hne, hold⟩
          · rw [List.mem_singleton] at hc
            subst hc
            exact ⟨cookieSigningKey_ne hkey, hvalid, htag⟩
  | verify random now cookieValue =>
      intro c hc
      have hold := hs c hc
      simp only [CookieState.step]
      rw [verifyCookie_key hold.1]
      exact hold

theorem cookieInv_run (crypto : Crypto) (calls : List CookieCall) :
    CookieInv crypto (.run crypto calls) := by
  have hfold : ∀ (calls : List CookieCall) (s : CookieState), CookieInv crypto s →
      CookieInv crypto (calls.foldl (CookieState.step crypto) s) := by
    intro calls
    induction calls with
    | nil => intro s hs; exact hs
    | cons call calls ih => intro s hs; exact ih _ (cookieInv_step hs call)
  exact hfold calls {} fun cookie h => by cases h

/-! ## Which cookies are accepted -/

/-- The cookie `c` consists of the four segments and a fifth one that decodes to the tag. -/
def Presents (c : Bytes) (segments : List Bytes) (tag : Bytes) : Prop :=
  ∃ mac, c.splitOn 0x2E = segments ++ [mac] ∧ Base64Url.decode mac = some tag

/-- The MAC is ideal, as far as the cookie `c` goes: if the message and the tag that `c` presents
verify under `key`, the server has computed the MAC of that message for one of its cookies. -/
def Unforged (crypto : Crypto) (key : Bytes) (issued : List IssuedCookie) (c : Bytes) : Prop :=
  ∀ segments tag, segments.length = 4 → Presents c segments tag →
    (crypto.hmacSha256 key (joinDots segments)).toList = tag →
      ∃ cookie ∈ issued, joinDots cookie.segments = joinDots segments

theorem dot_notMem_segment {cookie : IssuedCookie} {segment : Bytes}
    (hsegment : segment ∈ cookie.segments) : 0x2E ∉ segment := by
  simp only [IssuedCookie.segments, List.mem_cons, List.not_mem_nil, or_false] at hsegment
  rcases hsegment with rfl | rfl | rfl | rfl
  · decide
  · exact Base64Url.dot_notMem_encode _
  · exact Base64Url.dot_notMem_encode _
  · exact Base64Url.dot_notMem_encode _

theorem splitOn_segments (cookie : IssuedCookie) :
    (joinDots cookie.segments).splitOn 0x2E = cookie.segments :=
  List.splitOn_intercalate 0x2E (fun _ h => dot_notMem_segment h) (by simp [IssuedCookie.segments])

/-- An issued cookie splits into its segments. -/
theorem splitOn_text (cookie : IssuedCookie) :
    cookie.text.splitOn 0x2E = cookie.segments ++ [Base64Url.encode cookie.tag] := by
  refine List.splitOn_intercalate 0x2E ?_ (by simp)
  intro segment hsegment
  rcases List.mem_append.mp hsegment with h | h
  · exact dot_notMem_segment h
  · rw [List.mem_singleton.mp h]
    exact Base64Url.dot_notMem_encode _

/-- Two splits with the same MAC input are the same split. -/
theorem segments_eq {c mac : Bytes} {segments : List Bytes} {cookie : IssuedCookie}
    (hne : segments ≠ []) (hsplit : c.splitOn 0x2E = segments ++ [mac])
    (hjoin : joinDots cookie.segments = joinDots segments) : segments = cookie.segments := by
  have hfree : ∀ segment ∈ segments, 0x2E ∉ segment := by
    intro segment hmem
    exact Bytes.notMem_of_mem_splitOn (s := c) (by rw [hsplit]; exact List.mem_append_left _ hmem)
  rw [← splitOn_segments, hjoin, joinDots, List.splitOn_intercalate 0x2E hfree hne]

/-- The payload of an issued cookie reads back as what the cookie was made from. -/
theorem verifyPayload_issued {cookie : IssuedCookie}
    (hvalid : isValidPrincipalHex cookie.principalHex = true) (now : Nat) :
    verifyPayload now (Base64Url.encode cookie.principalHex)
        (Base64Url.encode (decNat cookie.expiresUnix)) =
      if now ≥ cookie.expiresUnix then .failed (lit "COOKIE_EXPIRED")
      else { ok := true, principalId := cookie.principalHex, source := .cookie } := by
  have hexpires : cookie.expiresUnix < 2 ^ 64 := Nat.mod_lt _ (by norm_num)
  simp [verifyPayload, Base64Url.decode_encode, Bytes.stoull_decNat hexpires, hvalid]

/-- The outcome for a byte string of five segments whose first one is the version. -/
theorem verifyCookie_of_split {crypto : Crypto} {signingKey key c seg1 seg2 seg3 mac tag : Bytes}
    {random : Option (Vector UInt8 32)} (hkey : cookieSigningKey signingKey random = some key)
    (hsplit : c.splitOn 0x2E = [kCookieVersion, seg1, seg2, seg3, mac])
    (hdecode : Base64Url.decode mac = some tag) (now : Nat) :
    (verifyCookie crypto signingKey random now c).1 =
      if (crypto.hmacSha256 key (joinDots [kCookieVersion, seg1, seg2, seg3])).toList ≠ tag then
        .failed (lit "BAD_COOKIE_SIG")
      else verifyPayload now seg1 seg2 := by
  have hne : c ≠ [] := by
    rintro rfl
    simp at hsplit
  unfold verifyCookie
  rw [if_neg hne, hsplit]
  simp only [hdecode, hkey, ne_eq, not_true_eq_false, if_false]
  split
  · rfl
  · rfl

/-- A successful verification read five segments and found the MAC right. -/
theorem verifyCookie_ok {crypto : Crypto} {signingKey c : Bytes}
    {random : Option (Vector UInt8 32)} {now : Nat}
    (h : (verifyCookie crypto signingKey random now c).1.ok = true) :
    ∃ key seg1 seg2 seg3 mac tag, cookieSigningKey signingKey random = some key ∧
      c.splitOn 0x2E = [kCookieVersion, seg1, seg2, seg3] ++ [mac] ∧
      Base64Url.decode mac = some tag ∧
      (crypto.hmacSha256 key (joinDots [kCookieVersion, seg1, seg2, seg3])).toList = tag := by
  unfold verifyCookie at h
  split at h
  · cases h
  split at h
  · rename_i version seg1 seg2 seg3 seg4 hsplit
    split at h
    · cases h
    rename_i hversion
    rw [not_not] at hversion
    subst hversion
    split at h
    · rename_i actualMac key hdecode hkey
      dsimp only at h
      split at h
      · cases h
      rename_i hmac
      exact ⟨key, seg1, seg2, seg3, seg4, actualMac, hkey, hsplit, hdecode, not_not.mp hmac⟩
    · cases h
  · cases h

/-- What a byte string with the first four segments and the tag of an issued cookie comes to. -/
theorem verifyCookie_presented {crypto : Crypto} {s : CookieState} (hs : CookieInv crypto s)
    {cookie : IssuedCookie} (hcookie : cookie ∈ s.issued) {c : Bytes}
    (hpresents : Presents c cookie.segments cookie.tag) (random : Option (Vector UInt8 32))
    (now : Nat) :
    (verifyCookie crypto s.signingKey random now c).1 =
      if now ≥ cookie.expiresUnix then .failed (lit "COOKIE_EXPIRED")
      else { ok := true, principalId := cookie.principalHex, source := .cookie } := by
  obtain ⟨mac, hsplit, hdecode⟩ := hpresents
  obtain ⟨hne, hvalid, htag⟩ := hs cookie hcookie
  have hverify : (verifyCookie crypto s.signingKey random now c).1 = _ :=
    verifyCookie_of_split (cookieSigningKey_of_ne hne random) hsplit hdecode now
  rw [hverify, if_neg (not_not.mpr (by exact htag.symm)), verifyPayload_issued hvalid]

section

variable {crypto : Crypto} {calls : List CookieCall} {random : Option (Vector UInt8 32)}
  {now : Nat} {c : Bytes}

/-- **After any run of calls, a byte string is accepted for the principal `p` exactly when it has
five segments, the first four are those of a cookie issued for `p` that has not expired, and the last
one decodes to that cookie's tag.** The MAC is ideal and no expiry wraps around. -/
theorem verifyCookie_iff
    (hideal : ∀ key, cookieSigningKey (CookieState.run crypto calls).signingKey random = some key →
      Unforged crypto key (CookieState.run crypto calls).issued c)
    (hexpiry : ∀ cookie ∈ (CookieState.run crypto calls).issued,
      cookie.issuedAt + cookie.ttlS < 2 ^ 64) (p : Bytes) :
    ((verifyCookie crypto (CookieState.run crypto calls).signingKey random now c).1.ok = true ∧
        (verifyCookie crypto (CookieState.run crypto calls).signingKey random now c).1.principalId = p)
      ↔ ∃ cookie ∈ (CookieState.run crypto calls).issued,
        Presents c cookie.segments cookie.tag ∧ now < cookie.issuedAt + cookie.ttlS ∧
          cookie.principalHex = p := by
  have hinv := cookieInv_run crypto calls
  have hexpires : ∀ cookie ∈ (CookieState.run crypto calls).issued,
      cookie.expiresUnix = cookie.issuedAt + cookie.ttlS := fun cookie hcookie =>
    Nat.mod_eq_of_lt (hexpiry cookie hcookie)
  generalize CookieState.run crypto calls = s at hideal hinv hexpires ⊢
  constructor
  · rintro ⟨hok, hp⟩
    obtain ⟨key, seg1, seg2, seg3, mac, tag, hkey, hsplit, hdecode, hmac⟩ := verifyCookie_ok hok
    -- the tag is right, so its segments were signed here: the cookie was issued
    obtain ⟨cookie, hcookie, hjoin⟩ := hideal key hkey _ tag rfl ⟨mac, hsplit, hdecode⟩ hmac
    have hsegments := segments_eq (by simp) hsplit hjoin
    obtain ⟨hne, _, htag⟩ := hinv cookie hcookie
    rw [cookieSigningKey_of_ne hne] at hkey
    cases hkey
    have hpresents : Presents c cookie.segments cookie.tag :=
      ⟨mac, hsegments ▸ hsplit, by rw [hdecode, htag, ← hmac, hsegments]⟩
    have hresult := verifyCookie_presented hinv hcookie hpresents random now
    rw [hexpires cookie hcookie] at hresult
    rw [hresult] at hok hp
    split at hok
    · cases hok
    · rename_i hnow
      rw [if_neg hnow] at hp
      exact ⟨cookie, hcookie, hpresents, by omega, hp⟩
  · rintro ⟨cookie, hcookie, hpresents, hnow, hp⟩
    have hresult := verifyCookie_presented hinv hcookie hpresents random now
    rw [hexpires cookie hcookie, if_neg (by omega)] at hresult
    rw [hresult]
    exact ⟨rfl, hp⟩

end

/-! ## One cookie -/

/-- The primitives on the inputs of one login: the token `your-secret`, the signing key and the nonce
of the bytes from 0 on, issued at 1700000000 for twelve hours. -/
def loginCrypto : Crypto where
  sha256 := fun _ =>
    #v[239, 30, 165, 221, 43, 40, 210, 193, 39, 255, 180, 28, 82, 42, 193, 151, 135, 244, 8, 193,
    145, 149, 204, 43, 235, 180, 30, 34, 127, 102, 78, 134]
  hmacSha256 := fun _ _ =>
    #v[119, 132, 24, 129, 46, 39, 51, 96, 239, 123, 242, 32, 221, 189, 65, 1, 13, 249, 145, 38,
    145, 238, 201, 91, 43, 189, 9, 122, 160, 89, 118, 226]

def loginCalls : List CookieCall :=
  [.issue
    { principalHex := lit "ef1ea5dd2b28d2c127ffb41c522ac19787f408c19195cc2bebb41e227f664e86"
      ttlS := 43200
      now := 1700000000
      nonce := some #v[0, 1, 2, 3, 4, 5, 6, 7, 8, 9, 10, 11, 12, 13, 14, 15]
      random := some #v[0, 1, 2, 3, 4, 5, 6, 7, 8, 9, 10, 11, 12, 13, 14, 15, 16, 17, 18, 19, 20,
        21, 22, 23, 24, 25, 26, 27, 28, 29, 30, 31] }]

def loginPrincipal : Bytes := lit "ef1ea5dd2b28d2c127ffb41c522ac19787f408c19195cc2bebb41e227f664e86"

/-- The cookie that the login gets. -/
def loginCookie : IssuedCookie where
  principalHex := loginPrincipal
  ttlS := 43200
  issuedAt := 1700000000
  nonce := (#v[0, 1, 2, 3, 4, 5, 6, 7, 8, 9, 10, 11, 12, 13, 14, 15] : Vector UInt8 16).toList
  tag := (loginCrypto.hmacSha256 [] []).toList

theorem isValidPrincipalHex_login : isValidPrincipalHex loginPrincipal = true := by
  rw [loginPrincipal, show lit _ = _ from lit_ofList _]
  rfl

theorem issued_login : (CookieState.run loginCrypto loginCalls).issued = [loginCookie] := by
  have hvalid : isValidPrincipalHex
      (lit "ef1ea5dd2b28d2c127ffb41c522ac19787f408c19195cc2bebb41e227f664e86") = true :=
    isValidPrincipalHex_login
  simp only [CookieState.run, loginCalls, List.foldl_cons, List.foldl_nil, CookieState.step,
    issueCookie, if_pos hvalid]
  rfl

set_option maxRecDepth 4000 in
theorem text_login : lit "v1.ZWYxZWE1ZGQyYjI4ZDJjMTI3ZmZiNDFjNTIyYWMxOTc4N2Y0MDhjMTkxOTVjYzJiZWJiNDFlMjI3ZjY2NGU4Ng.MTcwMDA0MzIwMA.AAECAwQFBgcICQoLDA0ODw.d4QYgS4nM2Dve_Ig3b1BAQ35kSaR7slbK70JeqBZduI" =
    loginCookie.text := by
  refine (lit_ofList _).trans ?_
  rw [IssuedCookie.text, IssuedCookie.segments, loginCookie, loginPrincipal,
    show lit _ = _ from lit_ofList _]
  rfl

theorem presents_login : Presents loginCookie.text loginCookie.segments loginCookie.tag :=
  ⟨_, splitOn_text _, Base64Url.decode_encode _⟩

/-- The cookie of the login is accepted a second before it expires. -/
theorem verifyCookie_iff_login :
    let c := lit "v1.ZWYxZWE1ZGQyYjI4ZDJjMTI3ZmZiNDFjNTIyYWMxOTc4N2Y0MDhjMTkxOTVjYzJiZWJiNDFlMjI3ZjY2NGU4Ng.MTcwMDA0MzIwMA.AAECAwQFBgcICQoLDA0ODw.d4QYgS4nM2Dve_Ig3b1BAQ35kSaR7slbK70JeqBZduI"
    (CookieState.run loginCrypto loginCalls).issued.map IssuedCookie.text = [c] ∧
      (verifyCookie loginCrypto (CookieState.run loginCrypto loginCalls).signingKey none 1700043199
        c).1.ok = true ∧
      (verifyCookie loginCrypto (CookieState.run loginCrypto loginCalls).signingKey none 1700043199
        c).1.principalId =
        lit "ef1ea5dd2b28d2c127ffb41c522ac19787f408c19195cc2bebb41e227f664e86" := by
  intro c
  have hc : c = loginCookie.text := text_login
  have hissued := issued_login
  have hmem : loginCookie ∈ (CookieState.run loginCrypto loginCalls).issued := by
    rw [hissued]
    exact List.mem_singleton_self _
  have hideal : ∀ key,
      cookieSigningKey (CookieState.run loginCrypto loginCalls).signingKey none = some key →
        Unforged loginCrypto key (CookieState.run loginCrypto loginCalls).issued c := by
    rintro key - segments tag - ⟨mac, hmac, -⟩ -
    rw [hc, splitOn_text] at hmac
    obtain ⟨hsegments, -⟩ := List.append_inj' hmac rfl
    exact ⟨loginCookie, hmem, congrArg joinDots hsegments⟩
  have hexpiry : ∀ cookie ∈ (CookieState.run loginCrypto loginCalls).issued,
      cookie.issuedAt + cookie.ttlS < 2 ^ 64 := by
    intro cookie hcookie
    rw [hissued, List.mem_singleton] at hcookie
    subst hcookie
    decide
  have hiff := @verifyCookie_iff loginCrypto loginCalls none 1700043199 c hideal hexpiry
    (lit "ef1ea5dd2b28d2c127ffb41c522ac19787f408c19195cc2bebb41e227f664e86")
  have hfound := hiff.mpr ⟨loginCookie, hmem, hc ▸ presents_login, by decide, rfl⟩
  exact ⟨by rw [hissued, hc]; rfl, hfound⟩

end Harbor.Auth
