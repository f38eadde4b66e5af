import Harbor.Auth.Csrf

set_option autoImplicit false

/-! # Whole origins

An origin is a scheme, a host and a port (`webOrigin`). Three of the gates compare the text of an origin
with the texts they know, which is as good as comparing what the texts stand for. `/localToken` asks
whether the Referer starts with a known origin, and there the port may go on behind it
(`whole_origins_iff`).
-/

namespace Harbor.Auth

/-! ## Origins -/

/-- What stands for an origin in a header. The port is `none` when the text has none; user information,
which neither header may carry, would stay with the host. -/
structure WebOrigin where
  scheme : Bytes
  host : Bytes
  port : Option Bytes
  deriving DecidableEq, Repr

/-- A path, a query or a fragment starts here. -/
def endsAuthority (b : UInt8) : Bool := b == 0x2F || b == 0x3F || b == 0x23

/-- The host and the port. A colon inside the brackets of an IPv6 address does not count. -/
def splitPort (authority : Bytes) : Bytes × Option Bytes :=
  let port := (authority.reverse.takeWhile (· ≠ 0x3A)).reverse
  if 0x3A ∉ authority ∨ 0x5D ∈ port then (authority, none)
  else (authority.take (authority.length - (port.length + 1)), some port)

def originOf (scheme authority : Bytes) : WebOrigin :=
  ⟨scheme, (splitPort authority).1, (splitPort authority).2⟩

/-- The origin of a URL, all of it; `none` without a `://`. -/
def webOrigin (url : Bytes) : Option WebOrigin :=
  (Bytes.findFrom url (lit "://") 0).map fun i =>
    originOf (url.take i) ((url.drop (i + 3)).takeWhile (! endsAuthority ·))

/-- Both texts have an origin, and it is the same. -/
def SameOrigin (header allowed : Bytes) : Prop :=
  (webOrigin header).isSome ∧ webOrigin header = webOrigin allowed

instance (header allowed : Bytes) : Decidable (SameOrigin header allowed) :=
  inferInstanceAs (Decidable (_ ∧ _))

/-- Nothing of the authority follows. -/
def EndsOrigin (rest : Bytes) : Prop := ∀ b ∈ rest.head?, endsAuthority b = true

theorem endsOrigin_iff {rest : Bytes} : EndsOrigin rest ↔ rest.takeWhile (! endsAuthority ·) = [] := by
  cases rest with
  | nil => simp [EndsOrigin]
  | cons b rest => simp [EndsOrigin, List.takeWhile_cons]

/-- The text of an authority can be put together again. -/
theorem splitPort_join (authority : Bytes) :
    (match (splitPort authority).2 with
      | none => (splitPort authority).1
      | some port => (splitPort authority).1 ++ 0x3A :: port) = authority := by
  unfold splitPort
  dsimp only
  split_ifs with hport
  · rfl
  · have hcolon : 0x3A ∈ authority.reverse := List.mem_reverse.mpr (not_not.mp (not_or.mp hport).1)
    have hsplit := congrArg List.reverse (Bytes.eq_takeWhile_of_mem hcolon)
    rw [List.reverse_reverse, List.reverse_append, List.reverse_cons, List.append_assoc,
      List.singleton_append] at hsplit
    generalize (authority.reverse.takeWhile (· ≠ 0x3A)).reverse = port at hsplit ⊢
    generalize (authority.reverse.dropWhile (· ≠ 0x3A)).tail.reverse = host at hsplit
    subst hsplit
    dsimp only
    rw [List.length_append, List.length_cons, Nat.add_sub_cancel, List.take_left]

theorem originOf_injective {scheme authority authority' : Bytes}
    (h : originOf scheme authority = originOf scheme authority') : authority = authority' := by
  obtain ⟨-, hhost, hport⟩ := WebOrigin.mk.inj h
  rw [← splitPort_join authority, hhost, hport, splitPort_join authority']

/-- A path, a query or a fragment changes nothing. -/
theorem webOrigin_append {url rest : Bytes} (h : HasScheme url) (hrest : EndsOrigin rest) :
    webOrigin (url ++ rest) = webOrigin url := by
  obtain ⟨i, hi⟩ := h
  have hlen := scheme_length_le hi
  unfold webOrigin
  rw [Bytes.findFrom_append hi, hi, Option.map_some, Option.map_some,
    List.take_append_of_le_length (by omega), List.drop_append_of_le_length hlen]
  congr 2
  rw [List.takeWhile_append]
  split_ifs with hall
  · rw [endsOrigin_iff.mp hrest, List.append_nil]
    exact ((List.takeWhile_prefix _).eq_of_length hall).symm
  · rfl

theorem sameOrigin_self {url : Bytes} (h : HasScheme url) : SameOrigin url url := by
  obtain ⟨i, hi⟩ := h
  exact ⟨by rw [webOrigin, hi]; rfl, rfl⟩

theorem sameOrigin_append {url rest : Bytes} (h : HasScheme url) (hrest : EndsOrigin rest) :
    SameOrigin (url ++ rest) url := by
  rw [SameOrigin, webOrigin_append h hrest]
  exact sameOrigin_self h

/-! ## The gates -/

/-- The header that the SQL and the admin gates use. -/
def usedHeader (headers : Headers) : Bytes :=
  let origin := getHeaderValue headers (lit "Origin")
  if origin ≠ [] then origin else getHeaderValue headers (lit "Referer")

/-- The text that a gate compares is the origin of the header it took it from. -/
theorem sameOrigin_usedOrigin {headers : Headers} {origin : Bytes} (h : usedOrigin headers = some origin)
    (hscheme : HasScheme origin) : SameOrigin (usedHeader headers) origin := by
  unfold usedOrigin at h
  unfold usedHeader
  dsimp only at h ⊢
  split_ifs at h ⊢ with horigin hreferer
  · obtain rfl := Option.some.inj h
    exact sameOrigin_self hscheme
  · obtain ⟨i, -, rfl⟩ := Option.map_eq_some_iff.mp h
    generalize getHeaderValue headers (lit "Referer") = referer at hscheme ⊢
    have hcut : referer = refererOrigin referer i ++ (referer.drop (i + 3)).dropWhile (· ≠ 0x2F) := by
      rw [refererOrigin, List.append_assoc, List.takeWhile_append_dropWhile, List.take_append_drop]
    have hends : EndsOrigin ((referer.drop (i + 3)).dropWhile (· ≠ 0x2F)) := by
      intro b hb
      have hslash := List.head?_dropWhile_not (· ≠ 0x2F) (referer.drop (i + 3))
      rw [Option.mem_def.mp hb] at hslash
      have hb : b = 0x2F := by simpa using hslash
      subst hb
      rfl
    nth_rewrite 1 [hcut]
    exact sameOrigin_append hscheme hends

/-- `UiHandlers::IsBoundLocally`. -/
def Origins.isBoundLocally (origins : Origins) : Bool :=
  origins.host == lit "localhost" || origins.host == lit "127.0.0.1" || origins.host == lit "::1"

/-- The checks of `HandleGetLocalToken` in front of the token. -/
def Origins.passesLocalToken (origins : Origins) (headers : Headers) : Bool :=
  let referer := getHeaderValue headers (lit "Referer")
  origins.isBoundLocally && origins.computeAllowedOrigins.any fun allowed =>
    Bytes.startsWith referer allowed

/-- Each gate lets a request pass only if the header it uses has one of the origins that it knows. -/
structure WholeOrigins (origins : Origins) (headers : Headers) : Prop where
  sql : origins.hasAllowedBrowserOrigin headers = true →
    ∃ allowed ∈ origins.own ++ origins.corsAllowedOrigins, SameOrigin (usedHeader headers) allowed
  admin : origins.hasAllowedBrowserOriginIfCookie headers .cookie = true →
    ∃ allowed ∈ origins.corsAllowedOrigins, SameOrigin (usedHeader headers) allowed
  ddb : origins.isAllowedOrigin (getHeaderValue headers (lit "Origin")) = true →
    ∃ allowed ∈ origins.computeAllowedOrigins,
      SameOrigin (getHeaderValue headers (lit "Origin")) allowed
  localToken : origins.passesLocalToken headers = true →
    ∃ allowed ∈ origins.computeAllowedOrigins,
      SameOrigin (getHeaderValue headers (lit "Referer")) allowed

theorem hasScheme_computeAllowedOrigins (origins : Origins) :
    ∀ allowed ∈ origins.computeAllowedOrigins, HasScheme allowed := by
  intro allowed h
  unfold Origins.computeAllowedOrigins at h
  dsimp only at h
  split_ifs at h
  · simp only [List.mem_cons, List.not_mem_nil, or_false] at h
    rcases h with rfl | rfl | rfl <;> exact hasScheme_httpOrigin _ _
  · rcases List.mem_append.mp h with hloopback | hhost
    · simp only [List.mem_cons, List.not_mem_nil, or_false] at hloopback
      rcases hloopback with rfl | rfl | rfl <;> exact hasScheme_httpOrigin _ _
    · rw [List.mem_singleton.mp hhost]
      exact hasScheme_httpOrigin _ _

/-- A server that is bound locally knows the three names of the loopback and no other origin. -/
theorem mem_computeAllowedOrigins {origins : Origins} (h : origins.isBoundLocally = true)
    {allowed : Bytes} (hallowed : allowed ∈ origins.computeAllowedOrigins) :
    ∃ name ∈ [lit "localhost", lit "127.0.0.1", lit "[::1]"], allowed = httpOrigin name origins.port := by
  have hhost : origins.host ∈ [[], lit "0.0.0.0", lit "localhost", lit "127.0.0.1", lit "::1"] := by
    simp only [Origins.isBoundLocally, Bool.or_eq_true, beq_iff_eq] at h
    rcases h with (h | h) | h <;> simp [h]
  rw [Origins.computeAllowedOrigins, if_pos hhost] at hallowed
  simp only [List.mem_cons, List.not_mem_nil, or_false] at hallowed
  rcases hallowed with rfl | rfl | rfl
  · exact ⟨_, by simp, rfl⟩
  · exact ⟨_, by simp, rfl⟩
  · exact ⟨_, by simp, rfl⟩

/-- The origin of a URL of this form, read off its authority. -/
theorem webOrigin_http (rest : Bytes) : webOrigin (lit "http://" ++ rest) =
    some (originOf (lit "http") (rest.takeWhile (! endsAuthority ·))) := by
  have hscheme : Bytes.findFrom (lit "http://") (lit "://") 0 = some 4 := by decide
  rw [webOrigin, Bytes.findFrom_append hscheme]
  rfl

/-- Of two names of the loopback none starts with the other. -/
theorem loopback_prefix : ∀ name ∈ [lit "localhost", lit "127.0.0.1", lit "[::1]"],
    ∀ name' ∈ [lit "localhost", lit "127.0.0.1", lit "[::1]"], name.head? = name'.head? → name = name' := by
  decide

/-- A port is digits. -/
theorem takeWhile_httpOrigin {name : Bytes} (h : ∀ b ∈ name, endsAuthority b = false) (port : UInt16)
    (rest : Bytes) :
    (name ++ lit ":" ++ Bytes.decNat port.toNat ++ rest).takeWhile (! endsAuthority ·) =
      name ++ lit ":" ++ Bytes.decNat port.toNat ++ rest.takeWhile (! endsAuthority ·) := by
  have hdigit : ∀ b : UInt8, Bytes.isDigit b = true → endsAuthority b = false :=
    forall_byte (by decide +kernel)
  refine List.takeWhile_append_of_pos fun b hb => ?_
  rw [List.mem_append, List.mem_append] at hb
  rcases hb with (hb | hb) | hb
  · rw [h b hb]
    rfl
  · obtain rfl := List.mem_singleton.mp hb
    rfl
  · rw [hdigit b (Bytes.isDigit_of_mem_decNat b hb)]
    rfl

theorem webOrigin_httpOrigin {name : Bytes} (h : ∀ b ∈ name, endsAuthority b = false) (port : UInt16)
    (rest : Bytes) : webOrigin (httpOrigin name port ++ rest) =
      some (originOf (lit "http")
        (name ++ lit ":" ++ Bytes.decNat port.toNat ++ rest.takeWhile (! endsAuthority ·))) := by
  rw [← takeWhile_httpOrigin h, ← webOrigin_http, httpOrigin]
  simp only [List.append_assoc]

/-- **Behind a known origin of the loopback the same origin ends there.** -/
theorem endsOrigin_of_sameOrigin {name name' : Bytes}
    (hname : name ∈ [lit "localhost", lit "127.0.0.1", lit "[::1]"])
    (hname' : name' ∈ [lit "localhost", lit "127.0.0.1", lit "[::1]"]) {port : UInt16} {rest : Bytes}
    (h : SameOrigin (httpOrigin name port ++ rest) (httpOrigin name' port)) : EndsOrigin rest := by
  have hfree : ∀ name ∈ [lit "localhost", lit "127.0.0.1", lit "[::1]"],
      ∀ b ∈ name, endsAuthority b = false := by decide
  have hauthority := h.2
  rw [← List.append_nil (httpOrigin name' port), webOrigin_httpOrigin (hfree name hname),
    webOrigin_httpOrigin (hfree name' hname')] at hauthority
  have htext := originOf_injective (Option.some.inj hauthority)
  have hne : ∀ name ∈ [lit "localhost", lit "127.0.0.1", lit "[::1]"], name ≠ [] := by decide
  have hhead := congrArg List.head? htext
  simp only [List.append_assoc, List.head?_append_of_ne_nil _ (hne name hname),
    List.head?_append_of_ne_nil _ (hne name' hname')] at hhead
  obtain rfl := loopback_prefix name hname name' hname' hhead
  exact endsOrigin_iff.mpr (by simpa using htext)

/-- **The gates compare whole origins exactly when no Referer goes on behind a known origin** of a server
that is bound locally, other than with a path, a query or a fragment. -/
theorem whole_origins_iff {split : Bytes → List Bytes} {setting : Bytes} {origins : Origins}
    (hcors : initCorsConfig split setting = .ok origins.corsAllowedOrigins) (headers : Headers) :
    WholeOrigins origins headers ↔
      (origins.isBoundLocally = true → ∀ allowed ∈ origins.computeAllowedOrigins, ∀ rest,
        getHeaderValue headers (lit "Referer") = allowed ++ rest → EndsOrigin rest) := by
  have hschemes := hasScheme_of_mem hcors
  constructor
  · intro hwhole hlocal allowed hallowed rest hreferer
    -- a `Referer` that starts with an allowed origin passes the check of `/localToken`
    have hpasses : origins.passesLocalToken headers = true := by
      rw [Origins.passesLocalToken, hlocal, Bool.true_and, List.any_eq_true, hreferer]
      exact ⟨allowed, hallowed, Bytes.startsWith_iff.mpr (List.prefix_append _ _)⟩
    obtain ⟨allowed', hallowed', hsame⟩ := hwhole.localToken hpasses
    obtain ⟨name, hname, rfl⟩ := mem_computeAllowedOrigins hlocal hallowed
    obtain ⟨name', hname', rfl⟩ := mem_computeAllowedOrigins hlocal hallowed'
    rw [hreferer] at hsame
    exact endsOrigin_of_sameOrigin hname hname' hsame
  · intro hends
    refine ⟨fun hpasses => ?_, fun hpasses => ?_, fun hpasses => ?_, fun hpasses => ?_⟩
    · obtain ⟨origin, hused, hknown⟩ := (hasAllowedBrowserOrigin_iff hschemes headers).mp hpasses
      refine ⟨origin, List.mem_append.mpr hknown, sameOrigin_usedOrigin hused ?_⟩
      exact hknown.elim (hasScheme_own origins origin) (hschemes origin)
    · obtain ⟨origin, hused, hknown⟩ := (hasAllowedBrowserOriginIfCookie_iff hschemes headers).mp hpasses
      exact ⟨origin, hknown, sameOrigin_usedOrigin hused (hschemes origin hknown)⟩
    · rw [Origins.isAllowedOrigin, Bool.and_eq_true, List.contains_iff_mem] at hpasses
      exact ⟨_, hpasses.2, sameOrigin_self (hasScheme_computeAllowedOrigins origins _ hpasses.2)⟩
    · rw [Origins.passesLocalToken, Bool.and_eq_true, List.any_eq_true] at hpasses
      obtain ⟨hlocal, allowed, hallowed, hprefix⟩ := hpasses
      obtain ⟨rest, hrest⟩ := Bytes.startsWith_iff.mp hprefix
      refine ⟨allowed, hallowed, ?_⟩
      rw [← hrest]
      exact sameOrigin_append (hasScheme_computeAllowedOrigins origins allowed hallowed)
        (hends hlocal allowed hallowed rest hrest.symm)

/-- The page of the server itself asks for the token. -/
theorem whole_origins_iff_page :
    WholeOrigins portalOrigins [(lit "Referer", lit "http://localhost:1294/?tab=1")] :=
  (@whole_origins_iff (fun s => s.splitOn 0x2C) (lit " https://portal.example,") portalOrigins (by decide) _).mpr
    fun _ allowed hallowed rest hrest => by
      have hends : ∀ allowed ∈ portalOrigins.computeAllowedOrigins,
          allowed <+: lit "http://localhost:1294/?tab=1" →
            EndsOrigin ((lit "http://localhost:1294/?tab=1").drop allowed.length) := by
        simp only [EndsOrigin]
        decide +kernel
      have hreferer : lit "http://localhost:1294/?tab=1" = allowed ++ rest := hrest
      have h := hends allowed hallowed (hreferer ▸ List.prefix_append allowed rest)
      rwa [hreferer, List.drop_left] at h

/-- A page on port 12945 gets the token of the server on port 1294. -/
theorem longer_port_passes :
    ¬ WholeOrigins portalOrigins [(lit "Referer", lit "http://localhost:12945/")] := by
  intro h
  exact absurd (h.localToken (by decide)) (by decide)

end Harbor.Auth
