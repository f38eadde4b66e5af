import Harbor.Auth.Origin
import Harbor.Lib.Find

set_option autoImplicit false

/-! # Two gates for one policy

`/sql` and `/sql/cancel` ask `HasAllowedBrowserOrigin` where a cookie-authenticated request comes from,
`/checkpoint` and `/interrupt` ask `HasAllowedBrowserOriginIfCookie`. Both take the origin from the same
headers (`usedOrigin`); only the first also lets in the server's own pages, and `gates_agree_iff` says
that this is all the difference there is.
-/

namespace Harbor.Auth

/-! ## The configured origins -/

/-- `AuthManager::ValidateCorsOrigin`. -/
def validateCorsOrigin (origin : Bytes) : Except Bytes Unit :=
  if origin = [] then throw (lit "harbor_cors_origins entry is empty")
  else
    match Bytes.findFrom origin (lit "://") 0 with
    | none | some 0 => throw (lit "harbor_cors_origins entry '" ++ origin ++ lit "' has no scheme://host")
    | some schemeEnd =>
        let rest := origin.drop (schemeEnd + 3)
        if rest = [] ∨ 0x2F ∈ rest ∨ 0x3F ∈ rest ∨ 0x23 ∈ rest then
          throw (lit "harbor_cors_origins entry '" ++ origin ++
            lit "' must be scheme://host[:port] with no path/query/fragment")
        else if origin.take schemeEnd ≠ lit "http" ∧ origin.take schemeEnd ≠ lit "https" then
          throw (lit "harbor_cors_origins entry '" ++ origin ++ lit "' must use http or https scheme")
        else return ()

/-- The loop of `InitCorsConfig` over the parts of the setting. -/
def corsEntries : List Bytes → Except Bytes (List Bytes)
  | [] => return []
  | raw :: parts => do
      let entry := Bytes.trim raw
      if entry = [] then corsEntries parts
      else
        validateCorsOrigin entry
        return entry :: (← corsEntries parts)

/-- `AuthManager::InitCorsConfig`, with `split` for `StringUtil::Split` at the commas. -/
def initCorsConfig (split : Bytes → List Bytes) (corsOriginsSetting : Bytes) :
    Except Bytes (List Bytes) :=
  let trimmedSetting := Bytes.trim corsOriginsSetting
  if trimmedSetting = [] then return []
  else if trimmedSetting = lit "*" then
    throw (lit "harbor_cors_origins='*' is forbidden (wildcard with credentials is unsafe). List specific origins instead.")
  else corsEntries (split trimmedSetting)

/-- The text has a scheme in front of a `://`. -/
def HasScheme (origin : Bytes) : Prop := ∃ i, Bytes.findFrom origin (lit "://") 0 = some i

theorem hasScheme_of_validate {origin : Bytes} {u : Unit} (h : validateCorsOrigin origin = .ok u) :
    HasScheme origin := by
  unfold validateCorsOrigin at h
  split_ifs at h with hempty
  cases hfind : Bytes.findFrom origin (lit "://") 0 with
  | none =>
      rw [hfind] at h
      cases h
  | some schemeEnd => exact ⟨schemeEnd, hfind⟩

theorem hasScheme_of_mem_corsEntries {parts entries : List Bytes} (h : corsEntries parts = .ok entries) :
    ∀ entry ∈ entries, HasScheme entry := by
  induction parts generalizing entries with
  | nil =>
      obtain rfl := Except.ok.inj h
      exact List.forall_mem_nil _
  | cons raw parts ih =>
      rw [corsEntries] at h
      split_ifs at h with hempty
      · exact ih h
      · obtain ⟨u, hvalid, h⟩ := bind_eq_ok.mp h
        obtain ⟨rest, hrest, h⟩ := bind_eq_ok.mp h
        obtain rfl := Except.ok.inj h
        exact List.forall_mem_cons.mpr ⟨hasScheme_of_validate hvalid, ih hrest⟩

/-- Every configured origin has a scheme. -/
theorem hasScheme_of_mem {split : Bytes → List Bytes} {setting : Bytes} {entries : List Bytes}
    (h : initCorsConfig split setting = .ok entries) : ∀ entry ∈ entries, HasScheme entry := by
  unfold initCorsConfig at h
  dsimp only at h
  split_ifs at h with hempty hstar
  · obtain rfl := Except.ok.inj h
    exact List.forall_mem_nil _
  · exact hasScheme_of_mem_corsEntries h

/-! ## The origin of a request -/

/-- The part of a Referer that both gates compare: the text in front of the first slash behind the
scheme. -/
def refererOrigin (referer : Bytes) (schemeEnd : Nat) : Bytes :=
  referer.take (schemeEnd + 3) ++ (referer.drop (schemeEnd + 3)).takeWhile (· ≠ 0x2F)

/-- The origin that a request says it comes from: `Origin`, or the one in `Referer`. -/
def usedOrigin (headers : Headers) : Option Bytes :=
  let origin := getHeaderValue headers (lit "Origin")
  let referer := getHeaderValue headers (lit "Referer")
  if origin ≠ [] then some origin
  else if referer = [] then none
  else (Bytes.findFrom referer (lit "://") 0).map (refererOrigin referer)

/-- The origins of the server's own pages, as the SQL handlers know them. -/
def Origins.own (origins : Origins) : List Bytes :=
  [httpOrigin (lit "localhost") origins.port, httpOrigin (lit "127.0.0.1") origins.port,
    httpOrigin (lit "[::1]") origins.port] ++
  if origins.host ≠ [] ∧ origins.host ≠ lit "0.0.0.0" then [httpOrigin origins.hostForm origins.port]
  else []

theorem isSameOriginAllowed_iff {origins : Origins} {origin : Bytes} :
    origins.isSameOriginAllowed origin = true ↔ origin ∈ origins.own := by
  unfold Origins.isSameOriginAllowed Origins.own
  by_cases hempty : origin = []
  · subst hempty
    simp [httpOrigin, lit]
  rw [if_neg hempty, List.mem_append]
  by_cases hloopback : origin = httpOrigin (lit "localhost") origins.port ∨
      origin = httpOrigin (lit "127.0.0.1") origins.port ∨ origin = httpOrigin (lit "[::1]") origins.port
  · rw [if_pos hloopback]
    simpa using Or.inl hloopback
  · rw [if_neg hloopback]
    by_cases hhost : origins.host ≠ [] ∧ origins.host ≠ lit "0.0.0.0"
    · rw [if_pos hhost, if_pos hhost, beq_iff_eq, List.mem_singleton]
      simp [hloopback]
    · rw [if_neg hhost, if_neg hhost]
      simp [hloopback]

theorem resolveCorsOrigin_iff {origins : Origins} {origin : Bytes} (h : origin ≠ []) :
    origins.resolveCorsOrigin origin = true ↔ origin ∈ origins.corsAllowedOrigins := by
  simp [Origins.resolveCorsOrigin, h]

/-! ## What the gates let through -/

theorem scheme_length_le {s : Bytes} {i : Nat} (h : Bytes.findFrom s (lit "://") 0 = some i) :
    i + 3 ≤ s.length := by
  obtain ⟨-, hi, hp, -⟩ := Bytes.findFrom_eq_some.mp h
  have hlen := hp.length_le
  rw [List.length_drop] at hlen
  have hthree : (lit "://").length = 3 := rfl
  omega

theorem slash_mem_of_hasScheme {origin : Bytes} (h : HasScheme origin) : 0x2F ∈ origin := by
  obtain ⟨i, hi⟩ := h
  obtain ⟨-, -, hp, -⟩ := Bytes.findFrom_eq_some.mp hi
  exact List.mem_of_mem_drop (hp.subset (by decide))

theorem hasScheme_httpOrigin (host : Bytes) (port : UInt16) : HasScheme (httpOrigin host port) := by
  have hscheme : Bytes.findFrom (lit "http://") (lit "://") 0 = some 4 := by decide
  refine ⟨4, ?_⟩
  rw [httpOrigin, List.append_assoc, List.append_assoc]
  exact Bytes.findFrom_append hscheme _

theorem hasScheme_own (origins : Origins) : ∀ origin ∈ origins.own, HasScheme origin := by
  intro origin h
  unfold Origins.own at h
  rcases List.mem_append.mp h with hloopback | hhost
  · simp only [List.mem_cons, List.not_mem_nil, or_false] at hloopback
    rcases hloopback with rfl | rfl | rfl <;> exact hasScheme_httpOrigin _ _
  · split_ifs at hhost
    · rw [List.mem_singleton.mp hhost]
      exact hasScheme_httpOrigin _ _
    · cases hhost

/-- What a gate cuts out of a Referer with a scheme is the part it should compare. -/
theorem take_findFrom_scheme {referer : Bytes} {i : Nat}
    (h : Bytes.findFrom referer (lit "://") 0 = some i) :
    Bytes.findFrom referer (lit "/") (i + 3) = none ∧ referer = refererOrigin referer i ∨
      ∃ slash, Bytes.findFrom referer (lit "/") (i + 3) = some slash ∧
        referer.take slash = refererOrigin referer i :=
  Bytes.take_findFrom 0x2F (scheme_length_le h)

/-- What is cut out of a Referer without a scheme is none of the origins a gate knows. -/
theorem notMem_of_noScheme {referer : Bytes} {known : List Bytes}
    (hknown : ∀ origin ∈ known, HasScheme origin) : referer.takeWhile (· ≠ 0x2F) ∉ known := fun h =>
  Bytes.notMem_takeWhile 0x2F referer (slash_mem_of_hasScheme (hknown _ h))

/-- The gate of the SQL handlers: the server's own origins and the configured ones. -/
theorem hasAllowedBrowserOrigin_iff {origins : Origins}
    (hcors : ∀ origin ∈ origins.corsAllowedOrigins, HasScheme origin) (headers : Headers) :
    origins.hasAllowedBrowserOrigin headers = true ↔
      ∃ origin, usedOrigin headers = some origin ∧
        (origin ∈ origins.own ∨ origin ∈ origins.corsAllowedOrigins) := by
  have hempty : [] ∉ origins.corsAllowedOrigins := fun h =>
    absurd (slash_mem_of_hasScheme (hcors _ h)) (by decide)
  -- one origin passes if one of the two lists has it
  have hgate : ∀ origin, (origins.isSameOriginAllowed origin || origins.resolveCorsOrigin origin) = true ↔
      origin ∈ origins.own ∨ origin ∈ origins.corsAllowedOrigins := by
    intro origin
    by_cases hne : origin = []
    · subst hne
      simp [isSameOriginAllowed_iff, Origins.resolveCorsOrigin, hempty]
    · rw [Bool.or_eq_true, isSameOriginAllowed_iff, resolveCorsOrigin_iff hne]
  unfold Origins.hasAllowedBrowserOrigin usedOrigin
  dsimp only
  generalize getHeaderValue headers (lit "Origin") = origin
  generalize getHeaderValue headers (lit "Referer") = referer
  by_cases horigin : origin = []
  · subst horigin
    rw [if_neg (not_not.mpr rfl), if_neg (not_not.mpr rfl)]
    by_cases hreferer : referer = []
    · rw [if_neg (not_not.mpr hreferer), if_pos hreferer]
      simp
    · rw [if_pos hreferer, if_neg hreferer]
      cases hscheme : Bytes.findFrom referer (lit "://") 0 with
      | none =>
          -- a `Referer` without `://` is cut at its first slash; what is left has no scheme
          have hrefused : ∀ cut, cut = referer.takeWhile (· ≠ 0x2F) →
              ¬ (cut ∈ origins.own ∨ cut ∈ origins.corsAllowedOrigins) := by
            rintro cut rfl
            exact not_or.mpr ⟨notMem_of_noScheme (hasScheme_own origins), notMem_of_noScheme hcors⟩
          have hleft : ¬ ∃ origin, (none : Option Nat).map (refererOrigin referer) = some origin ∧
              (origin ∈ origins.own ∨ origin ∈ origins.corsAllowedOrigins) := by simp
          rw [iff_false_right hleft]
          rcases Bytes.take_findFrom 0x2F (Nat.zero_le referer.length) with
            ⟨hslash, hcut⟩ | ⟨slash, hslash, hcut⟩
          · simp only [show lit "/" = [0x2F] from rfl, hslash, hgate]
            exact hrefused _ hcut
          · simp only [show lit "/" = [0x2F] from rfl, hslash, hgate]
            exact hrefused _ hcut
      | some i =>
          rcases take_findFrom_scheme hscheme with ⟨hslash, hcut⟩ | ⟨slash, hslash, hcut⟩
          · simp only [hslash, hgate, Option.map_some, ← hcut]
            simp
          · simp only [hslash, hgate, Option.map_some, ← hcut]
            simp
  · rw [if_pos horigin, if_pos horigin, hgate]
    simp

/-- The gate of the admin handlers: the configured origins. -/
theorem hasAllowedBrowserOriginIfCookie_iff {origins : Origins}
    (hcors : ∀ origin ∈ origins.corsAllowedOrigins, HasScheme origin) (headers : Headers) :
    origins.hasAllowedBrowserOriginIfCookie headers .cookie = true ↔
      ∃ origin, usedOrigin headers = some origin ∧ origin ∈ origins.corsAllowedOrigins := by
  have hempty : [] ∉ origins.corsAllowedOrigins := fun h =>
    absurd (slash_mem_of_hasScheme (hcors _ h)) (by decide)
  have hgate : ∀ origin, origins.resolveCorsOrigin origin = true ↔
      origin ∈ origins.corsAllowedOrigins := by
    intro origin
    by_cases hne : origin = []
    · subst hne
      simp [Origins.resolveCorsOrigin, hempty]
    · exact resolveCorsOrigin_iff hne
  unfold Origins.hasAllowedBrowserOriginIfCookie usedOrigin
  rw [if_neg (not_not.mpr rfl)]
  dsimp only
  generalize getHeaderValue headers (lit "Origin") = origin
  generalize getHeaderValue headers (lit "Referer") = referer
  by_cases horigin : origin = []
  · subst horigin
    rw [if_neg (not_not.mpr rfl), if_neg (not_not.mpr rfl)]
    by_cases hreferer : referer = []
    · rw [if_pos hreferer, if_pos hreferer]
      simp
    · rw [if_neg hreferer, if_neg hreferer]
      cases hscheme : Bytes.findFrom referer (lit "://") 0 with
      | none => simp
      | some i =>
          dsimp only
          rcases take_findFrom_scheme hscheme with ⟨hslash, hcut⟩ | ⟨slash, hslash, hcut⟩
          · rw [hslash, Option.map_some, ← hcut]
            simp [hgate]
          · rw [hslash, Option.map_some, ← hcut]
            simp [hgate]
  · rw [if_pos horigin, if_pos horigin, hgate]
    simp

/-! ## The agreement -/

/-- **The gates agree exactly on the requests that do not come from a page of the server itself**, unless
its origin is configured as well. -/
theorem gates_agree_iff {split : Bytes → List Bytes} {setting : Bytes} {origins : Origins}
    (hcors : initCorsConfig split setting = .ok origins.corsAllowedOrigins) (headers : Headers) :
    origins.hasAllowedBrowserOrigin headers = origins.hasAllowedBrowserOriginIfCookie headers .cookie ↔
      ∀ origin, usedOrigin headers = some origin → origin ∈ origins.own →
        origin ∈ origins.corsAllowedOrigins := by
  rw [Bool.eq_iff_iff, hasAllowedBrowserOrigin_iff (hasScheme_of_mem hcors),
    hasAllowedBrowserOriginIfCookie_iff (hasScheme_of_mem hcors)]
  constructor
  · intro h origin hused hown
    obtain ⟨origin', hused', hconfigured⟩ := h.mp ⟨origin, hused, Or.inl hown⟩
    rw [hused] at hused'
    obtain rfl := Option.some.inj hused'
    exact hconfigured
  · intro h
    constructor
    · rintro ⟨origin, hused, hown | hconfigured⟩
      · exact ⟨origin, hused, h origin hused hown⟩
      · exact ⟨origin, hused, hconfigured⟩
    · rintro ⟨origin, hused, hconfigured⟩
      exact ⟨origin, hused, Or.inr hconfigured⟩

/-- A server on the loopback with one configured origin. -/
def portalOrigins : Origins where
  host := lit "127.0.0.1"
  port := 1294
  ipv6 := false
  corsAllowedOrigins := [lit "https://portal.example"]

/-- The page of the portal, without an Origin header. -/
def portalHeaders : Headers := [(lit "Referer", lit "https://portal.example/reports?id=7")]

theorem gates_agree_iff_portal :
    portalOrigins.hasAllowedBrowserOrigin portalHeaders =
      portalOrigins.hasAllowedBrowserOriginIfCookie portalHeaders .cookie :=
  (@gates_agree_iff (fun s => s.splitOn 0x2C) (lit " https://portal.example,") portalOrigins (by decide)
    portalHeaders).mpr (by decide)

/-- The server's own page may run a statement but not interrupt one. -/
theorem gates_disagree :
    portalOrigins.hasAllowedBrowserOrigin [(lit "Origin", lit "http://127.0.0.1:1294")] ≠
      portalOrigins.hasAllowedBrowserOriginIfCookie [(lit "Origin", lit "http://127.0.0.1:1294")]
        .cookie := by
  decide

end Harbor.Auth
