import Harbor.Auth.Manager

set_option autoImplicit false

/-! # The default answer to admin requests

Without a policy of the operator's own, `RunAuthorization` refuses the texts that begin with
`__HARBOR_ADMIN__:`, unless a setting allows them. "Without a policy" is decided on the text of the
setting (`isBuiltinNopAuthz`), which function runs by DuckDB. `adminDefaultDeny_iff` says for which
spellings of the built-in allow-all the two agree; a name in double quotes is not among them.
-/

namespace Harbor.Auth

open Bytes Sql

/-- The authorization function the manager takes from the settings. -/
def authzFnName (settings : Settings) : Bytes :=
  resolveName settings.harborAuthorizationFunction settings.quackAuthorizationFunction
    (lit "harbor_nop_authorization")

/-- Admin requests are refused as long as the setting does not allow them. -/
def AdminDefaultDeny (auth : AuthManager) (resolve : Bytes → Option Callback) : Prop :=
  ∀ (settings : Settings) (sessionId query : Bytes),
    startsWith query kAdminPrefix = true → settings.harborAllowAdminWithoutAuthz ≠ some true →
      auth.runAuthorization (some { settings, resolve }) sessionId query = false

/-! ## The text and the function -/

theorem snapshotHasCustomAuthzFn_new (settings : Settings) (serverToken : Bytes)
    (unauthenticated : Bool) :
    (AuthManager.new (some settings) serverToken unauthenticated).snapshotHasCustomAuthzFn =
      !isBuiltinNopAuthz (authzFnName settings) := rfl

/-- Where the text is taken for a nop, the prefix alone refuses the request. -/
theorem adminDefaultDeny_of_not_custom {auth : AuthManager}
    (h : auth.snapshotHasCustomAuthzFn = false) (resolve : Bytes → Option Callback) :
    AdminDefaultDeny auth resolve := by
  intro settings sessionId query hadmin hallow
  have hflag : settings.harborAllowAdminWithoutAuthz.getD false = false := by
    cases hsetting : settings.harborAllowAdminWithoutAuthz with
    | none => rfl
    | some allowed =>
        cases allowed with
        | false => rfl
        | true => exact absurd hsetting hallow
  unfold AuthManager.runAuthorization
  simp only [hadmin, h, hflag, Bool.not_false, Bool.and_self, if_true]

/-- Where it is not, the nop that runs allows every request. -/
theorem runAuthorization_nop {auth : AuthManager} (h : auth.snapshotHasCustomAuthzFn = true)
    {db : Database} (hresolve : db.resolve (authzSql auth.snapshotAuthzFnName) =
      some .quackDummyAuthorization) (sessionId query : Bytes) :
    auth.runAuthorization (some db) sessionId query = true := by
  unfold AuthManager.runAuthorization Database.query
  simp only [h, Bool.not_true, Bool.and_false, Bool.false_and, Bool.false_eq_true, if_false,
    hresolve, Callback.run, evaluateAuthQuery]

/-! ## Spellings -/

/-- The spelling names one of the two nops; letter case does not matter to DuckDB. -/
def NamesNop (name : QualifiedName) : Prop :=
  lower name.function.name = lit "harbor_nop_authorization" ∨
  lower name.function.name = lit "quack_nop_authorization"

/-- Every character of such a name is, in lower case, a letter or an underscore. -/
theorem NamesNop.mem {name : QualifiedName} (h : NamesNop name) :
    ∀ b ∈ name.function.name, isAlpha (toLower b) = true ∨ toLower b = 0x5F := by
  intro b hb
  have hmem : toLower b ∈ lower name.function.name := List.mem_map_of_mem hb
  have hharbor : ∀ c ∈ lit "harbor_nop_authorization", isAlpha c = true ∨ c = 0x5F := by decide
  have hquack : ∀ c ∈ lit "quack_nop_authorization", isAlpha c = true ∨ c = 0x5F := by decide
  obtain heq | heq := h
  · exact hharbor _ (heq ▸ hmem)
  · exact hquack _ (heq ▸ hmem)

/-- Such a character is no space, no dot and no double quote, and neither is its lower case. -/
theorem plain_of_letter (b : UInt8) (h : isAlpha (toLower b) = true ∨ toLower b = 0x5F) :
    isSpace b = false ∧ toLower b ≠ 0x2E ∧ b ≠ 0x22 := by
  grind [isAlpha, isSpace, toLower]

theorem NamesNop.squeeze_name {name : QualifiedName} (h : NamesNop name) :
    squeeze name.function.name = lower name.function.name :=
  squeeze_of_no_space fun b hb => (plain_of_letter b (h.mem b hb)).1

theorem NamesNop.dot_notMem {name : QualifiedName} (h : NamesNop name) :
    0x2E ∉ lower name.function.name := by
  intro hmem
  obtain ⟨b, hb, heq⟩ := List.mem_map.mp hmem
  exact (plain_of_letter b (h.mem b hb)).2.1 heq

/-- Squeezed, the identifier is the name in lower case, between the quotes it was written with. -/
theorem NamesNop.squeeze_text {name : QualifiedName} (h : NamesNop name) :
    squeeze name.function.text =
      if name.function.quoted then 0x22 :: lower name.function.name ++ [0x22]
      else lower name.function.name := by
  unfold Identifier.text
  cases name.function.quoted with
  | false => simpa using h.squeeze_name
  | true =>
      have hescape : name.function.name.flatMap (fun b => if b = 0x22 then [b, b] else [b]) =
          name.function.name := by
        conv => rhs; rw [← List.flatMap_singleton' name.function.name]
        refine List.flatMap_congr fun b hb => ?_
        rw [if_neg (plain_of_letter b (h.mem b hb)).2.2]
      have hquote : squeeze [0x22] = [0x22] := by decide
      simp only [if_true, hescape]
      rw [← List.singleton_append, squeeze_append, squeeze_append, h.squeeze_name, hquote]
      rfl

/-- **Which spellings are recognized.** Letter case, white space and qualifiers are seen through,
double quotes around the function's name are not. -/
theorem isBuiltinNopAuthz_text {name : QualifiedName} (h : NamesNop name) :
    isBuiltinNopAuthz name.text = !name.function.quoted := by
  have hdot : 0x2E ∉ squeeze name.function.text := by
    rw [h.squeeze_text]
    cases name.function.quoted with
    | false => simpa using h.dot_notMem
    | true => simpa using h.dot_notMem
  have hlast := afterLastDot_squeeze_text name hdot
  have hne : name.text ≠ [] := by
    intro hnil
    rw [hnil, h.squeeze_text] at hlast
    have hempty : afterLastDot (squeeze []) = [] := rfl
    rw [hempty] at hlast
    cases hq : name.function.quoted with
    | false =>
        rw [hq] at hlast
        have hname : lower name.function.name = [] := by simpa using hlast.symm
        unfold NamesNop at h
        rw [hname] at h
        exact absurd h (by decide)
    | true =>
        rw [hq] at hlast
        simp at hlast
  unfold isBuiltinNopAuthz
  rw [if_neg hne, hlast, h.squeeze_text]
  cases name.function.quoted with
  | false => simpa [NamesNop] using h
  | true =>
      -- The first byte is a double quote; the names begin with a letter.
      have hharbor : lit "harbor_nop_authorization" = 0x68 :: lit "arbor_nop_authorization" := rfl
      have hquack : lit "quack_nop_authorization" = 0x71 :: lit "uack_nop_authorization" := rfl
      simp [hharbor, hquack]

/-! ## The main theorem -/

/-- **When the built-in allow-all is denied to admin requests.** For settings whose function DuckDB
finds to be one of the two nops, admin requests are refused by default iff `IsBuiltinNopAuthz`
recognizes the text; among the spellings of their names these are the ones without double quotes
around the function's own identifier. -/
theorem adminDefaultDeny_iff {settings : Settings} {resolve : Bytes → Option Callback}
    (hresolve : resolve (authzSql (authzFnName settings)) = some .quackDummyAuthorization)
    (serverToken : Bytes) (unauthenticated : Bool) :
    (AdminDefaultDeny (.new (some settings) serverToken unauthenticated) resolve ↔
      isBuiltinNopAuthz (authzFnName settings) = true) ∧
    ∀ name : QualifiedName, NamesNop name → authzFnName settings = name.text →
      (AdminDefaultDeny (.new (some settings) serverToken unauthenticated) resolve ↔
        name.function.quoted = false) := by
  have hmain : AdminDefaultDeny (.new (some settings) serverToken unauthenticated) resolve ↔
      isBuiltinNopAuthz (authzFnName settings) = true := by
    have hcustom := snapshotHasCustomAuthzFn_new settings serverToken unauthenticated
    cases hnop : isBuiltinNopAuthz (authzFnName settings) with
    | true =>
        rw [hnop] at hcustom
        exact iff_of_true (adminDefaultDeny_of_not_custom hcustom resolve) rfl
    | false =>
        rw [hnop] at hcustom
        refine iff_of_false (fun hdeny => ?_) (by simp)
        have hrefused := hdeny {} [] kAdminPrefix (by decide) (by decide)
        have hallowed := @runAuthorization_nop _ hcustom { resolve } hresolve [] kAdminPrefix
        rw [hrefused] at hallowed
        cases hallowed
  refine ⟨hmain, fun name hname htext => ?_⟩
  rw [hmain, htext, isBuiltinNopAuthz_text hname]
  cases name.function.quoted <;> simp

/-- DuckDB's function lookup for a name without qualifiers: neither the letter case nor double quotes
matter. -/
def nopNames : Bytes → Option Callback := fun sql =>
  let sql := (sql.filter (· ≠ 0x22)).map toLower
  if sql = lit "select harbor_nop_authorization(?, ?)" then some .quackDummyAuthorization
  else if sql = lit "select quack_nop_authorization(?, ?)" then some .quackDummyAuthorization
  else none

theorem nopNames_quoted : nopNames (authzSql (0x22 :: lit "harbor_nop_authorization" ++ [0x22])) =
    some .quackDummyAuthorization := by
  have hsql : ((authzSql (0x22 :: lit "harbor_nop_authorization" ++ [0x22])).filter
      (· ≠ 0x22)).map toLower = lit "select harbor_nop_authorization(?, ?)" := by rfl
  unfold nopNames
  rw [hsql]
  rfl

theorem nopNames_default : nopNames (authzSql (lit "harbor_nop_authorization")) =
    some .quackDummyAuthorization := by
  have hsql : ((authzSql (lit "harbor_nop_authorization")).filter
      (· ≠ 0x22)).map toLower = lit "select harbor_nop_authorization(?, ?)" := by rfl
  unfold nopNames
  rw [hsql]
  rfl

theorem adminDefaultDeny_iff_default :
    (AdminDefaultDeny (.new (some {}) (lit "secret") false) nopNames ↔
      isBuiltinNopAuthz (authzFnName {}) = true) ∧
    ∀ name : QualifiedName, NamesNop name → authzFnName {} = name.text →
      (AdminDefaultDeny (.new (some {}) (lit "secret") false) nopNames ↔
        name.function.quoted = false) :=
  @adminDefaultDeny_iff {} nopNames nopNames_default (lit "secret") false

/-- The setting with the name of the nop in double quotes. -/
def quotedSettings : Settings :=
  { harborAuthorizationFunction := some (0x22 :: lit "harbor_nop_authorization" ++ [0x22]) }

/-- In double quotes the nop answers admin requests, and allows them. -/
theorem quoted_nop_allows_admin :
    nopNames (authzSql (authzFnName quotedSettings)) = some .quackDummyAuthorization ∧
      quotedSettings.harborAllowAdminWithoutAuthz = some false ∧
      (AuthManager.new (some quotedSettings) (lit "secret") false).runAuthorization
        (some { settings := quotedSettings, resolve := nopNames }) (lit "__HARBOR_AUTH__:admin")
        (lit "__HARBOR_ADMIN__:checkpoint:create") = true ∧
      ¬ AdminDefaultDeny (.new (some quotedSettings) (lit "secret") false) nopNames := by
  have hresolve : nopNames (authzSql (authzFnName quotedSettings)) = some .quackDummyAuthorization :=
    nopNames_quoted
  have hcustom : (AuthManager.new (some quotedSettings) (lit "secret")
      false).snapshotHasCustomAuthzFn = true := by rfl
  have hallowed := fun (db : Database) (hdb : db.resolve = nopNames) =>
    @runAuthorization_nop _ hcustom db (by rw [hdb]; exact hresolve)
      (lit "__HARBOR_AUTH__:admin") (lit "__HARBOR_ADMIN__:checkpoint:create")
  refine ⟨hresolve, rfl, hallowed _ rfl, ?_⟩
  intro hdeny
  have hrefused := hdeny quotedSettings (lit "__HARBOR_AUTH__:admin")
    (lit "__HARBOR_ADMIN__:checkpoint:create") (by rfl) (by decide)
  rw [hallowed _ rfl] at hrefused
  cases hrefused

end Harbor.Auth
