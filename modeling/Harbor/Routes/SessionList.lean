import Harbor.Json.Exact
import Harbor.Routes.Admin
import Harbor.Session.Locks
import Harbor.Session.Manager
import Harbor.Sql.ScalarText

set_option autoImplicit false

/-! # The session listing

The body of `GET /sessions`, from the snapshots of the sessions. It is put together by hand, with an
escaper of its own that copies every byte from 0x80 on, and `Snapshot` cuts a query at a number of bytes.
**`sessions_listed_iff`**: it is JSON in UTF-8 that tells every query, or its beginning, exactly when no
query is cut within a character.
-/

namespace Harbor.Routes.Admin

open Harbor.Auth Harbor.Session Bytes
open Harbor.SessionLocks (kLastQueryCap)

/-! ## The body -/

/-- `EscapeJsonString` of the admin handlers, for one byte. -/
def escapeJsonByte (c : UInt8) : Bytes :=
  if c = 0x22 then lit "\\\""
  else if c = 0x5C then lit "\\\\"
  else if c = 0x08 then lit "\\b"
  else if c = 0x0C then lit "\\f"
  else if c = 0x0A then lit "\\n"
  else if c = 0x0D then lit "\\r"
  else if c = 0x09 then lit "\\t"
  else if c < 0x20 then lit "\\u00" ++ bytesToHex [c]
  else [c]

/-- `EscapeJsonString` of the admin handlers. -/
def escapeJsonString (s : Bytes) : Bytes := s.flatMap escapeJsonByte

def boolText (b : Bool) : Bytes := if b then lit "true" else lit "false"

/-- `age_s`: the difference of two times of the steady clock, in whole seconds. -/
def ageSeconds (now createdAt : Nat) : Int := ((now : Int) - createdAt).tdiv 1000000000

/-- One element of the listing. -/
def sessionText (now : Nat) (snap : SessionSnapshot) : Bytes :=
  lit "\x7b\"session_id\":\"" ++ (escapeJsonString snap.sessionId ++
    (lit "\",\"principal\":\"" ++ (escapeJsonString snap.ownerPrincipalId ++
      (lit "\",\"age_s\":" ++ (decInt (ageSeconds now snap.createdAt) ++
        (lit ",\"in_flight\":" ++ (boolText snap.queryInFlight ++
          (lit ",\"last_query\":\"" ++ (escapeJsonString snap.lastQuery ++
            (lit "\",\"last_query_truncated\":" ++ (boolText snap.lastQueryTruncated ++ lit "\x7d")))))))))))

/-- The loop over the snapshots, with the flag `first`. -/
def sessionTexts (now : Nat) : Bool → List SessionSnapshot → Bytes
  | _, [] => []
  | first, snap :: snapshots =>
      (if first then [] else lit ",") ++ sessionText now snap ++ sessionTexts now false snapshots

/-- What `HandleSessions` answers an admin with. -/
def sessionsBody (now : Nat) (m : SessionManager) : Bytes :=
  lit "\x7b\"ok\":true,\"sessions\":[" ++ (sessionTexts now true (m.snapshot kLastQueryCap) ++ lit "]\x7d")

/-! ## What it should be -/

/-- What the listing says of a session: its ids, its age, and of its query a beginning. -/
def Tells (now : Nat) (s : SessionObject) (j : Json) : Prop :=
  ∃ query truncated, j = .obj [(lit "session_id", .str s.sessionId),
      (lit "principal", .str s.ownerPrincipalId), (lit "age_s", .num (decInt (ageSeconds now s.createdAt))),
      (lit "in_flight", .bool s.queryInFlight), (lit "last_query", .str query),
      (lit "last_query_truncated", .bool truncated)] ∧
    query <+: s.lastQuery ∧ (truncated = false ↔ query = s.lastQuery)

/-- The listing is JSON, in UTF-8, that tells every live session, and the escaper agrees with the writer's. -/
structure Listed (now : Nat) (m : SessionManager) : Prop where
  utf8 : IsUtf8 (sessionsBody now m)
  json : ∃ entries, Json.parse (sessionsBody now m) =
      some (.obj [(lit "ok", .bool true), (lit "sessions", .arr entries)]) ∧
    List.Forall₂ (fun kv j => Tells now (m.object kv.2) j) m.active.entries entries
  escapes : ∀ s, IsUtf8 s → 0x22 :: escapeJsonString s ++ [0x22] = Json.writeEscapedString s

/-- The cap does not fall within a character of the query. -/
def CutBetween (query : Bytes) : Prop :=
  ∀ b, query[kLastQueryCap]? = some b → ¬ IsContinuation b

/-! ## The escaper -/

theorem escapeJsonByte_high {b : UInt8} (h : 0x80 ≤ b) : escapeJsonByte b = [b] := by
  grind [escapeJsonByte]

theorem escapeJsonByte_ascii :
    ∀ b < 0x80, escapeJsonByte b ≠ [] ∧ ∀ x ∈ escapeJsonByte b, x < 0x80 :=
  forall_byte (P := fun b => b < 0x80 → escapeJsonByte b ≠ [] ∧ ∀ x ∈ escapeJsonByte b, x < 0x80)
    (by decide +kernel)

theorem isUtf8_escapeJsonString (s : Bytes) : IsUtf8 (escapeJsonString s) ↔ IsUtf8 s :=
  isUtf8_flatMap_iff (fun _ => escapeJsonByte_high) escapeJsonByte_ascii s

/-- On an ASCII byte the two escapers agree. -/
theorem escapeJsonByte_eq : ∀ b < 0x80, escapeJsonByte b =
    if 0x20 ≤ b ∧ b < 0x80 ∧ b ≠ 0x22 ∧ b ≠ 0x5C then [b]
    else match Json.shortEscape b with
      | some c => [0x5C, c]
      | none => [0x5C, 0x75, 0x30, 0x30, Json.kHex ((b >>> 4) &&& 0x0F), Json.kHex (b &&& 0x0F)] :=
  forall_byte (P := fun b => b < 0x80 → escapeJsonByte b =
    if 0x20 ≤ b ∧ b < 0x80 ∧ b ≠ 0x22 ∧ b ≠ 0x5C then [b]
    else match Json.shortEscape b with
      | some c => [0x5C, c]
      | none => [0x5C, 0x75, 0x30, 0x30, Json.kHex ((b >>> 4) &&& 0x0F), Json.kHex (b &&& 0x0F)])
    (by decide +kernel)

theorem escapeFrom_byte {b : UInt8} (hb : b < 0x80) (s : Bytes) :
    Json.escapeFrom 0 (b :: s) = escapeJsonByte b ++ Json.escapeFrom 0 s := by
  rw [escapeJsonByte_eq b hb]
  rcases Json.byte_cases b with hplain | ⟨hplain, -, hshort⟩ | ⟨hcontrol, hshort⟩ | ⟨hhigh, -⟩
  · rw [if_pos hplain, Json.escapeFrom_plain hplain]
    rfl
  · obtain ⟨c, hc⟩ := Option.isSome_iff_exists.mp hshort
    rw [if_neg hplain, hc, Json.escapeFrom_short hplain hc]
    rfl
  · have hplain : ¬ (0x20 ≤ b ∧ b < 0x80 ∧ b ≠ 0x22 ∧ b ≠ 0x5C) :=
      fun h => UInt8.not_lt.mpr h.1 hcontrol
    rw [if_neg hplain, hshort, Json.escapeFrom_control hcontrol hshort]
    rfl
  · exact absurd hb (UInt8.not_lt.mpr hhigh)

/-- On a well-formed sequence too: both copy it. -/
theorem escapeFrom_eq {s : Bytes} (h : IsUtf8 s) : Json.escapeFrom 0 s = escapeJsonString s := by
  refine IsUtf8.rec_chars (P := fun s => Json.escapeFrom 0 s = escapeJsonString s) rfl (fun c s _ ih => ?_) h
  rw [escapeJsonString, List.flatMap_append]
  rw [escapeJsonString] at ih
  by_cases hc : c.val.toNat ≤ 0x7F
  · have hb : UInt8.ofNat c.val.toNat < 0x80 := by
      rw [UInt8.lt_iff_toNat_lt]
      simp only [UInt8.toNat_ofNat', UInt8.reduceToNat]
      omega
    rw [String.utf8EncodeChar, if_pos hc, List.singleton_append, escapeFrom_byte hb, ih,
      List.flatMap_singleton]
  · have hhigh : ∀ b ∈ String.utf8EncodeChar c, escapeJsonByte b = [b] := fun b hb =>
      escapeJsonByte_high (le_of_mem_utf8EncodeChar (by omega) hb)
    obtain ⟨b, t, hbt, hb, hvalid⟩ := Json.validateUtf8_encode (c := c) (by omega) s
    rw [List.flatMap_congr hhigh, ← List.map_eq_flatMap, List.map_id', hbt,
      Json.escapeFrom_sequence hb hvalid, ih]

theorem escapes_agree {s : Bytes} (h : IsUtf8 s) :
    0x22 :: escapeJsonString s ++ [0x22] = Json.writeEscapedString s := by
  rw [Json.writeEscapedString, escapeFrom_eq h]

/-! ## UTF-8 -/

theorem boolText_ascii (b : Bool) : ∀ x ∈ boolText b, x < 0x80 := by
  cases b <;> decide

/-- An element is UTF-8 if its three strings are. -/
theorem isUtf8_sessionText (now : Nat) (snap : SessionSnapshot) :
    IsUtf8 (sessionText now snap) ↔
      IsUtf8 snap.sessionId ∧ IsUtf8 snap.ownerPrincipalId ∧ IsUtf8 snap.lastQuery := by
  have htail : IsUtf8 (boolText snap.lastQueryTruncated ++ lit "\x7d") :=
    (isUtf8_ascii_append (boolText_ascii _)).mpr (isUtf8_of_ascii (by decide))
  rw [sessionText, isUtf8_ascii_append (by decide), isUtf8_append_ascii_append (by decide) (by decide),
    isUtf8_append_ascii_append (by decide) (by decide), isUtf8_ascii_append (decInt_ascii _),
    isUtf8_ascii_append (by decide), isUtf8_ascii_append (boolText_ascii _), isUtf8_ascii_append (by decide),
    isUtf8_append_ascii_append (by decide) (by decide), isUtf8_escapeJsonString, isUtf8_escapeJsonString,
    isUtf8_escapeJsonString, and_iff_left htail]

/-- So is what follows an element: it ends with its brace. -/
theorem isUtf8_sessionText_append (now : Nat) (snap : SessionSnapshot) (s : Bytes) :
    IsUtf8 (sessionText now snap ++ s) ↔ IsUtf8 (sessionText now snap) ∧ IsUtf8 s := by
  obtain ⟨t, ht⟩ : ∃ t, sessionText now snap = t ++ [0x7D] := by
    simp only [sessionText, ← List.append_assoc]
    exact ⟨_, rfl⟩
  have hempty : IsUtf8 [] := ⟨[], rfl⟩
  rw [ht, List.append_assoc, List.singleton_append, isUtf8_split (by decide), isUtf8_split (by decide),
    and_iff_left hempty]

theorem isUtf8_sessionTexts (now : Nat) (first : Bool) (snapshots : List SessionSnapshot) :
    IsUtf8 (sessionTexts now first snapshots) ↔ ∀ snap ∈ snapshots, IsUtf8 (sessionText now snap) := by
  induction snapshots generalizing first with
  | nil => exact iff_of_true ⟨[], rfl⟩ (by simp)
  | cons snap snapshots ih =>
      have hcomma : ∀ b ∈ (if first then [] else lit ","), b < 0x80 := by cases first <;> decide
      rw [sessionTexts, List.append_assoc, isUtf8_ascii_append hcomma, isUtf8_sessionText_append, ih,
        List.forall_mem_cons]

theorem isUtf8_sessionsBody (now : Nat) (m : SessionManager) :
    IsUtf8 (sessionsBody now m) ↔
      ∀ snap ∈ m.snapshot kLastQueryCap, IsUtf8 (sessionText now snap) := by
  have hend : lit "]\x7d" = 0x5D :: [0x7D] := rfl
  have hlast : IsUtf8 [0x7D] := isUtf8_of_ascii (by decide)
  rw [sessionsBody, isUtf8_ascii_append (by decide), hend, isUtf8_split (by decide), and_iff_left hlast,
    isUtf8_sessionTexts]

/-! ## JSON -/

/-- The tree of an element. -/
def sessionJson (now : Nat) (snap : SessionSnapshot) : Json :=
  .obj [(lit "session_id", .str snap.sessionId), (lit "principal", .str snap.ownerPrincipalId),
    (lit "age_s", .num (decInt (ageSeconds now snap.createdAt))), (lit "in_flight", .bool snap.queryInFlight),
    (lit "last_query", .str snap.lastQuery), (lit "last_query_truncated", .bool snap.lastQueryTruncated)]

/-- An element whose strings are UTF-8 is the text of its tree. -/
theorem text_sessionJson {now : Nat} {snap : SessionSnapshot} (h : IsUtf8 (sessionText now snap)) :
    (sessionJson now snap).text = sessionText now snap := by
  obtain ⟨hid, howner, hquery⟩ := (isUtf8_sessionText now snap).mp h
  have hkeys : Json.writeEscapedString (lit "session_id") = lit "\"session_id\"" ∧
      Json.writeEscapedString (lit "principal") = lit "\"principal\"" ∧
      Json.writeEscapedString (lit "age_s") = lit "\"age_s\"" ∧
      Json.writeEscapedString (lit "in_flight") = lit "\"in_flight\"" ∧
      Json.writeEscapedString (lit "last_query") = lit "\"last_query\"" ∧
      Json.writeEscapedString (lit "last_query_truncated") = lit "\"last_query_truncated\"" := by
    decide
  obtain ⟨h1, h2, h3, h4, h5, h6⟩ := hkeys
  simp only [sessionJson, Json.text, Json.memberTexts, Json.memberText, h1, h2, h3, h4, h5, h6,
    ← escapes_agree hid, ← escapes_agree howner, ← escapes_agree hquery]
  simp only [List.intercalate, List.intersperse, List.flatten_cons, List.flatten_nil, List.append_assoc,
    List.cons_append, List.nil_append, List.append_nil]
  rfl

/-- The tree of the body. -/
def bodyJson (now : Nat) (snapshots : List SessionSnapshot) : Json :=
  .obj [(lit "ok", .bool true), (lit "sessions", .arr (snapshots.map (sessionJson now)))]

/-- The elements behind the first one, each behind a comma. -/
theorem intercalate_sessionTexts {now : Nat} {snapshots : List SessionSnapshot}
    (h : ∀ snap ∈ snapshots, IsUtf8 (sessionText now snap)) (head : Bytes) :
    [0x2C].intercalate (head :: Json.texts (snapshots.map (sessionJson now))) =
      head ++ sessionTexts now false snapshots := by
  induction snapshots generalizing head with
  | nil =>
      rw [List.map_nil, Json.texts, List.intercalate_singleton, sessionTexts, List.append_nil]
  | cons snap snapshots ih =>
      obtain ⟨hsnap, hrest⟩ := List.forall_mem_cons.mp h
      rw [List.map_cons, Json.texts, List.intercalate_cons_cons, ih hrest, text_sessionJson hsnap,
        sessionTexts, List.append_assoc, List.append_assoc]
      rfl

theorem text_sessionTexts {now : Nat} {snapshots : List SessionSnapshot}
    (h : ∀ snap ∈ snapshots, IsUtf8 (sessionText now snap)) :
    [0x2C].intercalate (Json.texts (snapshots.map (sessionJson now))) = sessionTexts now true snapshots := by
  cases snapshots with
  | nil => rfl
  | cons snap snapshots =>
      obtain ⟨hsnap, hrest⟩ := List.forall_mem_cons.mp h
      rw [List.map_cons, Json.texts, intercalate_sessionTexts hrest, text_sessionJson hsnap]
      rfl

theorem text_bodyJson {now : Nat} {m : SessionManager} (h : IsUtf8 (sessionsBody now m)) :
    (bodyJson now (m.snapshot kLastQueryCap)).text = sessionsBody now m := by
  have htexts := text_sessionTexts ((isUtf8_sessionsBody now m).mp h)
  have hkeys : Json.writeEscapedString (lit "ok") = lit "\"ok\"" ∧
      Json.writeEscapedString (lit "sessions") = lit "\"sessions\"" := by decide
  simp only [bodyJson, Json.text, Json.memberTexts, Json.memberText, hkeys.1, hkeys.2, htexts]
  simp only [sessionsBody, List.intercalate, List.intersperse, List.flatten_cons, List.flatten_nil,
    List.append_assoc, List.cons_append, List.nil_append, List.append_nil]
  rfl

theorem numbersOk_bodyJson (now : Nat) (snapshots : List SessionSnapshot) :
    (bodyJson now snapshots).NumbersOk := by
  simp [bodyJson, sessionJson]

/-- Nothing in the tree is replaced. -/
theorem sanitized_sessionJson {now : Nat} {snap : SessionSnapshot} (h : IsUtf8 (sessionText now snap)) :
    (sessionJson now snap).sanitized = sessionJson now snap := by
  obtain ⟨hid, howner, hquery⟩ := (isUtf8_sessionText now snap).mp h
  have hkeys : ∀ k ∈ [lit "session_id", lit "principal", lit "age_s", lit "in_flight", lit "last_query",
      lit "last_query_truncated"], Json.sanitize k = k := fun k hk =>
    Json.sanitize_ascii (by revert k; decide)
  simp only [List.forall_mem_cons] at hkeys
  simp only [sessionJson, Json.sanitized, Json.sanitizedMembers, Json.sanitizedMember, hkeys,
    Json.sanitize_of_isUtf8 hid, Json.sanitize_of_isUtf8 howner, Json.sanitize_of_isUtf8 hquery]

theorem parse_sessionsBody {now : Nat} {m : SessionManager} (h : IsUtf8 (sessionsBody now m)) :
    Json.parse (sessionsBody now m) = some (bodyJson now (m.snapshot kLastQueryCap)) := by
  have hall := (isUtf8_sessionsBody now m).mp h
  have hentries : Json.sanitizedList ((m.snapshot kLastQueryCap).map (sessionJson now)) =
      (m.snapshot kLastQueryCap).map (sessionJson now) := by
    rw [Json.sanitizedList_eq_map, List.map_map]
    exact List.map_congr_left fun snap hsnap => sanitized_sessionJson (hall snap hsnap)
  have hkeys : Json.sanitize (lit "ok") = lit "ok" ∧ Json.sanitize (lit "sessions") = lit "sessions" := by
    decide
  rw [← text_bodyJson h, Json.parse_text (numbersOk_bodyJson _ _)]
  simp only [bodyJson, Json.sanitized, Json.sanitizedMembers, Json.sanitizedMember, hentries, hkeys]

/-! ## The cut -/

/-- What `Snapshot` takes of a query is UTF-8 if it does not end within a character. -/
theorem isUtf8_snapshot_iff {s : SessionObject} (h : IsUtf8 s.lastQuery) :
    IsUtf8 (SessionManager.snapshotOf kLastQueryCap s).lastQuery ↔ CutBetween s.lastQuery :=
  isUtf8_take_iff h kLastQueryCap

theorem tells_snapshot (now : Nat) (s : SessionObject) :
    Tells now s (sessionJson now (SessionManager.snapshotOf kLastQueryCap s)) := by
  refine ⟨_, _, rfl, List.take_prefix _ _, ?_⟩
  show (decide (s.lastQuery.length > kLastQueryCap)) = false ↔ s.lastQuery.take kLastQueryCap = s.lastQuery
  rw [decide_eq_false_iff_not, List.take_eq_self_iff]
  exact Nat.not_lt

section

variable {now : Nat} {m : SessionManager}
    (hids : ∀ kv ∈ m.active.entries,
      IsUtf8 (m.object kv.2).sessionId ∧ IsUtf8 (m.object kv.2).ownerPrincipalId)
    (hqueries : ∀ kv ∈ m.active.entries, IsUtf8 (m.object kv.2).lastQuery)
include hids hqueries

theorem isUtf8_iff : IsUtf8 (sessionsBody now m) ↔
    ∀ kv ∈ m.active.entries, CutBetween (m.object kv.2).lastQuery := by
  rw [isUtf8_sessionsBody, SessionManager.snapshot, List.forall_mem_map]
  refine forall₂_congr fun kv hkv => ?_
  rw [isUtf8_sessionText, isUtf8_snapshot_iff (hqueries kv hkv)]
  exact ⟨fun h => h.2.2, fun h => ⟨(hids kv hkv).1, (hids kv hkv).2, h⟩⟩

/-- **The listing is JSON in UTF-8 that tells the queries exactly when the cap falls within no character of
them.** The ids are hexadecimal digits. -/
theorem sessions_listed_iff :
    Listed now m ↔ ∀ kv ∈ m.active.entries, CutBetween (m.object kv.2).lastQuery := by
  constructor
  · intro h
    exact (isUtf8_iff hids hqueries).mp h.utf8
  · intro h
    have hutf8 : IsUtf8 (sessionsBody now m) := (isUtf8_iff hids hqueries).mpr h
    refine ⟨hutf8, ⟨_, parse_sessionsBody hutf8, ?_⟩, fun s => escapes_agree⟩
    rw [List.forall₂_map_right_iff, SessionManager.snapshot, List.forall₂_map_right_iff,
      List.forall₂_same]
    exact fun kv _ => tells_snapshot now (m.object kv.2)

end

/-- One session, with a query of 199 letters and what follows them. -/
def oneSession (behind : Bytes) : SessionManager where
  active := AList.singleton (lit "00ff") 0
  objects := [⟨lit "00ff", [], 0, List.replicate 199 0x61 ++ behind, true, .none⟩]

/-- Its strings are UTF-8. -/
theorem isUtf8_oneSession {behind : Bytes} (h : IsUtf8 behind) :
    (∀ kv ∈ (oneSession behind).active.entries, IsUtf8 ((oneSession behind).object kv.2).sessionId ∧
      IsUtf8 ((oneSession behind).object kv.2).ownerPrincipalId) ∧
      ∀ kv ∈ (oneSession behind).active.entries, IsUtf8 ((oneSession behind).object kv.2).lastQuery := by
  have hletters : IsUtf8 (List.replicate 199 0x61) := isUtf8_of_ascii fun b hb => by
    rw [(List.mem_replicate.mp hb).2]
    decide
  have hid : IsUtf8 (lit "00ff") := isUtf8_of_ascii (by decide)
  constructor
  · intro kv hkv
    obtain rfl := List.mem_singleton.mp hkv
    exact ⟨hid, ⟨[], rfl⟩⟩
  · intro kv hkv
    obtain rfl := List.mem_singleton.mp hkv
    exact hletters.append h

/-- 201 letters. -/
theorem sessions_listed_iff_letters : Listed 0 (oneSession [0x61, 0x61]) := by
  have hutf8 := isUtf8_oneSession (isUtf8_of_ascii (s := [0x61, 0x61]) (by decide))
  refine (sessions_listed_iff hutf8.1 hutf8.2).mpr fun kv hkv b hb => ?_
  obtain rfl := List.mem_singleton.mp hkv
  obtain rfl : 0x61 = b := Option.some.inj hb
  exact not_isContinuation_of_ascii (by decide)

/-- 199 letters and an é, of which the listing has the first byte. -/
theorem sessions_cut_character : (∀ kv ∈ (oneSession [0xC3, 0xA9]).active.entries,
      IsUtf8 ((oneSession [0xC3, 0xA9]).object kv.2).lastQuery) ∧ ¬ Listed 0 (oneSession [0xC3, 0xA9]) := by
  have hutf8 := isUtf8_oneSession ⟨['é'], rfl⟩
  refine ⟨hutf8.2, fun h => ?_⟩
  have hcut := (isUtf8_iff hutf8.1 hutf8.2).mp h.utf8 _ (List.mem_singleton.mpr rfl)
  exact hcut 0xA9 rfl ⟨by decide, by decide⟩

end Harbor.Routes.Admin
