import Harbor.Routes.Request
import Harbor.Sql.ReaderText

set_option autoImplicit false

/-! # The body of a request

`ParseRequest` reads the object a client posts to `/sql` and keeps three of its members: `sql` and
`sessionId` are decoded, `params` stays as it is written. Of members of one name the last one counts.
-/

namespace Harbor.ParamDecoder

open Json Routes

/-- The value of a member by its name; those of unknown names are skipped. -/
def requestValue (result : SqlRequest) (key : Bytes) (c : Cursor) :
    Except Bytes (SqlRequest × Cursor) := do
  let (raw, c) ← parseRawValue c
  if key = lit "sql" then do
    let (s, _) ← parseString (.start raw)
    .ok ({ result with sql := s }, c)
  else if key = lit "sessionId" then do
    let (s, _) ← parseString (.start raw)
    .ok ({ result with sessionId := s }, c)
  else if key = lit "params" then .ok ({ result with paramsJson := raw }, c)
  else .ok (result, c)

/-- One member of the object. -/
def requestMember (result : SqlRequest) (c : Cursor) : Except Bytes (SqlRequest × Cursor) := do
  let (key, c) ← parseString c
  let c ← consumeChar 0x3A c
  requestValue result key c

/-- `SqlParamDecoder::ParseRequest`. What stands behind the object is not looked at. -/
def parseRequest (body : Bytes) : Except Bytes SqlRequest := do
  let c := skipWhitespace (.start body)
  if c.rest.head? ≠ some 0x7B then .error (lit "request body must be a JSON object")
  else
    let (result, _) ← readAll 0x7D requestMember { sql := [] } (c.advance 1)
    if result.sql = [] then .error (lit "request missing required `sql` field") else .ok result

/-! ## The members of an object -/

/-- What `ParseString` makes of a string. -/
def stringOf : Source → Bytes
  | .str ps => ps.flatMap decodePiece
  | _ => []

/-- The value of the last member of a name. -/
def lastNamed (name : Bytes) (ms : List (Member Source)) : Option Source :=
  ((ms.filter fun m => memberName m = name).getLast?).map Member.value

/-- What a member changes. -/
def takeMember (result : SqlRequest) (m : Member Source) : SqlRequest :=
  if memberName m = lit "sql" then { result with sql := stringOf m.value }
  else if memberName m = lit "sessionId" then { result with sessionId := stringOf m.value }
  else if memberName m = lit "params" then { result with paramsJson := m.value.text }
  else result

/-- A function of the result that only the members of one name change has what the last one gave it. -/
theorem foldl_takeMember {α : Type} (name : Bytes) (get : SqlRequest → α) (give : Source → α)
    (hsame : ∀ r m, memberName m = name → get (takeMember r m) = give m.value)
    (hother : ∀ r m, memberName m ≠ name → get (takeMember r m) = get r) (ms : List (Member Source))
    (r : SqlRequest) : get (ms.foldl takeMember r) = ((lastNamed name ms).map give).getD (get r) := by
  induction ms using List.reverseRecOn with
  | nil => rfl
  | append_singleton ms m ih =>
      rw [List.foldl_append, List.foldl_cons, List.foldl_nil, lastNamed, List.filter_append]
      by_cases hm : memberName m = name
      · simp [hm, hsame]
      · rw [hother _ _ hm, ih, lastNamed]
        simp [hm]

theorem foldl_sql (ms : List (Member Source)) (r : SqlRequest) :
    (ms.foldl takeMember r).sql = ((lastNamed (lit "sql") ms).map stringOf).getD r.sql := by
  refine foldl_takeMember _ SqlRequest.sql stringOf (fun r m hm => ?_) (fun r m hm => ?_) ms r
  · rw [takeMember, if_pos hm]
  · rw [takeMember, if_neg hm]
    split_ifs <;> rfl

theorem foldl_sessionId (ms : List (Member Source)) (r : SqlRequest) :
    (ms.foldl takeMember r).sessionId =
      ((lastNamed (lit "sessionId") ms).map stringOf).getD r.sessionId := by
  refine foldl_takeMember _ SqlRequest.sessionId stringOf (fun r m hm => ?_) (fun r m hm => ?_) ms r
  · rw [takeMember, if_neg (by rw [hm]; decide), if_pos hm]
  · rw [takeMember, if_neg hm]
    split_ifs <;> rfl

theorem foldl_paramsJson (ms : List (Member Source)) (r : SqlRequest) :
    (ms.foldl takeMember r).paramsJson =
      ((lastNamed (lit "params") ms).map Source.text).getD r.paramsJson := by
  refine foldl_takeMember _ SqlRequest.paramsJson Source.text (fun r m hm => ?_) (fun r m hm => ?_) ms r
  · rw [takeMember, if_neg (by rw [hm]; decide), if_neg (by rw [hm]; decide), if_pos hm]
  · rw [takeMember]
    split_ifs <;> rfl

/-! ## Reading them -/

/-- The members that have to be strings are. -/
def StringMembers (ms : List (Member Source)) : Prop :=
  ∀ m ∈ ms, memberName m = lit "sql" ∨ memberName m = lit "sessionId" → ∃ ps, m.value = .str ps

theorem parseString_stringOf {x : Source} (hx : x.Ok) (hstr : ∃ ps, x = .str ps) :
    ∃ c, parseString (.start x.text) = .ok (stringOf x, c) := by
  obtain ⟨ps, rfl⟩ := hstr
  cases hx with
  | str hps =>
      have hread := parseString_spell hps 0 []
      rw [List.append_nil] at hread
      exact ⟨_, hread⟩

theorem readsItem_requestMember {m : Member Source} (hm : m.Ok) (hvalue : m.value.Ok)
    (hstr : memberName m = lit "sql" ∨ memberName m = lit "sessionId" → ∃ ps, m.value = .str ps) :
    ReadsItem 0x7D requestMember (fun r m => some (takeMember r m)) Source.memberText m := by
  refine ⟨memberText_head hm, fun s p rest hrest => ?_⟩
  obtain ⟨q, hq, hbind⟩ := member_bind hm p rest
  have hraw := parseRawValue_member hm hvalue q hrest
  have hskip := skipWhitespace_blank hm.after (q + m.afterColon.length + m.value.text.length) rest
  rw [hq] at hskip
  have hread : requestMember s ⟨p, Source.memberText m ++ rest⟩ =
      .ok (takeMember s m, ⟨q + m.afterColon.length + m.value.text.length, m.after ++ rest⟩) := by
    refine (hbind (requestValue s)).trans (bind_eq_ok.mpr ⟨_, hraw, ?_⟩)
    rw [takeMember]
    split_ifs with hsql hsession
    · obtain ⟨c, hc⟩ := parseString_stringOf hvalue (hstr (Or.inl hsql))
      exact bind_eq_ok.mpr ⟨_, hc, rfl⟩
    · obtain ⟨c, hc⟩ := parseString_stringOf hvalue (hstr (Or.inr hsession))
      exact bind_eq_ok.mpr ⟨_, hc, rfl⟩
    · rfl
    · rfl
  rw [hread]
  exact congrArg (fun c => some (takeMember s m, c)) hskip

theorem skips_requestMember (s : SqlRequest) : Skips (requestMember s) := by
  intro c
  rw [requestMember, requestMember, skips_parseString]

/-- **The members of an object are taken one after the other.** -/
theorem parseRequest_members {blank : Bytes} {ms : List (Member Source)} (h : (Source.obj blank ms).Ok)
    (hstr : StringMembers ms) {w : Bytes} (hw : IsBlank w) (rest : Bytes) :
    parseRequest (w ++ (Source.obj blank ms).text ++ rest) =
      if (ms.foldl takeMember { sql := [] }).sql = [] then
        .error (lit "request missing required `sql` field")
      else .ok (ms.foldl takeMember { sql := [] }) := by
  cases h with
  | obj hblank hms hvalues =>
      have hclose : (0x7D : UInt8) = 0x5D ∨ (0x7D : UInt8) = 0x7D := Or.inr rfl
      have hitems : ∀ m ∈ ms, ReadsItem 0x7D requestMember (fun r m => some (takeMember r m))
          Source.memberText m :=
        fun m hm => readsItem_requestMember (hms m hm) (hvalues m hm) (hstr m hm)
      have hshape : w ++ (Source.obj blank ms).text ++ rest =
          w ++ 0x7B :: (blank ++ [0x2C].intercalate (ms.map Source.memberText) ++ 0x7D :: rest) := by
        rw [Source.text, Source.memberTexts_eq]
        simp
      have hfold : ms.foldlM (fun r m => some (takeMember r m)) { sql := [] } =
          some (ms.foldl takeMember { sql := [] }) := List.foldlM_pure
      have hread := readAll_texts hclose skips_requestMember hitems hblank { sql := [] }
        (0 + w.length + 1) rest
      rw [hfold, Option.map_some, toOption_eq_some] at hread
      have hopen := skipWhitespace_value hw (b := 0x7B) (by decide) 0
        (blank ++ [0x2C].intercalate (ms.map Source.memberText) ++ 0x7D :: rest)
      rw [parseRequest, hshape, Cursor.start, hopen]
      simp only [List.head?_cons, ne_eq, not_true_eq_false, if_false]
      refine Eq.trans (b := readAll 0x7D requestMember { sql := [] }
        ⟨0 + w.length + 1, blank ++ [0x2C].intercalate (ms.map Source.memberText) ++ 0x7D :: rest⟩ >>=
        fun r => if r.1.sql = [] then .error (lit "request missing required `sql` field")
          else .ok r.1) rfl ?_
      rw [hread]
      rfl

theorem decodePiece_ne_nil (p : Piece) : decodePiece p ≠ [] := by
  cases p with
  | char c =>
      obtain ⟨b, t, hbt, -⟩ := Bytes.utf8EncodeChar_shape c
      rw [decodePiece, Piece.chars, hbt]
      · simp
      · simp
  | short b => simp [decodePiece, Piece.chars]
  | unicode a b c d =>
      rw [decodePiece, encodeUtf8]
      split_ifs <;> simp

/-- **A request is read exactly.** For every object whose `sql` and `sessionId` members are strings, the
last `sql` not empty, `ParseRequest` returns the last `sql` and the last `sessionId` decoded and the text
of the last `params`; and the text of any value is found whatever delimiter follows it. -/
theorem parseRequest_text {blank : Bytes} {ms : List (Member Source)}
    (h : (Source.obj blank ms).Ok) (hstr : StringMembers ms) {ps : List Piece}
    (hsql : lastNamed (lit "sql") ms = some (.str ps)) (hne : ps ≠ []) {w : Bytes} (hw : IsBlank w)
    (rest : Bytes) :
    parseRequest (w ++ (Source.obj blank ms).text ++ rest) = .ok
        { sql := ps.flatMap decodePiece
          sessionId := ((lastNamed (lit "sessionId") ms).map stringOf).getD []
          paramsJson := ((lastNamed (lit "params") ms).map Source.text).getD [] } ∧
      ∀ (x : Source), x.Ok → ∀ (p : Nat) (behind : Bytes), Ended behind →
        parseRawValue ⟨p, x.text ++ behind⟩ = .ok (x.text, ⟨p + x.text.length, behind⟩) := by
  refine ⟨?_, fun x hx p behind hbehind => parseRawValue_source hx hbehind p⟩
  have hlast : (ms.foldl takeMember { sql := [] }).sql = ps.flatMap decodePiece := by
    rw [foldl_sql, hsql]
    rfl
  have hnonempty : ps.flatMap decodePiece ≠ [] := by
    obtain ⟨q, qs, rfl⟩ := List.exists_cons_of_ne_nil hne
    rw [List.flatMap_cons]
    exact List.append_ne_nil_of_left_ne_nil (decodePiece_ne_nil q) _
  rw [parseRequest_members h hstr hw, if_neg (by rwa [hlast]), Except.ok.injEq]
  have hsession := foldl_sessionId ms { sql := [] }
  have hparams := foldl_paramsJson ms { sql := [] }
  generalize ms.foldl takeMember { sql := [] } = result at hlast hsession hparams ⊢
  cases result
  simp only at hlast hsession hparams
  rw [hlast, hsession, hparams]

/-- `{"sql":"a]","params":["}"],"sql":"b"}` -/
def twoStatements : List (Member Source) :=
  [.plain ['s', 'q', 'l'] (.plain ['a', ']']),
    .plain ['p', 'a', 'r', 'a', 'm', 's'] (.arr [] [⟨[], .plain ['}'], []⟩]),
    .plain ['s', 'q', 'l'] (.plain ['b'])]

theorem twoStatements_ok : (Source.obj [] twoStatements).Ok := by
  refine .obj (by decide) ?_ ?_
  · simp only [twoStatements, List.forall_mem_cons, List.not_mem_nil, false_imp_iff, implies_true, and_true]
    exact ⟨Member.plain_ok (by decide) _, Member.plain_ok (by decide) _, Member.plain_ok (by decide) _⟩
  · simp only [twoStatements, List.forall_mem_cons, List.not_mem_nil, false_imp_iff, implies_true, and_true]
    refine ⟨Source.plain_ok (by decide), .arr (by decide) ?_ ?_, Source.plain_ok (by decide)⟩
    · simp [Item.Ok, IsBlank]
    · simpa using Source.plain_ok (by decide)

theorem twoStatements_strings : StringMembers twoStatements := by
  simp only [StringMembers, twoStatements, List.forall_mem_cons, List.not_mem_nil, false_imp_iff,
    implies_true, and_true]
  exact ⟨fun _ => ⟨_, rfl⟩, fun hname => absurd hname (by decide), fun _ => ⟨_, rfl⟩⟩

theorem parseRequest_text_twoStatements :
    parseRequest ([0x20] ++ (Source.obj [] twoStatements).text ++ []) = .ok
        { sql := [Piece.char 'b'].flatMap decodePiece
          sessionId := ((lastNamed (lit "sessionId") twoStatements).map stringOf).getD []
          paramsJson := ((lastNamed (lit "params") twoStatements).map Source.text).getD [] } ∧
      ∀ (x : Source), x.Ok → ∀ (p : Nat) (behind : Bytes), Ended behind →
        parseRawValue ⟨p, x.text ++ behind⟩ = .ok (x.text, ⟨p + x.text.length, behind⟩) :=
  parseRequest_text twoStatements_ok twoStatements_strings (by rfl) (by decide) (by decide) []

/-- `{"sql":1,"sql":"b"}` -/
def numberAndStatement : List (Member Source) :=
  [.plain ['s', 'q', 'l'] (.num [0x31]), .plain ['s', 'q', 'l'] (.plain ['b'])]

/-- A string does not help a request that also has a number for `sql`. -/
theorem parseRequest_numberAndStatement :
    ¬ ∀ (blank : Bytes) (ms : List (Member Source)), (Source.obj blank ms).Ok →
      (∃ ps, lastNamed (lit "sql") ms = some (.str ps) ∧ ps ≠ []) →
      (∀ m ∈ ms, memberName m = lit "sessionId" → ∃ ps, m.value = .str ps) →
      ∃ result, parseRequest (Source.obj blank ms).text = .ok result := by
  intro h
  have hok : (Source.obj [] numberAndStatement).Ok := by
    refine .obj (by decide) ?_ ?_
    · simp only [numberAndStatement, List.forall_mem_cons, List.not_mem_nil, false_imp_iff,
        implies_true, and_true]
      exact ⟨Member.plain_ok (by decide) _, Member.plain_ok (by decide) _⟩
    · simp only [numberAndStatement, List.forall_mem_cons, List.not_mem_nil, false_imp_iff,
        implies_true, and_true]
      exact ⟨.num (isNumber_decNat 1), Source.plain_ok (by decide)⟩
  obtain ⟨result, hresult⟩ := h [] numberAndStatement hok ⟨[.char 'b'], rfl, by decide⟩ (by
    simp only [numberAndStatement, List.forall_mem_cons, List.not_mem_nil, false_imp_iff,
      implies_true, and_true]
    exact ⟨fun hname => absurd hname (by decide), fun hname => absurd hname (by decide)⟩)
  have hnone : (parseRequest (Source.obj [] numberAndStatement).text).toOption = none := by decide
  rw [hresult] at hnone
  exact absurd hnone (by simp [Except.toOption])

end Harbor.ParamDecoder
