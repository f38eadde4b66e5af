import Harbor.Routes.Mediation
import Harbor.Sql.Request
import Mathlib.Data.List.DropRight

set_option autoImplicit false

/-! # Transactions without a session

`HandleSql` refuses a statement that begins a transaction when the request has no session: "Reject
ephemeral transactions early". Whether it begins one is known to DuckDB's parser, but the handler asks
the text: trimmed and in upper case, it starts with `BEGIN` or with `START TRANSACTION`. `Parser` is
what this depends on of DuckDB. The rule finds the transactions that are spelled as it expects
(`Parser.Plain`), and a request with any other spelling goes on to be prepared.
-/

namespace Harbor.Routes.Sql

open Harbor.Auth Harbor.Session Bytes
open Prog (Gets)

/-! ## The parser -/

/-- DuckDB's parser: the statements of a text, and how the text of a single one is split at its first
word. -/
structure Parser where
  /-- What `ExtractStatements` finds. -/
  statements : Bytes → Except Bytes (List SqlStatement)
  /-- The statement is BEGIN or START TRANSACTION. -/
  startsTransaction : Bytes → Bool
  /-- The white space, comments and semicolons in front. -/
  lead : Bytes → Bytes
  firstWord : Bytes → Bytes
  rest : Bytes → Bytes

/-- How the parser reads a text with one statement. -/
structure Parser.Reads (parser : Parser) (sql : Bytes) : Prop where
  text : sql = parser.lead sql ++ (parser.firstWord sql ++ parser.rest sql)
  /-- A letter behind white space belongs to a word. -/
  lead_of_white : ∀ white b s, sql = white ++ b :: s → (∀ c ∈ white, isSpace c = true) →
    isAlpha b = true → parser.lead sql = white
  /-- Letters in a row belong to one word, -/
  letters : (parser.firstWord sql ++ parser.rest sql).takeWhile isAlpha <+: parser.firstWord sql
  /-- and a blank ends it. -/
  blank : 0x20 ∉ parser.firstWord sql
  /-- The two keywords that start a transaction start no other statement. -/
  starts : parser.startsTransaction sql = true ↔
    upper (parser.firstWord sql) = lit "BEGIN" ∨ upper (parser.firstWord sql) = lit "START"
  /-- No statement has a longer word there that begins like the first of them. -/
  keyword : lit "BEGIN" <+: upper (parser.firstWord sql) →
    upper (parser.firstWord sql) = lit "BEGIN"

/-- The parser does so with every text it finds one statement in. -/
def Parser.Documented (parser : Parser) : Prop :=
  ∀ sql statement, parser.statements sql = .ok [statement] → parser.Reads sql

/-- Nothing but white space in front of the first word, and one blank between START and TRANSACTION. -/
def Parser.Plain (parser : Parser) (sql : Bytes) : Prop :=
  (∀ b ∈ parser.lead sql, isSpace b = true) ∧
    (upper (parser.firstWord sql) = lit "START" → lit " TRANSACTION" <+: upper (parser.rest sql))

/-! ## The text -/

theorem isSpace_toUpper : ∀ b : UInt8, isSpace (toUpper b) = isSpace b :=
  forall_byte (by decide +kernel)

theorem isAlpha_toUpper : ∀ b : UInt8, isAlpha (toUpper b) = isAlpha b :=
  forall_byte (by decide +kernel)

theorem toUpper_eq_blank : ∀ b : UInt8, toUpper b = 0x20 → b = 0x20 :=
  forall_byte (by decide +kernel)

theorem not_isSpace_of_isAlpha : ∀ b : UInt8, isAlpha b = true → isSpace b = false :=
  forall_byte (by decide +kernel)

/-- White space at the end does not matter to a start that does not end with white space. -/
theorem upper_trim_startsWith {w : Bytes} {b : UInt8} (hb : isSpace b = false) (s : Bytes) :
    startsWith (upper (trim s)) (w ++ [b]) = true ↔ w ++ [b] <+: upper (s.dropWhile isSpace) := by
  have htrim : trim s = (s.dropWhile isSpace).rdropWhile isSpace := rfl
  generalize s.dropWhile isSpace = t at htrim ⊢
  rw [startsWith, List.isPrefixOf_iff_prefix, htrim]
  have hsplit : upper (t.rdropWhile isSpace) ++ upper (t.rtakeWhile isSpace) = upper t := by
    rw [upper, upper, ← List.map_append, List.rdropWhile_append_rtakeWhile]
    rfl
  constructor
  · intro h
    exact h.trans ⟨_, hsplit⟩
  · intro h
    rcases List.prefix_or_prefix_of_prefix h ⟨_, hsplit⟩ with hin | ⟨q, hq⟩
    · exact hin
    -- The end of `w` would stand in the white space that is cut off.
    · rcases List.eq_nil_or_concat' q with rfl | ⟨q, c, rfl⟩
      · rw [List.append_nil] at hq
        exact ⟨[], by rw [List.append_nil, hq]⟩
      · rw [← List.append_assoc] at hq
        obtain ⟨hw, hc⟩ := List.append_inj' hq rfl
        obtain rfl : c = b := by simpa using hc
        have hmem : c ∈ upper (t.rtakeWhile isSpace) := by
          rw [← hw, ← hsplit, List.append_assoc] at h
          exact ((List.prefix_append_right_inj _).mp h).subset (by simp)
        obtain ⟨d, hd, rfl⟩ := List.mem_map.mp hmem
        have hspace := List.mem_rtakeWhile_imp hd
        rw [isSpace_toUpper, hspace] at hb
        cases hb

/-- A word at the start of the text, split off. -/
theorem split_word {w t : Bytes} (h : w <+: upper t) : ∃ u v, t = u ++ v ∧ upper u = w := by
  obtain ⟨v, hv⟩ := h
  obtain ⟨u, v, rfl, hu, -⟩ := List.map_eq_append_iff.mp hv.symm
  exact ⟨u, v, rfl, hu⟩

/-- Letters at the start of the text belong to its first word. -/
theorem letters_prefix {u v f : Bytes} (hu : ∀ b ∈ upper u, isAlpha b = true)
    (hf : (u ++ v).takeWhile isAlpha <+: f) : u <+: f := by
  have hletters : ∀ b ∈ u, isAlpha b = true := by
    intro b hb
    rw [← isAlpha_toUpper]
    exact hu _ (List.mem_map_of_mem hb)
  rw [List.takeWhile_append_of_pos hletters] at hf
  exact (List.prefix_append _ _).trans hf

theorem blank_of_prefix {w v : Bytes} (h : 0x20 :: w <+: upper v) : ∃ v', v = 0x20 :: v' := by
  obtain ⟨u, v, rfl, hu⟩ := split_word h
  cases u with
  | nil => cases hu
  | cons b u =>
      obtain rfl := toUpper_eq_blank b (List.cons.inj hu).1
      exact ⟨u ++ v, rfl⟩

section Rule

variable {parser : Parser} {sql : Bytes}

/-- A text whose words begin with a letter, behind white space only. -/
theorem Parser.Reads.lead_eq (h : parser.Reads sql) {u v : Bytes} (hu : u ≠ [])
    (halpha : ∀ b ∈ upper u, isAlpha b = true) (htext : sql.dropWhile isSpace = u ++ v) :
    parser.lead sql = sql.takeWhile isSpace ∧ parser.firstWord sql ++ parser.rest sql = u ++ v := by
  obtain ⟨b, u, rfl⟩ := List.exists_cons_of_ne_nil hu
  have hsplit : sql = sql.takeWhile isSpace ++ b :: (u ++ v) := by
    rw [← List.cons_append, ← htext, List.takeWhile_append_dropWhile]
  have hb : isAlpha b = true := by
    rw [← isAlpha_toUpper]
    exact halpha _ (List.mem_map_of_mem List.mem_cons_self)
  have hlead := h.lead_of_white _ b _ hsplit (fun c hc => List.mem_takeWhile_imp hc) hb
  refine ⟨hlead, ?_⟩
  have htext' := h.text.symm.trans hsplit
  rw [hlead] at htext'
  exact List.append_cancel_left htext'

/-- A text with nothing in front of its first word but white space. -/
theorem Parser.Reads.dropWhile_eq (h : parser.Reads sql)
    (hlead : ∀ b ∈ parser.lead sql, isSpace b = true) {w : Bytes} (hw : w ≠ [])
    (halpha : ∀ b ∈ w, isAlpha b = true) (hword : upper (parser.firstWord sql) = w) :
    sql.dropWhile isSpace = parser.firstWord sql ++ parser.rest sql := by
  conv_lhs => rw [h.text, List.dropWhile_append_of_pos hlead]
  cases hfirst : parser.firstWord sql with
  | nil =>
      rw [hfirst] at hword
      exact absurd hword.symm hw
  | cons b u =>
      have hb : isAlpha b = true := by
        rw [← isAlpha_toUpper]
        refine halpha _ ?_
        rw [← hword, hfirst]
        exact List.mem_cons_self
      rw [List.cons_append, List.dropWhile_cons_of_neg]
      rw [not_isSpace_of_isAlpha b hb]
      decide

/-- **The rule finds the transactions that are spelled plainly**, and nothing else. -/
theorem beginsTransaction_iff (h : parser.Reads sql) :
    beginsTransaction sql = true ↔ parser.startsTransaction sql = true ∧ parser.Plain sql := by
  have hbegin : lit "BEGIN" = lit "BEGI" ++ [0x4E] := by decide
  have htransaction : lit "START TRANSACTION" = lit "START TRANSACTIO" ++ [0x4E] := by decide
  have hboth : lit "START TRANSACTION" = lit "START" ++ lit " TRANSACTION" := by decide
  unfold beginsTransaction
  rw [Bool.or_eq_true, hbegin, htransaction, upper_trim_startsWith (by decide),
    upper_trim_startsWith (by decide), ← hbegin, ← htransaction]
  constructor
  · rintro (hword | hword)
    · obtain ⟨u, v, htext, hu⟩ := split_word hword
      have halpha : ∀ b ∈ upper u, isAlpha b = true := by rw [hu]; decide
      obtain ⟨hlead, hwords⟩ := h.lead_eq (by rintro rfl; exact absurd hu (by decide)) halpha htext
      have hfirst : u <+: parser.firstWord sql := letters_prefix halpha (hwords ▸ h.letters)
      -- of the keywords that start with the letters of BEGIN only BEGIN does
      have hkeyword := h.keyword (by rw [← hu]; exact hfirst.map toUpper)
      refine ⟨h.starts.mpr (Or.inl hkeyword), ?_, fun hstart => ?_⟩
      · rw [hlead]
        exact fun b hb => List.mem_takeWhile_imp hb
      · exact absurd (hkeyword.symm.trans hstart) (by decide)
    · rw [hboth] at hword
      obtain ⟨u, v, htext, hu⟩ := split_word ((List.prefix_append _ _).trans hword)
      have halpha : ∀ b ∈ upper u, isAlpha b = true := by rw [hu]; decide
      obtain ⟨hlead, hwords⟩ := h.lead_eq (by rintro rfl; exact absurd hu (by decide)) halpha htext
      obtain ⟨f, hf⟩ : u <+: parser.firstWord sql := letters_prefix halpha (hwords ▸ h.letters)
      -- Behind START stands a blank, which ends the first word.
      have hblank : lit " TRANSACTION" <+: upper v := by
        rw [htext, upper, List.map_append, ← upper, hu] at hword
        exact (List.prefix_append_right_inj _).mp hword
      obtain ⟨v, rfl⟩ := blank_of_prefix hblank
      rw [← hf, List.append_assoc, List.append_cancel_left_eq] at hwords
      obtain rfl : f = [] := by
        have hno := h.blank
        cases f with
        | nil => rfl
        | cons b f =>
            obtain rfl := (List.cons.inj hwords).1
            rw [← hf] at hno
            exact absurd (by simp) hno
      rw [List.append_nil] at hf
      refine ⟨h.starts.mpr (Or.inr (by rw [← hf, hu])), ?_, fun _ => ?_⟩
      · rw [hlead]
        exact fun b hb => List.mem_takeWhile_imp hb
      · rwa [← List.nil_append (parser.rest sql), hwords]
  · rintro ⟨hstarts, hlead, hgap⟩
    rcases h.starts.mp hstarts with hword | hword
    · refine Or.inl ?_
      rw [h.dropWhile_eq hlead (by decide) (by decide) hword, upper, List.map_append, ← upper, hword]
      exact List.prefix_append _ _
    · refine Or.inr ?_
      rw [h.dropWhile_eq hlead (by decide) (by decide) hword, upper, List.map_append, ← upper, hword,
        hboth]
      exact (List.prefix_append_right_inj _).mpr (hgap hword)

end Rule

/-! ## The handler -/

/-- The answer to a transaction without a session. -/
def transactionRefused : Reply :=
  fail 400 (lit "BAD_REQUEST")
    (lit "transactions require an explicit sessionId; create one with POST /sql/sessions/new")

/-- The parser has been asked for the statements. -/
def Parsed (h : Past) : Prop := ∃ ev ∈ h, ∃ conn sql, ev.1 = .extractStatements conn sql

/-- No text has been prepared or executed. -/
def Untouched (h : Past) : Prop := ∀ ev ∈ h, ev.1.clientSql? = none

/-- The request is answered that it is a transaction, and nothing has been prepared or executed. -/
def Refused (h : Past) (prog : Handler Reply) : Prop := prog = .done transactionRefused ∧ Untouched h

/-- The answers of the parser and of the one setting the request depends on. -/
def Parser.Answers (parser : Parser) (setting : Option UInt64) : Event Answer → Prop
  | ⟨.extractStatements _ sql, statements⟩ => statements = parser.statements sql
  | ⟨.maxRequestBodySetting, answer⟩ => answer = setting
  | _ => True

/-- Wherever the program gets: before the statements are there nothing is prepared, and from then on the
request is refused if the `verdict` is true. -/
def Decides (legal : Event Answer → Prop) (verdict : Prop) (prog : Handler Reply) : Prop :=
  ∀ h p, Gets legal prog h p → (¬ Parsed h → Untouched h) ∧ (Parsed h → (Refused h p ↔ verdict))

section Decides

variable {legal : Event Answer → Prop} {verdict : Prop}

theorem not_parsed_nil : ¬ Parsed [] := by
  rintro ⟨ev, hev, -⟩
  exact nomatch hev

theorem untouched_nil : Untouched [] := fun _ hev => nomatch hev

theorem untouched_append {h : Past} {ev : Event Answer} (hev : ev.1.clientSql? = none) :
    Untouched (h ++ [ev]) ↔ Untouched h := by
  constructor
  · exact fun huntouched past hpast => huntouched past (List.mem_append_left _ hpast)
  · intro huntouched past hpast
    rcases List.mem_append.mp hpast with hpast | hpast
    · exact huntouched past hpast
    · rw [List.mem_singleton.mp hpast]
      exact hev

theorem decides_pure (reply : Reply) : Decides legal verdict (pure reply) := by
  intro h p hgets
  obtain ⟨rfl, -⟩ := hgets.of_done
  exact ⟨fun _ => untouched_nil, fun hparsed => absurd hparsed not_parsed_nil⟩

/-- A call before the parser is asked. -/
theorem decides_call {call : Call} {rest : Answer call → Handler Reply}
    (hcall : call.clientSql? = none) (hparser : ∀ conn sql, call ≠ .extractStatements conn sql)
    (hrest : ∀ a, legal ⟨call, a⟩ → Decides legal verdict (rest a)) :
    Decides legal verdict (perform call >>= rest) := by
  intro h p hgets
  rcases Gets.of_call hgets with ⟨rfl, -⟩ | ⟨a, h, rfl, ha, hgets⟩
  · exact ⟨fun _ => untouched_nil, fun hparsed => absurd hparsed not_parsed_nil⟩
  · have hparsed : Parsed (h ++ [⟨call, a⟩]) ↔ Parsed h := by
      constructor
      · rintro ⟨ev, hev, conn, sql, heq⟩
        rcases List.mem_append.mp hev with hev | hev
        · exact ⟨ev, hev, conn, sql, heq⟩
        · rw [List.mem_singleton.mp hev] at heq
          exact absurd heq (hparser conn sql)
      · rintro ⟨ev, hev, hask⟩
        exact ⟨ev, List.mem_append_left _ hev, hask⟩
    rw [hparsed, Refused, untouched_append hcall]
    exact hrest a ha h p hgets

end Decides

variable {parser : Parser} {setting : Option UInt64}

/-- Once the statements are there, the rule decides. -/
theorem decides_runSql {parsed : SqlRequest} {statement : SqlStatement}
    (hsingle : parser.statements parsed.sql = .ok [statement]) (req : Request) :
    Decides (parser.Answers setting) (beginsTransaction parsed.sql = true)
      (runSql req parsed .ephemeral) := by
  unfold runSql
  refine decides_call rfl (fun _ _ h => nomatch h) fun isOpen _ => ?_
  cases isOpen with
  | false => exact decides_pure _
  | true =>
      refine decides_call rfl (fun _ _ h => nomatch h) fun allowed _ => ?_
      cases allowed with
      | false => exact decides_pure _
      | true =>
          intro h p hgets
          rcases Gets.of_call hgets with ⟨rfl, -⟩ | ⟨statements, h, rfl, hanswer, hgets⟩
          · exact ⟨fun _ => untouched_nil, fun hparsed => absurd hparsed not_parsed_nil⟩
          · have hparsed : Parsed (h ++ [⟨.extractStatements .ephemeral parsed.sql, statements⟩]) :=
              ⟨_, List.mem_append_right _ List.mem_cons_self, _, _, rfl⟩
            obtain rfl : statements = .ok [statement] := hanswer.trans hsingle
            dsimp only [Prog.bind] at hgets
            refine ⟨fun hnot => absurd hparsed hnot, fun _ => ?_⟩
            rw [Refused, untouched_append rfl]
            by_cases hrule : beginsTransaction parsed.sql = true
            · rw [if_pos ⟨rfl, hrule⟩] at hgets
              obtain ⟨rfl, rfl⟩ := Gets.of_done hgets
              exact iff_of_true ⟨rfl, untouched_nil⟩ hrule
            · rw [if_neg fun h => hrule h.2] at hgets
              refine iff_of_false (fun ⟨hdone, huntouched⟩ => ?_) hrule
              rcases Gets.of_call hgets with ⟨-, hp⟩ | ⟨a, h, rfl, -, -⟩
              · exact nomatch hp.symm.trans hdone
              · have htouched := huntouched ⟨.prepare .ephemeral parsed.sql, a⟩ (by simp)
                cases htouched

theorem decides_handleSql {deps : Deps} {req : Request} {parsed : SqlRequest}
    (hrequest : sqlRequest deps req (readUbigintSetting setting kDefaultMaxBodyBytes) = .ok parsed)
    (hsession : parsed.sessionId = []) {statement : SqlStatement}
    (hsingle : parser.statements parsed.sql = .ok [statement]) :
    Decides (parser.Answers setting) (beginsTransaction parsed.sql = true) (handleSql deps req) := by
  unfold handleSql
  split
  · refine decides_call rfl (fun _ _ h => nomatch h) fun answer hanswer => ?_
    obtain rfl : answer = setting := hanswer
    rw [hrequest]
    have hresolve : ∀ authn : AuthResult, Decides (parser.Answers answer)
        (beginsTransaction parsed.sql = true) (resolveSession req parsed authn.principalId) := by
      intro authn
      rw [resolveSession, if_pos hsession]
      exact decides_runSql hsingle req
    refine decides_call rfl (fun _ _ h => nomatch h) fun authn _ => ?_
    split
    · unfold originGate
      split
      · refine decides_call rfl (fun _ _ h => nomatch h) fun allowed _ => ?_
        cases allowed with
        | false => exact decides_pure _
        | true => exact hresolve authn
      · exact hresolve authn
    · exact decides_pure _
  · exact decides_pure _

/-- **A transaction without a session** is refused before anything is prepared or executed exactly when
it is spelled plainly, in every run of the handler; a statement that starts none is never refused. -/
theorem transactions_refused_iff (hparser : parser.Documented) {deps : Deps} {req : Request}
    {parsed : SqlRequest}
    (hrequest : sqlRequest deps req (readUbigintSetting setting kDefaultMaxBodyBytes) = .ok parsed)
    (hsession : parsed.sessionId = []) {statement : SqlStatement}
    (hsingle : parser.statements parsed.sql = .ok [statement]) {h : Past} {prog : Handler Reply}
    (hgets : Gets (parser.Answers setting) (handleSql deps req) h prog) :
    (¬ Parsed h → Untouched h) ∧
      (Parsed h → ((Refused h prog ↔ parser.startsTransaction parsed.sql = true) ↔
        (parser.startsTransaction parsed.sql = true → parser.Plain parsed.sql))) := by
  obtain ⟨hbefore, hafter⟩ := decides_handleSql hrequest hsession hsingle h prog hgets
  refine ⟨hbefore, fun hparsed => ?_⟩
  rw [hafter hparsed, beginsTransaction_iff (hparser _ _ hsingle)]
  constructor
  · intro hcorrect hstarts
    exact (hcorrect.mpr hstarts).2
  · intro hplain
    exact ⟨fun hfound => hfound.1, fun hstarts => ⟨hstarts, hplain hstarts⟩⟩

/-! ## A comment in front -/

/-- What the parser makes of BEGIN behind `lead`, the one text it is asked about here. -/
def beginParser (lead : Bytes) : Parser where
  statements sql :=
    if sql = lead ++ lit "BEGIN" then .ok [⟨.other, false⟩] else .error (lit "syntax error")
  startsTransaction _ := true
  lead _ := lead
  firstWord _ := lit "BEGIN"
  rest _ := []

/-- A lead that begins with neither white space nor a letter. -/
theorem beginParser_documented {b : UInt8} (hspace : isSpace b = false) (halpha : isAlpha b = false)
    (lead : Bytes) : (beginParser (b :: lead)).Documented := by
  intro sql statement hsingle
  have hsql : sql = b :: lead ++ lit "BEGIN" := by
    by_contra hne
    exact nomatch (if_neg hne).symm.trans hsingle
  have hletters : (lit "BEGIN" ++ []).takeWhile isAlpha <+: lit "BEGIN" := by decide
  have hblank : 0x20 ∉ lit "BEGIN" := by decide
  have hupper : upper (lit "BEGIN") = lit "BEGIN" := by decide
  refine ⟨hsql, fun white c s hc hwhite hletter => ?_, hletters, hblank, ?_, fun _ => hupper⟩
  · rw [hsql] at hc
    cases white with
    | nil =>
        obtain rfl := (List.cons.inj hc).1
        exact absurd hletter (by simp [halpha])
    | cons d white =>
        obtain rfl := (List.cons.inj hc).1
        exact absurd (hwhite b List.mem_cons_self) (by simp [hspace])
  · exact iff_of_true rfl (Or.inl hupper)

def commentedParser : Parser := beginParser (lit "/* a */ ")

/-- `{"sql": "/* a */ BEGIN"}`. -/
def commentedRequest : Request where
  headers := [(lit "Content-Type", lit "application/json")]
  body := [lit "\x7b\"sql\": \"/* a */ BEGIN\"\x7d"]

def textDeps : Deps := { plainDeps with parseRequest := ParamDecoder.parseRequest }

def commentedSql : SqlRequest := { sql := lit "/* a */ BEGIN" }

/-- The calls of the request up to the statements. -/
def commentedPast : Past :=
  [⟨.extractStatements .ephemeral commentedSql.sql, .ok [⟨.other, false⟩]⟩,
    ⟨.runAuthorization kAdminSessionId commentedSql.sql, true⟩,
    ⟨.lockDatabase, true⟩,
    ⟨.authenticateRequest commentedRequest.headers kAdminSessionId, secretCaller⟩,
    ⟨.maxRequestBodySetting, none⟩]

theorem commentedRequest_parsed :
    sqlRequest textDeps commentedRequest (readUbigintSetting none kDefaultMaxBodyBytes) =
      .ok commentedSql := by
  decide +kernel

theorem commentedParser_statements :
    commentedParser.statements commentedSql.sql = .ok [⟨.other, false⟩] := by
  have htext : commentedSql.sql = lit "/* a */ " ++ lit "BEGIN" := by decide +kernel
  rw [htext]
  simp [commentedParser, beginParser]

/-- The request waits for the statement to be prepared. -/
theorem commentedPast_gets : ∃ next, Gets (commentedParser.Answers none)
    (handleSql textDeps commentedRequest) commentedPast
    (.call (.prepare .ephemeral commentedSql.sql) next) := by
  have hjson : isJsonContentType (commentedRequest.header (lit "Content-Type")) = true := by
    decide +kernel
  have hsetting : commentedParser.Answers none ⟨.maxRequestBodySetting, none⟩ := rfl
  have hstatements : commentedParser.Answers none
      ⟨.extractStatements .ephemeral commentedSql.sql, .ok [⟨.other, false⟩]⟩ :=
    commentedParser_statements.symm
  have hrule : ¬ (Conn.ephemeral = Conn.ephemeral ∧ beginsTransaction commentedSql.sql = true) := by
    decide +kernel
  have hstart : Gets (commentedParser.Answers none) (handleSql textDeps commentedRequest) []
      (handleSql textDeps commentedRequest) := .start
  conv at hstart => arg 4; rw [handleSql, if_pos hjson]
  have hread := hstart.answer _ hsetting
  dsimp only [Prog.bind] at hread
  rw [commentedRequest_parsed] at hread
  have hcaller := Gets.answer secretCaller hread trivial
  have hopen := Gets.answer true hcaller trivial
  have hallowed := Gets.answer true hopen trivial
  have hparsed := hallowed.answer _ hstatements
  dsimp only [Prog.bind] at hparsed
  rw [if_neg hrule] at hparsed
  exact ⟨_, hparsed⟩

/-- **A comment in front of BEGIN** hides the transaction: it is prepared. -/
theorem commented_transaction_prepared :
    ¬ ∀ h prog, Gets (commentedParser.Answers none) (handleSql textDeps commentedRequest) h prog →
      Parsed h → (Refused h prog ↔ commentedParser.startsTransaction commentedSql.sql = true) := by
  intro hclaim
  obtain ⟨next, hgets⟩ := commentedPast_gets
  have hparsed : Parsed commentedPast := ⟨_, List.mem_cons_self, _, _, rfl⟩
  exact nomatch ((hclaim _ _ hgets hparsed).mpr rfl).1

/-- The rule on that run. -/
theorem transactions_refused_iff_commented : ∃ prog,
    Gets (commentedParser.Answers none) (handleSql textDeps commentedRequest) commentedPast prog ∧
    (¬ Parsed commentedPast → Untouched commentedPast) ∧
      (Parsed commentedPast →
        ((Refused commentedPast prog ↔ commentedParser.startsTransaction commentedSql.sql = true) ↔
          (commentedParser.startsTransaction commentedSql.sql = true →
            commentedParser.Plain commentedSql.sql))) := by
  obtain ⟨next, hgets⟩ := commentedPast_gets
  exact ⟨_, hgets, transactions_refused_iff
    (beginParser_documented (by decide) (by decide) _) commentedRequest_parsed rfl
    commentedParser_statements hgets⟩

end Harbor.Routes.Sql
