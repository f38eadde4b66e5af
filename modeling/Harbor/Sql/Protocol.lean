import Harbor.Sql.Ndjson

set_option autoImplicit false

/-! # The grammar of the stream

What the provider delivers is a list of records, each on a line of its own: a schema record, rows
or chunks, and at most one terminal record, whose row count is the number of rows before it. Only when
the schema record cannot be built is there nothing but an error record. `OpenAt` is the invariant while
the stream runs; `provide_open` says what one call makes of it, and `run_delivered` follows by induction
over the calls.
-/

namespace Harbor.Ndjson

open Json Encoder

/-! ## Records -/

/-- A record of the protocol; rows are the trees of their values. -/
inductive Record where
  | schema
  | row (values : Json)
  | chunk (rows : List Json)
  | ended (rowCount : Nat) (timeMs : Int) (truncated : Bool)
  | error (code message : Bytes)

/-- The rows a record carries. -/
def Record.rows : Record → List Json
  | .row values => [values]
  | .chunk rows => rows
  | _ => []

/-- The records between the schema and the end. -/
def Record.IsBody (chunkMode : Bool) : Record → Prop
  | .row _ => chunkMode = false
  | .chunk _ => chunkMode = true
  | _ => False

/-- A record that ends a stream of `n` rows. -/
def Record.IsTerminal (n : Nat) : Record → Prop
  | .ended rowCount _ _ => rowCount = n
  | .error _ _ => True
  | _ => False

def Record.isTerminal : Record → Bool
  | .ended _ _ _ => true
  | .error _ _ => true
  | _ => false

variable (text : DuckText) (columns : Columns) (sessionId : Bytes)

/-- The tree is the one of some row. -/
def IsRow (values : Json) : Prop := ∃ row, valuesJson text columns row = .ok values

def Record.json : Record → Json
  | .schema => schemaRecordJson text columns sessionId
  | .row values => obj [(lit "type", str (lit "row")), (lit "values", values)]
  | .chunk rows => obj [(lit "type", str (lit "chunk")), (lit "rows", arr rows)]
  | .ended rowCount timeMs truncated => endJson rowCount timeMs truncated
  | .error code message => errorJson code message

/-- The line of a record. -/
def Record.bytes (r : Record) : Bytes := (r.json text columns sessionId).text ++ [0x0A]

/-- The bytes of a list of records. -/
def wireOf (rs : List Record) : Bytes := rs.flatMap (Record.bytes text columns sessionId)

theorem wireOf_append (rs qs : List Record) :
    wireOf text columns sessionId (rs ++ qs) =
      wireOf text columns sessionId rs ++ wireOf text columns sessionId qs := by
  rw [wireOf, List.flatMap_append, wireOf, wireOf]

theorem wireOf_singleton (r : Record) :
    wireOf text columns sessionId [r] = r.bytes text columns sessionId := by
  rw [wireOf, List.flatMap_singleton]

/-- The records of a payload whose rows have the trees `rows`. -/
def bodyRecords (chunkMode : Bool) (rows : List Json) : List Record :=
  if chunkMode then [.chunk rows] else rows.map .row

theorem bodyRecords_isBody {chunkMode : Bool} {rows : List Json} :
    ∀ r ∈ bodyRecords chunkMode rows, r.IsBody chunkMode := by
  cases chunkMode <;> simp [bodyRecords, Record.IsBody]

theorem bodyRecords_rows (chunkMode : Bool) (rows : List Json) :
    (bodyRecords chunkMode rows).flatMap Record.rows = rows := by
  cases chunkMode with
  | true => simp [bodyRecords, Record.rows]
  | false =>
      induction rows with
      | nil => rfl
      | cons v rows ih =>
          simp only [bodyRecords, Bool.false_eq_true, if_false, List.map_cons, List.flatMap_cons] at ih ⊢
          rw [ih]
          rfl

/-! ## What the encoder writes are records -/

theorem line_write (j : Json) : line (write .new j) = j.text ++ [0x0A] := by
  rw [line, write_new]

theorem emitRows_eq (rows : DataChunk) (out : Bytes) : emitRows text columns rows out =
    (rows.mapM (valuesJson text columns)).map fun vs =>
      out ++ wireOf text columns sessionId (vs.map .row) := by
  induction rows generalizing out with
  | nil => exact congrArg Except.ok (List.append_nil out).symm
  | cons row rows ih =>
      have hrow : emitRow text columns row .new = (valuesJson text columns row).map fun v =>
          write .new (Record.json text columns sessionId (.row v)) := by
        rw [emitRow_eq, rowJson, map_bind]
        rfl
      simp only [emitRows, hrow, ih, List.mapM_cons, bind_map, map_bind]
      congr 1
      funext v
      cases rows.mapM (valuesJson text columns) with
      | error e => rfl
      | ok vs =>
          refine congrArg Except.ok ?_
          rw [line_write]
          exact List.append_assoc out _ _

/-- **The payload of a chunk is its records**, or the exception of the first row that has none. -/
theorem payload_eq (ctx : StreamingCtx) (rows : DataChunk) : payload text ctx rows =
    (rows.mapM (valuesJson text ctx.columns)).map fun vs =>
      wireOf text ctx.columns sessionId (bodyRecords ctx.chunkMode vs) := by
  rw [payload]
  split_ifs with hmode
  · have hchunk : emitChunk text ctx.columns rows .new =
        (rows.mapM (valuesJson text ctx.columns)).map fun vs =>
          write .new (Record.json text ctx.columns sessionId (.chunk vs)) := by
      rw [emitChunk_eq, chunkJson, map_bind]
      rfl
    rw [hchunk, bind_map]
    cases rows.mapM (valuesJson text ctx.columns) with
    | error e => rfl
    | ok vs =>
        refine congrArg Except.ok ?_
        rw [line_write, hmode]
        exact (wireOf_singleton text ctx.columns sessionId (.chunk vs)).symm
  · rw [emitRows_eq text ctx.columns sessionId rows []]
    simp only [bodyRecords, hmode, Bool.false_eq_true, if_false, List.nil_append]

/-! ## The invariant -/

/-- The stream is open: the schema and the records `body` are on the wire, and no terminal record. -/
structure OpenAt (chunkMode : Bool) (s : State) (body : List Record) : Prop where
  hcolumns : s.ctx.columns = columns
  hsession : s.ctx.sessionIdForResponse = sessionId
  hmode : s.ctx.chunkMode = chunkMode
  schemaEmitted : s.ctx.schemaEmitted = true
  notEnded : s.ctx.endEmitted = false
  noError : s.ctx.errorEmitted = false
  notTruncated : s.ctx.truncated = false
  hwire : s.sink.wire = wireOf text columns sessionId (.schema :: body)
  isBody : ∀ r ∈ body, r.IsBody chunkMode
  isRow : ∀ v ∈ body.flatMap Record.rows, IsRow text columns v
  count : s.ctx.rowCount = (body.flatMap Record.rows).length
  capped : 0 < s.ctx.maxRows → s.ctx.rowCount ≤ s.ctx.maxRows

/-- Every write succeeds, the client is not gone, and an error record can be built. -/
def CallEnv.Clean (env : CallEnv) : Prop :=
  env.firstWrite = true ∧ env.secondWrite = true ∧ env.report.cause ≠ .disconnect ∧
    env.errorFault = false

/-- Fetching came to no chunk with rows. -/
def CallEnv.Ends (env : CallEnv) : Prop := ∀ row rows, env.fetched ≠ .chunk (row :: rows)

/-- The last calls of the provider in the state `s`, which came to `s'`: at most one terminal record was
written, and one if nothing was in the way. -/
def Closes (clean : Prop) (s s' : State) : Prop :=
  s'.more = false ∧ ∃ tail, s'.sink.wire = s.sink.wire ++ wireOf text columns sessionId tail ∧
    tail.length ≤ 1 ∧ (∀ r ∈ tail, r.IsTerminal s.ctx.rowCount) ∧ (clean → tail ≠ [])

variable {text columns sessionId}

/-! ## What one call does -/

theorem closes_record {clean : Prop} {s s' : State} {r : Record} {ok : Bool}
    (hmore : s'.more = false)
    (hwire : s'.sink.wire = if ok then s.sink.wire ++ r.bytes text columns sessionId else s.sink.wire)
    (hr : r.IsTerminal s.ctx.rowCount) (hok : clean → ok = true) :
    Closes text columns sessionId clean s s' := by
  cases ok with
  | true =>
      refine ⟨hmore, [r], ?_, le_refl 1, by simpa using hr, fun _ => by simp⟩
      rw [hwire, if_pos rfl, wireOf_singleton]
  | false =>
      refine ⟨hmore, [], ?_, Nat.zero_le 1, by simp, fun h => absurd (hok h) (by simp)⟩
      simp [hwire, wireOf]

variable (text columns sessionId) in
/-- What an error puts on the wire: its record, unless that cannot be built or written. -/
theorem emitStreamingErrorSafe_wire (s : State) (error : Bytes × Bytes) (fault ok : Bool) :
    (emitStreamingErrorSafe s error fault ok).sink.wire =
      if !fault && ok then s.sink.wire ++ (Record.error error.1 error.2).bytes text columns sessionId
      else s.sink.wire := by
  cases fault with
  | true => rfl
  | false =>
      cases ok with
      | true => exact congrArg (s.sink.wire ++ ·) (line_write (errorJson error.1 error.2))
      | false => rfl

theorem emitStreamingErrorSafe_closes (s : State) (error : Bytes × Bytes) (fault ok : Bool) :
    Closes text columns sessionId (fault = false ∧ ok = true) s
      (emitStreamingErrorSafe s error fault ok) := by
  refine closes_record rfl (emitStreamingErrorSafe_wire _ _ _ s error fault ok) trivial ?_
  rintro ⟨rfl, rfl⟩
  rfl

theorem handleException_closes (s : State) (report : GuardReport) (what : Bytes) (fault ok : Bool) :
    Closes text columns sessionId (fault = false ∧ ok = true) s
      (handleException s report what fault ok) := by
  rw [handleException]
  split <;> exact emitStreamingErrorSafe_closes s _ fault ok

variable (text columns sessionId) in
theorem handleException_wire (s : State) (report : GuardReport) (what : Bytes) (fault ok : Bool) :
    ∃ error : Bytes × Bytes, (handleException s report what fault ok).sink.wire =
      if !fault && ok then s.sink.wire ++ (Record.error error.1 error.2).bytes text columns sessionId
      else s.sink.wire := by
  rw [handleException]
  split <;> exact ⟨_, emitStreamingErrorSafe_wire _ _ _ s _ fault ok⟩

theorem handleException_more (s : State) (report : GuardReport) (what : Bytes) (fault ok : Bool) :
    (handleException s report what fault ok).more = false := by
  rw [handleException]
  split <;> rfl

theorem finish_closes (s : State) (truncated : Bool) (env : CallEnv) (ok : Bool) :
    Closes text columns sessionId (env.errorFault = false ∧ ok = true) s (finish s truncated env ok) := by
  rw [finish]
  cases env.endFault with
  | some what => exact handleException_closes s env.endReport what env.errorFault ok
  | none =>
      refine closes_record (r := .ended s.ctx.rowCount env.elapsedMs truncated) rfl ?_ rfl And.right
      cases ok with
      | true =>
          refine congrArg (s.sink.wire ++ ·) ?_
          rw [emitEnd_eq, line_write]
          rfl
      | false => rfl

theorem Closes.mono {clean clean' : Prop} {s s' : State} (h : Closes text columns sessionId clean s s')
    (himp : clean' → clean) : Closes text columns sessionId clean' s s' := by
  obtain ⟨hmore, tail, hwire, hlen, hterm, hclean⟩ := h
  exact ⟨hmore, tail, hwire, hlen, hterm, fun hc => hclean (himp hc)⟩

theorem CallEnv.Clean.first {env : CallEnv} (h : env.Clean) :
    env.errorFault = false ∧ env.firstWrite = true := ⟨h.2.2.2, h.1⟩

theorem provideEmpty_closes (s : State) (env : CallEnv) :
    Closes text columns sessionId env.Clean s (provideEmpty s env) := by
  rw [provideEmpty]
  split
  · exact (emitStreamingErrorSafe_closes s _ _ _).mono CallEnv.Clean.first
  · exact (emitStreamingErrorSafe_closes s _ _ _).mono CallEnv.Clean.first
  · rename_i hcause
    refine ⟨rfl, [], by simp [Sink.done, wireOf], Nat.zero_le 1, by simp, fun h => ?_⟩
    exact absurd hcause h.2.2.1
  · exact (finish_closes s _ env _).mono CallEnv.Clean.first

/-- The cap takes as many rows as there is room for; the subtraction never wraps around. -/
theorem applyCap_spec {ctx : StreamingCtx} (hcap : 0 < ctx.maxRows → ctx.rowCount ≤ ctx.maxRows)
    (htrunc : ctx.truncated = false) (rows : DataChunk) :
    (applyCap ctx rows = (ctx.maxRows - ctx.rowCount, true) ∧ 0 < ctx.maxRows ∧
      ctx.maxRows < ctx.rowCount + rows.length) ∨
    (applyCap ctx rows = (rows.length, false) ∧
      (0 < ctx.maxRows → ctx.rowCount + rows.length ≤ ctx.maxRows)) := by
  rw [applyCap]
  split_ifs with h
  · exact Or.inl ⟨by rw [sub64, if_pos (hcap h.1)], h⟩
  · exact Or.inr ⟨by rw [htrunc], fun hpos => by omega⟩

theorem forall₂_exists_left {α β : Type} {R : α → β → Prop} {as : List α} {bs : List β}
    (h : List.Forall₂ R as bs) {b : β} (hb : b ∈ bs) : ∃ a ∈ as, R a b := by
  induction h with
  | nil => simp at hb
  | @cons a c _ _ hac _ ih =>
      rcases List.mem_cons.mp hb with rfl | hb
      · exact ⟨a, by simp, hac⟩
      · obtain ⟨a', ha', hR⟩ := ih hb
        exact ⟨a', by simp [ha'], hR⟩

variable (sessionId) in
/-- The records a chunk adds: those of its first `n` rows. -/
theorem payload_records {ctx : StreamingCtx} {rows : DataChunk} {n : Nat} {out : Bytes}
    (hn : n ≤ rows.length) (h : payload text ctx (rows.take n) = .ok out) :
    ∃ vs : List Json, vs.length = n ∧ (∀ v ∈ vs, IsRow text ctx.columns v) ∧
      out = wireOf text ctx.columns sessionId (bodyRecords ctx.chunkMode vs) := by
  rw [payload_eq text sessionId] at h
  cases hvs : (rows.take n).mapM (valuesJson text ctx.columns) with
  | error e =>
      rw [hvs] at h
      cases h
  | ok vs =>
      rw [hvs] at h
      cases h
      have hall := mapM_eq_ok.mp hvs
      refine ⟨vs, ?_, fun v hv => ?_, rfl⟩
      · rw [← hall.length_eq, List.length_take, Nat.min_eq_left hn]
      · obtain ⟨row, -, hrow⟩ := forall₂_exists_left hall hv
        exact ⟨row, hrow⟩

/-- The state after the payload of the rows `vs` was delivered. -/
def delivered (s : State) (n : Nat) (out : Bytes) : State :=
  { ctx := { s.ctx with truncated := false, rowCount := s.ctx.rowCount + n }
    sink := s.sink.write out true
    more := true }

theorem OpenAt.delivered {chunkMode : Bool} {s : State} {body : List Record}
    (h : OpenAt text columns sessionId chunkMode s body) {vs : List Json}
    (hrows : ∀ v ∈ vs, IsRow text columns v)
    (hcap : 0 < s.ctx.maxRows → s.ctx.rowCount + vs.length ≤ s.ctx.maxRows) :
    OpenAt text columns sessionId chunkMode
      (delivered s vs.length (wireOf text columns sessionId (bodyRecords chunkMode vs)))
      (body ++ bodyRecords chunkMode vs) where
  hcolumns := h.hcolumns
  hsession := h.hsession
  hmode := h.hmode
  schemaEmitted := h.schemaEmitted
  notEnded := h.notEnded
  noError := h.noError
  notTruncated := rfl
  hwire := by
    rw [← List.cons_append, wireOf_append, ← h.hwire]
    rfl
  isBody := by
    intro r hr
    rcases List.mem_append.mp hr with hr | hr
    · exact h.isBody r hr
    · exact bodyRecords_isBody r hr
  isRow := by
    rw [List.flatMap_append, bodyRecords_rows]
    exact List.forall_mem_append.mpr ⟨h.isRow, hrows⟩
  count := by
    rw [List.flatMap_append, bodyRecords_rows, List.length_append, ← h.count]
    rfl
  capped := hcap

/-- A call that fetches rows: the stream goes on with the rows of the payload, or it ends, with them
or without. -/
theorem provideRows_open {chunkMode : Bool} {s : State} {body : List Record}
    (h : OpenAt text columns sessionId chunkMode s body) (env : CallEnv) (rows : DataChunk) :
    ∃ s₁ body', OpenAt text columns sessionId chunkMode s₁ body' ∧
      (provideRows text s env rows = s₁ ∧ s₁.more = true ∨
        Closes text columns sessionId env.Clean s₁ (provideRows text s env rows)) := by
  obtain ⟨n, truncated, hcap, hn, hroom⟩ : ∃ n truncated, applyCap s.ctx rows = (n, truncated) ∧
      n ≤ rows.length ∧ (0 < s.ctx.maxRows → s.ctx.rowCount + n ≤ s.ctx.maxRows) := by
    rcases applyCap_spec h.capped h.notTruncated rows with ⟨hcap, hpos, hlt⟩ | ⟨hcap, hfit⟩
    · have := h.capped hpos
      exact ⟨_, _, hcap, by omega, fun _ => by omega⟩
    · exact ⟨_, _, hcap, le_refl _, hfit⟩
  simp only [provideRows, hcap]
  cases hout : env.fault.elim (payload text { s.ctx with truncated := truncated } (rows.take n))
      .error with
  | error what =>
      exact ⟨s, body, h, Or.inr ((handleException_closes
        { s with ctx := { s.ctx with truncated := truncated } } env.report what _ _).mono
          CallEnv.Clean.first)⟩
  | ok out =>
      have hpayload : payload text { s.ctx with truncated := truncated } (rows.take n) = .ok out := by
        cases hfault : env.fault with
        | none => simpa [hfault] using hout
        | some what => simp [hfault] at hout
      obtain ⟨vs, rfl, hrows, hrecords⟩ := payload_records sessionId hn hpayload
      obtain rfl : out = wireOf text columns sessionId (bodyRecords chunkMode vs) := by
        rw [hrecords, ← h.hcolumns, ← h.hmode]
      cases hwrite : env.firstWrite with
      | false =>
          refine ⟨s, body, h, Or.inr ⟨rfl, [], by simp [wireOf], Nat.zero_le 1, by simp, ?_⟩⟩
          exact fun hclean => absurd (hwrite.symm.trans hclean.1) (by decide)
      | true =>
          have hopen := h.delivered (h.hcolumns ▸ hrows) hroom
          refine ⟨_, _, hopen, ?_⟩
          cases truncated with
          | false => exact Or.inl ⟨rfl, rfl⟩
          | true =>
              have hcut : Closes text columns sessionId _ _ _ := finish_closes
                { ctx := { s.ctx with rowCount := s.ctx.rowCount + vs.length, truncated := true }
                  sink := s.sink.write (wireOf text columns sessionId (bodyRecords chunkMode vs)) true
                  more := s.more } true env env.secondWrite
              exact Or.inr (hcut.mono fun hclean => ⟨hclean.2.2.2, hclean.2.1⟩)

/-- **One call on an open stream** leaves it open or closes it; it closes it if there is no chunk
with rows to go on with. -/
theorem provide_open {chunkMode : Bool} {s : State} {body : List Record}
    (h : OpenAt text columns sessionId chunkMode s body) (env : CallEnv) :
    ∃ s₁ body', OpenAt text columns sessionId chunkMode s₁ body' ∧
      (provide text s env = s₁ ∧ s₁.more = true ∧ ¬ env.Ends ∨
        Closes text columns sessionId env.Clean s₁ (provide text s env)) := by
  simp only [provide, h.schemaEmitted, h.notEnded, h.noError, Bool.not_true, Bool.false_eq_true,
    if_false, Bool.not_false, Bool.and_self, if_true]
  cases hfetched : env.fetched with
  | throws what =>
      exact ⟨s, body, h, Or.inr ((handleException_closes s env.report what _ _).mono CallEnv.Clean.first)⟩
  | null error => exact ⟨s, body, h, Or.inr (provideEmpty_closes s env)⟩
  | chunk rows =>
      cases rows with
      | nil => exact ⟨s, body, h, Or.inr (provideEmpty_closes s env)⟩
      | cons row rows =>
          obtain ⟨s₁, body', hopen, ⟨heq, hmore⟩ | hcloses⟩ := provideRows_open h env (row :: rows)
          · exact ⟨s₁, body', hopen, Or.inl ⟨heq, hmore, fun hends => hends row rows hfetched⟩⟩
          · exact ⟨s₁, body', hopen, Or.inr hcloses⟩

/-! ## Whole streams -/

/-- What is on the wire of a stream that the provider ended, or of one that still runs. -/
def Delivered (text : DuckText) (columns : Columns) (sessionId : Bytes) (chunkMode : Bool)
    (clean : Prop) (s : State) : Prop :=
  ∃ body tail, s.sink.wire = wireOf text columns sessionId (.schema :: body ++ tail) ∧
    (∀ r ∈ body, r.IsBody chunkMode) ∧ (∀ v ∈ body.flatMap Record.rows, IsRow text columns v) ∧
    tail.length ≤ 1 ∧ (∀ r ∈ tail, r.IsTerminal (body.flatMap Record.rows).length) ∧
    (s.more = false → clean → tail ≠ [])

theorem OpenAt.delivered_of_more {chunkMode : Bool} {s : State} {body : List Record} {clean : Prop}
    (h : OpenAt text columns sessionId chunkMode s body) (hmore : s.more = true) :
    Delivered text columns sessionId chunkMode clean s :=
  ⟨body, [], by rw [List.append_nil, h.hwire], h.isBody, h.isRow, Nat.zero_le 1, by simp,
    fun hstop => absurd (hmore.symm.trans hstop) (by decide)⟩

theorem Closes.delivered {chunkMode : Bool} {s s' : State} {body : List Record} {clean : Prop}
    (h : OpenAt text columns sessionId chunkMode s body)
    (hcloses : Closes text columns sessionId clean s s') :
    Delivered text columns sessionId chunkMode clean s' := by
  obtain ⟨-, tail, hwire, hlen, hterm, hclean⟩ := hcloses
  refine ⟨body, tail, ?_, h.isBody, h.isRow, hlen, ?_, fun _ => hclean⟩
  · rw [wireOf_append, ← h.hwire, hwire]
  · rwa [← h.count]

theorem run_of_stopped {s : State} (h : s.more = false) (envs : List CallEnv) :
    run text s envs = s := by
  cases envs with
  | nil => rfl
  | cons env envs => rw [run, h, if_neg (by decide)]

theorem Delivered.mono {chunkMode : Bool} {clean clean' : Prop} {s : State}
    (h : Delivered text columns sessionId chunkMode clean s) (himp : clean' → clean) :
    Delivered text columns sessionId chunkMode clean' s := by
  obtain ⟨body, tail, hwire, hbody, hrow, hlen, hterm, hclean⟩ := h
  exact ⟨body, tail, hwire, hbody, hrow, hlen, hterm, fun hmore hc => hclean hmore (himp hc)⟩

/-- **Any number of calls**, by induction over them; the provider stops at the first call that fetches
no rows, if not before. -/
theorem run_delivered {chunkMode : Bool} (envs : List CallEnv) {s : State} {body : List Record}
    (h : OpenAt text columns sessionId chunkMode s body) (hmore : s.more = true) :
    Delivered text columns sessionId chunkMode (∀ env ∈ envs, env.Clean) (run text s envs) ∧
      ((∃ env ∈ envs, env.Ends) → (run text s envs).more = false) := by
  induction envs generalizing s body with
  | nil => exact ⟨h.delivered_of_more hmore, by simp⟩
  | cons env envs ih =>
      rw [run, hmore, if_pos rfl]
      obtain ⟨s₁, body', hopen, ⟨heq, hmore₁, hends⟩ | hcloses⟩ := provide_open h env
      · rw [heq]
        obtain ⟨hdelivered, hstop⟩ := ih hopen hmore₁
        refine ⟨hdelivered.mono fun hc e he => hc e (by simp [he]), ?_⟩
        rintro ⟨e, he, hee⟩
        rcases List.mem_cons.mp he with rfl | he
        · exact absurd hee hends
        · exact hstop ⟨e, he, hee⟩
      · rw [run_of_stopped hcloses.1]
        exact ⟨(hcloses.delivered hopen).mono fun hc => hc env (by simp), fun _ => hcloses.1⟩

/-! ## The protocol -/

/-- The records a stream may consist of, whatever happens: nothing, or a schema record, then rows or
chunks, then at most one terminal record, which counts the rows before it. -/
def Grammar (chunkMode : Bool) (rs : List Record) : Prop :=
  rs = [] ∨ ∃ body tail, rs = .schema :: body ++ tail ∧ (∀ r ∈ body, r.IsBody chunkMode) ∧
    tail.length ≤ 1 ∧ ∀ r ∈ tail, r.IsTerminal (body.flatMap Record.rows).length

/-- A line: its only `0x0A` is its last byte. -/
def IsLine (l : Bytes) : Prop := ∃ s, l = s ++ [0x0A] ∧ 0x0A ∉ s

theorem Record.numbersOk (hformat : ∀ d, IsNumber (text.formatDouble d)) {r : Record}
    (hr : ∀ v ∈ r.rows, IsRow text columns v) : NumbersOk (r.json text columns sessionId) := by
  have hrows : ∀ v ∈ r.rows, NumbersOk v := by
    intro v hv
    obtain ⟨row, hrow⟩ := hr v hv
    exact valuesJson_numbersOk hformat hrow
  cases r with
  | schema => exact schemaRecordJson_numbersOk columns sessionId
  | row values => simpa [Record.json] using hrows values (by simp [Record.rows])
  | chunk rows => simpa [Record.json] using (show ∀ v ∈ rows, NumbersOk v from hrows)
  | ended rowCount timeMs truncated => exact endJson_numbersOk rowCount timeMs truncated
  | error code message => exact errorJson_numbersOk code message

theorem isTerminal_of_isBody {chunkMode : Bool} {r : Record} (h : r.IsBody chunkMode) :
    r.isTerminal = false := by
  cases r <;> first | rfl | exact h.elim

theorem isTerminal_of_isTerminal {n : Nat} {r : Record} (h : r.IsTerminal n) : r.isTerminal = true := by
  cases r <;> first | rfl | exact h.elim

variable (text columns sessionId) in
/-- The first call, which writes the schema record. -/
theorem provide_start (maxRows : Nat) (chunkMode : Bool) {env : CallEnv}
    (hbuilt : env.schemaFault = none) (hwrite : env.firstWrite = true) : OpenAt text columns sessionId chunkMode
      (provide text (start columns sessionId maxRows chunkMode) env) [] ∧
    (provide text (start columns sessionId maxRows chunkMode) env).more = true := by
  have hprovide : provide text (start columns sessionId maxRows chunkMode) env =
      { ctx := { columns, sessionIdForResponse := sessionId, maxRows, chunkMode, schemaEmitted := true }
        sink := { wire := line (emitSchema text columns sessionId .new) } } := by
    simp [provide, provideSchema, start, hbuilt, hwrite, Sink.write]
  rw [hprovide]
  refine ⟨⟨rfl, rfl, rfl, rfl, rfl, rfl, rfl, ?_, by simp, by simp, rfl, fun _ => Nat.zero_le _⟩, rfl⟩
  rw [wireOf_singleton, emitSchema_eq, line_write]
  rfl

theorem provide_start_of_write_failed (maxRows : Nat) (chunkMode : Bool) {env : CallEnv}
    (hbuilt : env.schemaFault = none) (hwrite : env.firstWrite = false) :
    provide text (start columns sessionId maxRows chunkMode) env =
      { start columns sessionId maxRows chunkMode with more := false } := by
  simp [provide, provideSchema, start, hbuilt, hwrite, Sink.write]

/-- A schema record that cannot be built: the error is all there is. -/
theorem provide_start_of_fault (maxRows : Nat) (chunkMode : Bool) {env : CallEnv} {what : Bytes}
    (hfault : env.schemaFault = some what) :
    provide text (start columns sessionId maxRows chunkMode) env =
      handleException (start columns sessionId maxRows chunkMode) env.report what env.errorFault
        env.firstWrite := by
  simp [provide, provideSchema, start, hfault]

theorem bytes_isLine (hformat : ∀ d, IsNumber (text.formatDouble d)) {r : Record}
    (hr : ∀ v ∈ r.rows, IsRow text columns v) : IsLine (r.bytes text columns sessionId) :=
  ⟨_, rfl, newline_notMem_text (Record.numbersOk hformat hr)⟩

variable (columns sessionId) in
/-- A stream whose first call writes the schema record. -/
theorem run_of_schema (hformat : ∀ d, IsNumber (text.formatDouble d)) (maxRows : Nat) (chunkMode : Bool)
    {env : CallEnv} (envs : List CallEnv) (hbuilt : env.schemaFault = none) (hwrite : env.firstWrite = true) :
    ∃ rs, (run text (start columns sessionId maxRows chunkMode) (env :: envs)).sink.wire =
        wireOf text columns sessionId rs ∧
      Grammar chunkMode rs ∧ (∀ r ∈ rs, IsLine (r.bytes text columns sessionId)) ∧
      ((run text (start columns sessionId maxRows chunkMode) (env :: envs)).more = false →
        (∀ env ∈ envs, env.Clean) → rs.countP Record.isTerminal = 1) ∧
      ((∃ env ∈ envs, env.Ends) →
        (run text (start columns sessionId maxRows chunkMode) (env :: envs)).more = false) := by
  rw [run, if_pos (by rfl)]
  obtain ⟨hopen, hmore⟩ := provide_start text columns sessionId maxRows chunkMode hbuilt hwrite
  obtain ⟨⟨body, tail, hwire, hbody, hrow, hlen, hterm, hclean⟩, hstop⟩ := run_delivered envs hopen hmore
  refine ⟨_, hwire, Or.inr ⟨body, tail, rfl, hbody, hlen, hterm⟩, fun r hr => ?_, ?_, hstop⟩
  · refine bytes_isLine hformat fun v hv => ?_
    simp only [List.cons_append, List.mem_cons, List.mem_append] at hr
    rcases hr with rfl | hr | hr
    · simp [Record.rows] at hv
    · exact hrow v (List.mem_flatMap.mpr ⟨r, hr, hv⟩)
    · have hnone : r.rows = [] := by
        have := hterm r hr
        cases r <;> first | rfl | exact this.elim
      simp [hnone] at hv
  · intro hended hall
    have htail := hclean hended hall
    -- at most one terminal record, and the run has ended, so exactly one
    obtain ⟨t, rfl⟩ : ∃ t, tail = [t] := by
      cases tail with
      | nil => exact absurd rfl htail
      | cons t tail =>
          cases tail with
          | nil => exact ⟨t, rfl⟩
          | cons _ _ => simp at hlen
    have hnone : body.countP Record.isTerminal = 0 := by
      rw [List.countP_eq_zero]
      intro r hr
      simp [isTerminal_of_isBody (hbody r hr)]
    have hone : t.isTerminal = true := isTerminal_of_isTerminal (hterm t (by simp))
    have hschema : Record.schema.isTerminal = false := rfl
    rw [List.countP_append, List.countP_cons, hnone, hschema, List.countP_singleton, if_pos hone]
    rfl

variable (columns sessionId) in
/-- A stream whose schema record cannot be built. -/
theorem run_of_fault (hformat : ∀ d, IsNumber (text.formatDouble d)) (maxRows : Nat) (chunkMode : Bool)
    {env : CallEnv} (envs : List CallEnv) {what : Bytes} (hfault : env.schemaFault = some what) :
    ∃ rs, (run text (start columns sessionId maxRows chunkMode) (env :: envs)).sink.wire =
        wireOf text columns sessionId rs ∧
      (rs = [] ∨ ∃ code message, rs = [.error code message]) ∧
      (∀ r ∈ rs, IsLine (r.bytes text columns sessionId)) ∧
      (env.Clean → rs.countP Record.isTerminal = 1) ∧
      (run text (start columns sessionId maxRows chunkMode) (env :: envs)).more = false := by
  have hrun : run text (start columns sessionId maxRows chunkMode) (env :: envs) =
      handleException (start columns sessionId maxRows chunkMode) env.report what env.errorFault
        env.firstWrite := by
    rw [run, if_pos (by rfl), provide_start_of_fault maxRows chunkMode hfault,
      run_of_stopped (handleException_more ..)]
  obtain ⟨error, hwire⟩ := handleException_wire text columns sessionId
    (start columns sessionId maxRows chunkMode) env.report what
    env.errorFault env.firstWrite
  have hmore := handleException_more (start columns sessionId maxRows chunkMode) env.report what
    env.errorFault env.firstWrite
  rw [hrun, hwire]
  cases hwritten : !env.errorFault && env.firstWrite with
  | true =>
      refine ⟨[.error error.1 error.2], (wireOf_singleton ..).symm, Or.inr ⟨_, _, rfl⟩, ?_, fun _ => rfl, hmore⟩
      simpa using bytes_isLine hformat (by simp [Record.rows])
  | false =>
      refine ⟨[], rfl, Or.inl rfl, by simp, fun hclean => ?_, hmore⟩
      rw [hclean.first.1, hclean.first.2] at hwritten
      cases hwritten

/-- **Whatever happens, the stream is in the grammar**, each record on a line of its own; only where the
schema record cannot be built, an error record may stand alone. If every write succeeds, the client stays
and error records can be built, a stream the provider has ended has exactly one terminal record; and the
provider ends it, at the latest when a call behind the first one fetches no rows. -/
theorem ndjson_protocol (hformat : ∀ d, IsNumber (text.formatDouble d)) (columns : Columns)
    (sessionId : Bytes) (maxRows : Nat) (chunkMode : Bool) (envs : List CallEnv) :
    ∃ rs, (run text (start columns sessionId maxRows chunkMode) envs).sink.wire =
        wireOf text columns sessionId rs ∧
      (Grammar chunkMode rs ∨ (∃ env ∈ envs.head?, env.schemaFault ≠ none) ∧
        ∃ code message, rs = [.error code message]) ∧
      (∀ r ∈ rs, IsLine (r.bytes text columns sessionId)) ∧
      ((run text (start columns sessionId maxRows chunkMode) envs).more = false →
        (∀ env ∈ envs, env.Clean) → rs.countP Record.isTerminal = 1) ∧
      ((∃ env ∈ envs.tail, env.Ends) →
        (run text (start columns sessionId maxRows chunkMode) envs).more = false) := by
  cases envs with
  | nil => exact ⟨[], rfl, Or.inl (Or.inl rfl), by simp, by simp [run, start], by simp⟩
  | cons env envs =>
      cases hfault : env.schemaFault with
      | some what =>
          obtain ⟨rs, hwire, halone, hline, hone, hmore⟩ :=
            run_of_fault columns sessionId hformat maxRows chunkMode envs hfault
          refine ⟨rs, hwire, ?_, hline, fun _ hall => hone (hall env List.mem_cons_self), fun _ => hmore⟩
          exact halone.imp Or.inl fun herror => ⟨⟨env, rfl, by simp [hfault]⟩, herror⟩
      | none =>
          cases hwrite : env.firstWrite with
          -- the schema was not written: the wire stays empty
          | false =>
              rw [run, if_pos (by rfl), provide_start_of_write_failed maxRows chunkMode hfault hwrite,
                run_of_stopped rfl]
              refine ⟨[], rfl, Or.inl (Or.inl rfl), by simp, fun _ hclean => ?_, fun _ => rfl⟩
              exact absurd (hwrite.symm.trans (hclean env (by simp)).1) (by decide)
          | true =>
              obtain ⟨rs, hwire, hgrammar, hline, hone, hstop⟩ :=
                run_of_schema columns sessionId hformat maxRows chunkMode envs hfault hwrite
              exact ⟨rs, hwire, Or.inl hgrammar, hline,
                fun hended hall => hone hended fun e he => hall e (List.mem_cons_of_mem _ he), hstop⟩

set_option maxRecDepth 4000 in
/-- One INTEGER column, a cap of two rows, and a chunk of three: the third row is cut off. -/
theorem ndjson_protocol_capped :
    let integer : LogicalType := .scalar .integer
    let rows : DataChunk := [[.leaf integer (.int 1)], [.null integer], [.leaf integer (.int 3)]]
    let envs : List CallEnv := [{ fetched := .null none }, { fetched := .chunk rows }]
    (run .numerals (start [(lit "n", integer)] [] 2 false) envs).sink.wire = lit "\x7b\"type\":\"schema\",\"columns\":[\x7b\"name\":\"n\",\"duckdbType\":\"INTEGER\",\"lossless\":true\x7d]\x7d\n\x7b\"type\":\"row\",\"values\":[1]\x7d\n\x7b\"type\":\"row\",\"values\":[null]\x7d\n\x7b\"type\":\"end\",\"rowCount\":2,\"timeMs\":0,\"truncated\":true\x7d\n" ∧
      ∃ rs, (run .numerals (start [(lit "n", integer)] [] 2 false) envs).sink.wire =
          wireOf .numerals [(lit "n", integer)] [] rs ∧
        Grammar false rs ∧ (∀ r ∈ rs, IsLine (r.bytes .numerals [(lit "n", integer)] [])) ∧
        rs.countP Record.isTerminal = 1 := by
  intro integer rows envs
  obtain ⟨rs, hwire, hgrammar, hline, hterminal, -⟩ :=
    ndjson_protocol isNumber_numerals [(lit "n", integer)] [] 2 false envs
  have hclean : ∀ env ∈ envs, env.Clean := by
    simp only [envs, List.forall_mem_cons]
    exact ⟨⟨rfl, rfl, by decide, rfl⟩, ⟨rfl, rfl, by decide, rfl⟩, by simp⟩
  have hmore : (run .numerals (start [(lit "n", integer)] [] 2 false) envs).more = false := by
    decide +kernel
  refine ⟨?_, rs, hwire, ?_, hline, hterminal hmore hclean⟩
  · refine Eq.trans ?_ (lit_ofList _).symm
    decide +kernel
  · exact hgrammar.resolve_right fun h => by simp [envs] at h

/-! ## Two streams that are not in the grammar of the schema -/

/-- The records begin with the schema, or there are none. -/
theorem Grammar.head {chunkMode : Bool} {rs : List Record} (h : Grammar chunkMode rs) :
    rs = [] ∨ ∃ rest, rs = .schema :: rest := by
  rcases h with rfl | ⟨body, tail, rfl, -⟩
  · exact Or.inl rfl
  · exact Or.inr ⟨_, rfl⟩

theorem bytes_ne_nil (r : Record) : r.bytes text columns sessionId ≠ [] := by
  rw [Record.bytes]
  simp

/-- Two streams of no columns in which every write succeeds and the client stays. In the first the schema
record cannot be built: an error record stands alone. In the second the only `Fetch` throws and the error
record cannot be built: there is no terminal record. -/
theorem encoder_exceptions_break_grammar :
    let faulty : List CallEnv := [{ fetched := .null none, schemaFault := some (lit "bad") }]
    let silent : List CallEnv :=
      [{ fetched := .null none }, { fetched := .throws (lit "bad"), errorFault := true }]
    (¬ ∃ rs, (run .numerals (start [] [] 0 false) faulty).sink.wire = wireOf .numerals [] [] rs ∧
        Grammar false rs) ∧
      (run .numerals (start [] [] 0 false) silent).more = false ∧
      ¬ ∃ rs, (run .numerals (start [] [] 0 false) silent).sink.wire = wireOf .numerals [] [] rs ∧
        Grammar false rs ∧ rs.countP Record.isTerminal = 1 := by
  intro faulty silent
  refine ⟨?_, by decide +kernel, ?_⟩
  · rintro ⟨rs, hwire, hgrammar⟩
    have hhead := congrArg (List.take 10) hwire
    rcases hgrammar.head with rfl | ⟨rest, rfl⟩
    · revert hhead
      decide +kernel
    · rw [wireOf, List.flatMap_cons, List.take_append_of_le_length (by decide +kernel)] at hhead
      revert hhead
      decide +kernel
  · rintro ⟨rs, hwire, hgrammar, hone⟩
    have hschema : (run .numerals (start [] [] 0 false) silent).sink.wire =
        Record.schema.bytes .numerals [] [] ++ [] := by
      decide +kernel
    rcases hgrammar.head with rfl | ⟨rest, rfl⟩
    · cases hone
    · rw [hschema, wireOf, List.flatMap_cons] at hwire
      have hrest := List.flatMap_eq_nil_iff.mp (List.append_cancel_left hwire).symm
      cases rest with
      | nil => cases hone
      | cons r rest => exact bytes_ne_nil r (hrest r List.mem_cons_self)

end Harbor.Ndjson
