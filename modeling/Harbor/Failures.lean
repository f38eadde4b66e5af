import Harbor.Sql.Delivery
import Harbor.Quack.Batch
import Harbor.Ui.FetchLoop

set_option autoImplicit false

/-! # Failed queries and the responses to them

A request has failed if a `Fetch` threw, or if there was nothing left to fetch while its guard or
watchdog reports a cause: then an empty chunk may be the end of the query and not of its result.
`fetching` says how the fetching of a request ends, whatever the loop makes of it. The stream never
reports a failed request as a success. Each of the other four shapes does, and
`failure_never_reported_as_success` says exactly when.
-/

namespace Harbor

open Json Encoder
open QueryTimeout (InterruptCause)

/-! ## How fetching ends -/

inductive Ending where
  /-- No more chunks were wanted. -/
  | full
  /-- A null pointer, with the error of the result if it has one, or an empty chunk. -/
  | exhausted (error : Option Bytes)
  | threw (what : Bytes)
deriving Repr

/-- The chunks that are fetched after `got`, and how it ends; `enough` says when no more are wanted,
`emptyEnds` whether an empty chunk ends it. -/
def fetching (enough : List DataChunk → Bool) (emptyEnds : Bool) :
    List DataChunk → List Fetched → List DataChunk × Ending
  | got, [] => ([], if enough got then .full else .exhausted none)
  | got, fetched :: fetches =>
      if enough got then ([], .full)
      else match fetched with
        | .throws what => ([], .threw what)
        | .null error => ([], .exhausted error)
        | .chunk rows =>
            if emptyEnds && rows.isEmpty then ([], .exhausted none)
            else
              let (chunks, ending) := fetching enough emptyEnds (got ++ [rows]) fetches
              (rows :: chunks, ending)

theorem fetching_of_enough {enough : List DataChunk → Bool} {emptyEnds : Bool} {got : List DataChunk}
    (h : enough got = true) (fetches : List Fetched) :
    fetching enough emptyEnds got fetches = ([], .full) := by
  cases fetches <;> simp [fetching, h]

/-- The request has failed. -/
def Failed (ending : Ending) (report : GuardReport) : Prop :=
  match ending with
  | .full => False
  | .exhausted _ => report.cause ≠ .none
  | .threw _ => True

/-! ## Bodies that say `ok: true` -/

/-- The body is an object whose member `ok` is `true`. -/
def SaysOk (r : HttpResponse) : Prop :=
  ∃ ms, parse r.body = some (obj ms) ∧ readMap ms (lit "ok") = some (.bool true)

/-- A member that does not interfere with one named `k`: its name is ASCII and another one. -/
def Plain (k : Bytes) (m : Bytes × Json) : Prop := (∀ b ∈ m.1, b < 0x80) ∧ m.1 ≠ k ∧ NumbersOk m.2

theorem plain {k n : Bytes} {j : Json} (hascii : ∀ b ∈ n, b < 0x80) (hne : n ≠ k)
    (hj : NumbersOk j) : Plain k (n, j) := ⟨hascii, hne, hj⟩

/-- The first member of an object is the one of its name, if the others do not interfere. -/
theorem readMap_first {k : Bytes} {x : Json} {ms : List (Bytes × Json)} (hk : ∀ b ∈ k, b < 0x80)
    (hms : ∀ m ∈ ms, Plain k m) :
    readMap (sanitizedMembers ((k, x) :: ms)) k = some x.sanitized.read := by
  have hname : sanitize k = k := sanitize_ascii hk
  rw [sanitizedMembers, sanitizedMember, hname]
  refine readMap_cons_self (m := (k, x.sanitized)) fun hmem => ?_
  rw [sanitizedMembers_eq_map, List.map_map] at hmem
  obtain ⟨⟨n, j⟩, hm, hn⟩ := List.mem_map.mp hmem
  obtain ⟨hascii, hne, -⟩ := hms (n, j) hm
  exact hne ((sanitize_ascii hascii).symm.trans hn)

theorem saysOk_iff {r : HttpResponse} {b : Bool} {ms : List (Bytes × Json)}
    (hbody : r.body = (obj ((lit "ok", .bool b) :: ms)).text) (hms : ∀ m ∈ ms, Plain (lit "ok") m) :
    SaysOk r ↔ b = true := by
  have hread := readMap_first (x := .bool b) (by decide) hms
  have hall : NumbersOk (obj ((lit "ok", .bool b) :: ms)) :=
    numbersOk_obj.mpr (List.forall_mem_cons.mpr ⟨by simp, fun m hm => (hms m hm).2.2⟩)
  rw [SaysOk, hbody, parse_text hall]
  simp only [sanitized, Option.some.injEq, Json.obj.injEq]
  constructor
  · rintro ⟨_, rfl, h⟩
    rw [hread] at h
    exact JVal.bool.inj (Option.some.inj h)
  · rintro rfl
    exact ⟨_, rfl, hread⟩

theorem plain_sessionIdJson {k : Bytes} (hk : lit "sessionId" ≠ k) (sessionId : Bytes) :
    ∀ m ∈ sessionIdJson sessionId, Plain k m := by
  rw [sessionIdJson]
  split_ifs
  · simp
  · simp only [List.mem_singleton, forall_eq]
    exact plain (by decide) hk (by simp)

/-- The error envelope says `ok: false`. -/
theorem not_saysOk_respondError (status : Nat) (errorCode message sessionId : Bytes) :
    ¬ SaysOk (respondError status errorCode message sessionId) := by
  have hbody : (respondError status errorCode message sessionId).body =
      (obj ((lit "ok", .bool false) :: ([(lit "error", str message),
        (lit "errorCode", str errorCode)] ++ sessionIdJson sessionId))).text := by
    rw [← write_new, respondError, sessionIdJson]
    split_ifs <;> rfl
  refine fun h => Bool.false_ne_true ((saysOk_iff hbody ?_).mp h)
  refine List.forall_mem_append.mpr ⟨?_, plain_sessionIdJson (by decide) sessionId⟩
  simp only [List.mem_cons, List.not_mem_nil, or_false, forall_eq_or_imp, forall_eq]
  exact ⟨plain (by decide) (by decide) (by simp), plain (by decide) (by decide) (by simp)⟩

/-- The write response says `ok: true`, whatever came of the statement. -/
theorem saysOk_writeResponse (getInt64 : Value → Except Bytes Int) (sessionId : Bytes)
    (fetched : Fetched) (elapsedMs : Int) :
    SaysOk (OneShot.writeResponse getInt64 sessionId fetched elapsedMs) := by
  have hbody : (OneShot.writeResponse getInt64 sessionId fetched elapsedMs).body =
      (obj ((lit "ok", .bool true) :: ([(lit "kind", str (lit "write"))] ++ sessionIdJson sessionId ++
        [(lit "rowCount", num (Bytes.decNat (OneShot.affectedRows getInt64 fetched))),
          (lit "timeMs", num (Bytes.decInt elapsedMs))]))).text := by
    rw [OneShot.writeResponse, OneShot.respondJson, emitOneShotWrite_eq, write_new]
    rfl
  refine (saysOk_iff hbody (List.forall_mem_append.mpr ⟨List.forall_mem_append.mpr
    ⟨?_, plain_sessionIdJson (by decide) sessionId⟩, ?_⟩)).mpr rfl
  · simp only [List.mem_singleton, forall_eq]
    exact plain (by decide) (by decide) (by simp)
  · simp only [List.mem_cons, List.not_mem_nil, or_false, forall_eq_or_imp, forall_eq]
    exact ⟨plain (by decide) (by decide) (by simp), plain (by decide) (by decide) (by simp)⟩

theorem columnsJson_numbersOk (text : DuckText) (columns : Columns) :
    NumbersOk (columnsJson text columns) := by
  simp only [columnsJson, numbersOk_arr, List.mem_map]
  rintro _ ⟨column, -, rfl⟩
  exact schemaJson_numbersOk text column.2 column.1

variable {text : DuckText}

/-- The one-shot response says `ok: true`. -/
theorem saysOk_oneShot (hformat : ∀ d, IsNumber (text.formatDouble d)) {columns : Columns}
    {sessionId : Bytes} {chunks : List DataChunk} {rowCount : Nat} {timeMs : Int} {out : JsonWriter}
    (h : emitOneShot text columns sessionId (lit "select") chunks rowCount timeMs .new = .ok out) :
    SaysOk (OneShot.respondJson out) := by
  rw [emitOneShot_eq] at h
  cases htree : oneShotJson text columns sessionId (lit "select") chunks rowCount timeMs with
  | error e =>
      rw [htree] at h
      cases h
  | ok j =>
      rw [htree] at h
      cases h
      obtain ⟨rows, hrows, rfl⟩ := bind_ok_eq.mp htree
      refine (saysOk_iff (b := true) (write_new _) (List.forall_mem_append.mpr ⟨?_, ?_⟩)).mpr rfl
      · refine List.forall_mem_append.mpr ⟨?_, plain_sessionIdJson (by decide) sessionId⟩
        simp only [List.mem_singleton, forall_eq]
        exact plain (by decide) (by decide) (by simp)
      · have harr := mapM_numbersOk (fun _ _ => valuesJson_numbersOk hformat) hrows
        simp only [List.mem_cons, List.not_mem_nil, or_false, forall_eq_or_imp, forall_eq]
        exact ⟨plain (by decide) (by decide) (columnsJson_numbersOk text columns),
          plain (by decide) (by decide) (numbersOk_arr.mpr harr),
          plain (by decide) (by decide) (by simp), plain (by decide) (by decide) (by simp)⟩

/-! ## The one-shot loop -/

/-- The cap is reached. -/
def capReached (maxRows : Nat) (got : List DataChunk) : Bool :=
  decide (0 < maxRows ∧ maxRows ≤ got.flatten.length)

/-- The local variables of the loop when it has gathered these chunks. -/
def gathered (got : List DataChunk) : OneShot.Gathered := ⟨got, got.flatten.length, false⟩

theorem addChunk_gathered {maxRows : Nat} {got : List DataChunk} {rows : DataChunk}
    (h : capReached maxRows (got ++ [rows]) = false) :
    OneShot.addChunk maxRows (gathered got) rows = gathered (got ++ [rows]) := by
  simp only [capReached, decide_eq_false_iff_not, List.flatten_append, List.flatten_singleton,
    List.length_append] at h
  rw [OneShot.addChunk, gathered, if_neg h]
  simp [gathered]

theorem addChunk_truncated {maxRows : Nat} {got : List DataChunk} {rows : DataChunk}
    (h : capReached maxRows (got ++ [rows]) = true) :
    (OneShot.addChunk maxRows (gathered got) rows).truncated = true := by
  simp only [capReached, decide_eq_true_iff, List.flatten_append, List.flatten_singleton,
    List.length_append] at h
  rw [OneShot.addChunk, gathered, if_pos h]
  split_ifs <;> rfl

/-- The loop does what the end of the fetching says, by induction over the calls. -/
theorem gather_fetching {maxRows : Nat} (fetches : List Fetched) {got : List DataChunk}
    (hroom : capReached maxRows got = false) :
    match fetching (capReached maxRows) true got fetches with
    | (_, .full) => ∃ g, OneShot.gather maxRows (gathered got) fetches = .ok g
    | (chunks, .exhausted _) =>
        OneShot.gather maxRows (gathered got) fetches = .ok (gathered (got ++ chunks))
    | (_, .threw what) => OneShot.gather maxRows (gathered got) fetches = .error what := by
  induction fetches generalizing got with
  | nil => simp [fetching, hroom, OneShot.gather]
  | cons fetched fetches ih =>
      cases fetched with
      | throws what => simp [fetching, hroom, OneShot.gather]
      | null error => simp [fetching, hroom, OneShot.gather]
      | chunk rows =>
          cases rows with
          | nil => simp [fetching, hroom, OneShot.gather]
          | cons row rows =>
              simp only [fetching, hroom, Bool.false_eq_true, if_false, List.isEmpty_cons,
                Bool.and_false, OneShot.gather]
              cases hfull : capReached maxRows (got ++ [row :: rows]) with
              | true =>
                  rw [fetching_of_enough hfull, if_pos (addChunk_truncated hfull)]
                  exact ⟨_, rfl⟩
              | false =>
                  have hih := ih hfull
                  rw [addChunk_gathered hfull, if_neg (by simp [gathered])]
                  revert hih
                  generalize fetching (capReached maxRows) true (got ++ [row :: rows]) fetches = r
                  obtain ⟨chunks, ending⟩ := r
                  cases ending <;> simp

/-- The one-shot result has JSON exactly if its rows have. -/
theorem emitOneShot_isOk (text : DuckText) (columns : Columns) (sessionId kind : Bytes) (chunks : List DataChunk)
    (rowCount : Nat) (timeMs : Int) :
    (∃ out, emitOneShot text columns sessionId kind chunks rowCount timeMs .new = .ok out) ↔
      ∃ rows, chunks.flatten.mapM (valuesJson text columns) = .ok rows := by
  rw [emitOneShot_eq, oneShotJson]
  cases chunks.flatten.mapM (valuesJson text columns) with
  | error e => exact iff_of_false (by rintro ⟨_, h⟩; cases h) (by rintro ⟨_, h⟩; cases h)
  | ok rows => exact ⟨fun _ => ⟨rows, rfl⟩, fun _ => ⟨_, rfl⟩⟩

/-- What the one-shot response makes of a failed request: it says `ok: true` if the result was
exhausted and every row of it has JSON. -/
theorem oneShot_failure (hformat : ∀ d, IsNumber (text.formatDouble d)) (columns : Columns)
    (sessionId : Bytes) (maxRows : Nat) (fetches : List Fetched) (report : GuardReport)
    (elapsedMs : Int) :
    (Failed (fetching (capReached maxRows) true [] fetches).2 report →
      ∀ r, OneShot.oneShotResponse text columns sessionId maxRows fetches report elapsedMs = .ok r →
        ¬ SaysOk r) ↔
    ¬ ((∃ error, (fetching (capReached maxRows) true [] fetches).2 = .exhausted error) ∧
      report.cause ≠ .none ∧ ∃ rows, (fetching (capReached maxRows) true [] fetches).1.flatten.mapM
        (valuesJson text columns) = .ok rows) := by
  have hroom : capReached maxRows [] = false := decide_eq_false fun h => by simp at h; omega
  have hspec := gather_fetching fetches hroom
  rw [OneShot.oneShotResponse, show ({} : OneShot.Gathered) = gathered [] from rfl]
  revert hspec
  generalize fetching (capReached maxRows) true [] fetches = r
  obtain ⟨chunks, ending⟩ := r
  cases ending with
  | full => simp [Failed]
  | threw what =>
      intro hspec
      rw [hspec]
      simp only [Failed, true_implies, reduceCtorEq, exists_false, false_and, not_false_iff, iff_true]
      intro r hr
      split_ifs at hr
      · cases hr
        exact not_saysOk_respondError _ _ _ _
      · cases hr
        exact not_saysOk_respondError _ _ _ _
  | exhausted error =>
      intro hspec
      have hgather : OneShot.gather maxRows (gathered []) fetches = .ok (gathered chunks) := hspec
      have hencodes := emitOneShot_isOk text columns sessionId (lit "select") chunks
        chunks.flatten.length elapsedMs
      rw [hgather]
      simp only [Failed, Ending.exhausted.injEq, exists_eq', true_and, ← hencodes]
      constructor
      · rintro h ⟨hcause, out, hout⟩
        exact h hcause _ (bind_ok_eq.mpr ⟨out, hout, rfl⟩) (saysOk_oneShot hformat hout)
      · intro h hcause r hr
        obtain ⟨out, hout, -⟩ := bind_ok_eq.mp hr
        exact absurd ⟨hcause, out, hout⟩ h

/-! ## The write response -/

/-- Every failed statement is answered with `ok: true`. -/
theorem write_failure (getInt64 : Value → Except Bytes Int) (sessionId : Bytes) (fetched : Fetched)
    (report : GuardReport) (elapsedMs : Int) :
    (Failed (fetching (fun got => decide (1 ≤ got.length)) true [] [fetched]).2 report →
      ¬ SaysOk (OneShot.writeResponse getInt64 sessionId fetched elapsedMs)) ↔
    ¬ Failed (fetching (fun got => decide (1 ≤ got.length)) true [] [fetched]).2 report := by
  have hok := saysOk_writeResponse getInt64 sessionId fetched elapsedMs
  exact ⟨fun h hfailed => h hfailed hok, fun h hfailed => absurd hfailed h⟩

/-! ## Batches -/

/-- The batch is full. -/
def batchFull (maxChunks : Nat) (got : List DataChunk) : Bool := decide (maxChunks ≤ got.length)

/-- The answer tells the client that there is no more to fetch: at once, or because the session has no
result any more and answers the next `FETCH_REQUEST` with an empty batch. -/
def TellsComplete : Quack.Reply × Option (List Fetched) → Prop
  | (.errorResponse _, _) => False
  | (.prepareResponse _ needsMoreFetch, _) => needsMoreFetch = false
  | (.fetchResponse results, queryResult) => results = [] ∨ queryResult = none

/-- `CreateBatch` does what the end of the fetching says, by induction over the calls. -/
theorem createBatch_fetching (maxChunks : Nat) (fetches : List Fetched) (got : List DataChunk) :
    match fetching (batchFull maxChunks) true got fetches with
    | (_, .full) => ∃ batch, Quack.createBatch maxChunks got fetches = .ok batch
    | (chunks, .exhausted none) => (got ++ chunks).length < maxChunks ∧
        Quack.createBatch maxChunks got fetches = .ok ⟨got ++ chunks, none, none⟩
    | (_, .exhausted (some error)) =>
        ∃ rest, Quack.createBatch maxChunks got fetches = .ok ⟨[], some rest, some error⟩
    | (_, .threw what) => Quack.createBatch maxChunks got fetches = .error what := by
  induction fetches generalizing got with
  | nil =>
      cases hfull : batchFull maxChunks got with
      | true =>
          have hlt : ¬ got.length < maxChunks := Nat.not_lt.mpr (of_decide_eq_true hfull)
          simp [fetching, hfull, Quack.createBatch, hlt]
      | false =>
          have hlt : got.length < maxChunks := Nat.not_le.mp (of_decide_eq_false hfull)
          simp [fetching, hfull, Quack.createBatch, hlt]
  | cons fetched fetches ih =>
      cases hfull : batchFull maxChunks got with
      | true =>
          have hlt : ¬ got.length < maxChunks := Nat.not_lt.mpr (of_decide_eq_true hfull)
          simp [fetching_of_enough hfull, Quack.createBatch, hlt]
      | false =>
          have hlt : got.length < maxChunks := Nat.not_le.mp (of_decide_eq_false hfull)
          cases fetched with
          | throws what => simp [fetching, hfull, Quack.createBatch, hlt]
          | null error => cases error <;> simp [fetching, hfull, Quack.createBatch, hlt]
          | chunk rows =>
              cases rows with
              | nil => simp [fetching, hfull, Quack.createBatch, hlt]
              | cons row rows =>
                  have hih := ih (got ++ [row :: rows])
                  simp only [fetching, hfull, Bool.false_eq_true, if_false, List.isEmpty_cons,
                    Bool.and_false, Quack.createBatch, hlt, if_true]
                  revert hih
                  generalize fetching (batchFull maxChunks) true (got ++ [row :: rows]) fetches = r
                  obtain ⟨chunks, ending⟩ := r
                  cases ending with
                  | full => simp
                  | threw what => simp
                  | exhausted error => cases error <;> simp

/-- What `PREPARE_REQUEST` and `FETCH_REQUEST` make of a failed request: they tell the client that the
result is complete if it was exhausted without an error of its own. -/
theorem batch_failure (maxChunks : Nat) (fetches : List Fetched) (report : GuardReport) :
    ((Failed (fetching (batchFull maxChunks) true [] fetches).2 report →
      (∀ answer, Quack.prepareReply maxChunks fetches = .ok answer → ¬ TellsComplete answer) ∧
      ∀ answer, Quack.fetchReply maxChunks (some fetches) = .ok answer → ¬ TellsComplete answer) ↔
    ¬ ((fetching (batchFull maxChunks) true [] fetches).2 = .exhausted none ∧
      report.cause ≠ .none)) := by
  have hspec := createBatch_fetching maxChunks fetches []
  simp only [Quack.prepareReply, Quack.fetchReply]
  revert hspec
  generalize fetching (batchFull maxChunks) true [] fetches = r
  obtain ⟨chunks, ending⟩ := r
  cases ending with
  | full => simp [Failed]
  | threw what =>
      intro hspec
      have hbatch : Quack.createBatch maxChunks [] fetches = .error what := hspec
      rw [hbatch]
      simp [Failed, bind, Except.bind]
  | exhausted error =>
      cases error with
      | some error =>
          rintro ⟨rest, hbatch⟩
          rw [hbatch]
          simp [Failed, ok_bind, TellsComplete]
      | none =>
          rintro ⟨hlt, hbatch⟩
          rw [List.nil_append] at hlt hbatch
          rw [hbatch]
          simp [Failed, ok_bind, TellsComplete, Nat.ne_of_lt hlt]

/-! ## The result of /ddb/run -/

/-- `rows_fetched` when these chunks are fetched. -/
def rowsFetched (got : List DataChunk) : Int := got.foldl (fun n rows => Ui.wrap32 (n + rows.length)) 0

/-- The row limit is reached. -/
def limitReached (limits : Ui.RunLimits) (got : List DataChunk) : Bool :=
  decide (limits.rowLimit ≤ rowsFetched got)

/-- What is appended of the chunks when `n` rows are appended already. -/
def slices (limit : Int) : Int → List DataChunk → List DataChunk
  | _, [] => []
  | n, chunk :: chunks =>
      match Ui.chunkPrefix limit n chunk with
      | some rows => rows :: slices limit (Ui.wrap32 (n + rows.length)) chunks
      | none => slices limit n chunks

/-- The appender, if there is one, takes what is appended of the chunks. -/
def Takes (limits : Ui.RunLimits) (n : Int) (chunks : List DataChunk) : Prop :=
  ∀ appender, limits.appender = some appender →
    ∀ rows ∈ slices limits.resultTableRowLimit n chunks, appender.append rows = none

/-- The appender, if there is one, can be closed. -/
def CanClose (limits : Ui.RunLimits) : Prop := limits.appender.bind Ui.Appender.close = none

theorem addChunk_counters (limits : Ui.RunLimits) (s : Ui.RunState) (rows : DataChunk) :
    (Ui.addChunk limits s rows).rowsFetched = s.rowsFetched ∧
      (Ui.addChunk limits s rows).rowsAppended = s.rowsAppended := by
  rw [Ui.addChunk]
  split <;> exact ⟨rfl, rfl⟩

/-- One append: it throws, or leaves the rest of what is to be appended. -/
theorem appendChunk_cases (limits : Ui.RunLimits) (s : Ui.RunState) (rows : DataChunk) :
    (∃ s', Ui.appendChunk limits s rows = .ok s' ∧ s'.rowsFetched = s.rowsFetched ∧
      ∀ chunks, Takes limits s.rowsAppended (rows :: chunks) ↔ Takes limits s'.rowsAppended chunks) ∨
    ∃ what, Ui.appendChunk limits s rows = .error what ∧
      ∀ chunks, ¬ Takes limits s.rowsAppended (rows :: chunks) := by
  simp only [Ui.appendChunk, Takes, slices]
  cases happender : limits.appender with
  | none => exact Or.inl ⟨s, rfl, rfl, fun chunks => by simp⟩
  | some appender =>
      cases hprefix : Ui.chunkPrefix limits.resultTableRowLimit s.rowsAppended rows with
      | none => exact Or.inl ⟨s, rfl, rfl, fun chunks => by simp⟩
      | some slice =>
          cases happend : appender.append slice with
          | some what => exact Or.inr ⟨what, by simp [happend], fun chunks => by simp [happend]⟩
          | none =>
              exact Or.inl ⟨{ s with
                rowsAppended := Ui.wrap32 (s.rowsAppended + slice.length)
                appended := s.appended ++ [slice] }, by simp only [happend], rfl,
                fun chunks => by simp [happend]⟩

/-- The loop does what the end of the fetching says, unless the appender throws. -/
theorem fetchLoop_fetching (limits : Ui.RunLimits) (fetches : List Fetched) (got : List DataChunk)
    (s : Ui.RunState) (hs : s.rowsFetched = rowsFetched got) :
    match fetching (limitReached limits) false got fetches with
    | (_, .full) => True
    | (chunks, .exhausted _) =>
        (∃ s', Ui.fetchLoop limits s fetches = .ok s') ↔ Takes limits s.rowsAppended chunks
    | (_, .threw _) => ∃ what, Ui.fetchLoop limits s fetches = .error what := by
  induction fetches generalizing got s with
  | nil =>
      cases hfull : limitReached limits got <;>
        simp [fetching, hfull, Ui.fetchLoop, Takes, slices]
  | cons fetched fetches ih =>
      -- both loops stop at the row limit, before they fetch again
      cases hfull : limitReached limits got with
      | true => simp [fetching_of_enough hfull]
      | false =>
          have hlt : s.rowsFetched < limits.rowLimit := by
            rw [hs]
            exact Int.not_le.mp (of_decide_eq_false hfull)
          cases fetched with
          | throws what => simp [fetching, hfull, Ui.fetchLoop, hlt]
          | null error => simp [fetching, hfull, Ui.fetchLoop, hlt, Takes, slices]
          | chunk rows =>
              simp only [fetching, hfull, Bool.false_eq_true, if_false, Bool.false_and, Ui.fetchLoop,
                hlt, if_true]
              -- the chunk is appended, or it is too large and the run fails at once
              rcases appendChunk_cases limits
                { s with rowsFetched := Ui.wrap32 (s.rowsFetched + rows.length) } rows with
                ⟨s₁, happend, hfetched, htakes⟩ | ⟨what, happend, htakes⟩
              · have hcounters := addChunk_counters limits s₁ rows
                have hih := ih (got ++ [rows]) (Ui.addChunk limits s₁ rows) (by
                  rw [hcounters.1, hfetched, hs]
                  simp [rowsFetched])
                rw [hcounters.2] at hih
                rw [happend, ok_bind]
                revert hih
                generalize fetching (limitReached limits) false (got ++ [rows]) fetches = r
                obtain ⟨chunks, ending⟩ := r
                cases ending with
                | full => exact id
                | threw what => exact id
                | exhausted error => exact fun hih => hih.trans (htakes chunks).symm
              · rw [happend]
                generalize fetching (limitReached limits) false (got ++ [rows]) fetches = r
                obtain ⟨chunks, ending⟩ := r
                cases ending with
                | full => trivial
                | threw _ => exact ⟨what, rfl⟩
                | exhausted error =>
                    exact ⟨fun ⟨_, h⟩ => (by cases h), fun h => absurd h (htakes chunks)⟩

/-- What `/ddb/run` makes of a failed request: a success if the result was exhausted and the appender
had nothing against it. -/
theorem run_failure (columns : Columns) (limits : Ui.RunLimits) (fetches : List Fetched)
    (report : GuardReport) :
    (Failed (fetching (limitReached limits) false [] fetches).2 report →
      ∀ columns' chunks, Ui.runResult columns limits fetches ≠ .success columns' chunks) ↔
    ¬ ((∃ error, (fetching (limitReached limits) false [] fetches).2 = .exhausted error) ∧
      report.cause ≠ .none ∧
      Takes limits 0 (fetching (limitReached limits) false [] fetches).1 ∧ CanClose limits) := by
  have hspec := fetchLoop_fetching limits fetches [] {} rfl
  simp only [Ui.runResult, CanClose]
  revert hspec
  generalize fetching (limitReached limits) false [] fetches = r
  obtain ⟨chunks, ending⟩ := r
  cases ending with
  | full => simp [Failed]
  | threw what =>
      rintro ⟨what, hloop⟩
      simp [Failed, hloop]
  | exhausted error =>
      intro hspec
      have hspec : (∃ s', Ui.fetchLoop limits {} fetches = .ok s') ↔ Takes limits 0 chunks := hspec
      simp only [Failed, Ending.exhausted.injEq, exists_eq', true_and, ← hspec]
      cases hloop : Ui.fetchLoop limits {} fetches with
      | error what => simp
      | ok s => cases hclose : limits.appender.bind Ui.Appender.close <;> simp

/-! ## The stream -/

open Ndjson

/-- A line of the stream is a record whose `type` is `end`. -/
def HasEndRecord (wire : Bytes) : Prop :=
  ∃ l ∈ Bytes.lines wire, ∃ ms, parse l = some (obj ms) ∧
    readMap ms (lit "type") = some (.str (lit "end"))

/-- The `type` of a record. -/
def recordType : Record → Bytes
  | .schema => lit "schema"
  | .row _ => lit "row"
  | .chunk _ => lit "chunk"
  | .ended _ _ _ => lit "end"
  | .error _ _ => lit "error"

variable {columns : Columns} {sessionId : Bytes}

theorem parse_record (hformat : ∀ d, IsNumber (text.formatDouble d)) {r : Record}
    (hr : ∀ v ∈ r.rows, IsRow text columns v) :
    ∃ ms, parse (r.json text columns sessionId).text = some (obj ms) ∧
      readMap ms (lit "type") = some (.str (recordType r)) := by
  have hnumbers : NumbersOk (r.json text columns sessionId) := Record.numbersOk hformat hr
  have htype : ∀ {k : Bytes} {ms : List (Bytes × Json)}, (∀ b ∈ k, b < 0x80) →
      (∀ m ∈ ms, Plain (lit "type") m) →
      readMap (sanitizedMembers ((lit "type", str k) :: ms)) (lit "type") = some (.str k) := by
    intro k ms hk hms
    rw [readMap_first (by decide) hms, sanitized, sanitize_ascii hk]
    rfl
  rw [parse_text hnumbers]
  cases r with
  | schema =>
      refine ⟨_, rfl, htype (by decide) (List.forall_mem_append.mpr
        ⟨plain_sessionIdJson (by decide) sessionId, ?_⟩)⟩
      simp only [List.mem_singleton, forall_eq]
      exact plain (by decide) (by decide) (columnsJson_numbersOk text columns)
  | row values =>
      refine ⟨_, rfl, htype (by decide) ?_⟩
      simp only [List.mem_singleton, forall_eq]
      exact plain (by decide) (by decide) (by simpa [Record.json] using hnumbers)
  | chunk rows =>
      refine ⟨_, rfl, htype (by decide) ?_⟩
      simp only [List.mem_singleton, forall_eq]
      exact plain (by decide) (by decide) (by simpa [Record.json] using hnumbers)
  | ended rowCount timeMs truncated =>
      refine ⟨_, rfl, htype (by decide) (List.forall_mem_append.mpr ⟨?_, ?_⟩)⟩
      · simp only [List.mem_cons, List.not_mem_nil, or_false, forall_eq_or_imp, forall_eq]
        exact ⟨plain (by decide) (by decide) (by simp), plain (by decide) (by decide) (by simp)⟩
      · cases truncated with
        | true =>
            simp only [if_true, List.mem_singleton, forall_eq]
            exact plain (by decide) (by decide) (by simp)
        | false => simp
  | error code message =>
      refine ⟨_, rfl, htype (by decide) ?_⟩
      simp only [List.mem_cons, List.not_mem_nil, or_false, forall_eq_or_imp, forall_eq]
      exact ⟨plain (by decide) (by decide) (by simp), plain (by decide) (by decide) (by simp)⟩

theorem lines_wireOf {rs : List Record}
    (h : ∀ r ∈ rs, 0x0A ∉ (r.json text columns sessionId).text) :
    Bytes.lines (wireOf text columns sessionId rs) =
      rs.map fun r => (r.json text columns sessionId).text := by
  induction rs with
  | nil => rfl
  | cons r rs ih =>
      obtain ⟨hr, hrs⟩ := List.forall_mem_cons.mp h
      have hcons : wireOf text columns sessionId (r :: rs) =
          (r.json text columns sessionId).text ++ 0x0A :: wireOf text columns sessionId rs :=
        List.append_assoc _ [0x0A] _
      rw [hcons, Bytes.lines_append hr, ih hrs, List.map_cons]

/-- A stream that is open between two calls, after any number of calls. -/
theorem run_open {chunkMode : Bool} {envs : List CallEnv} {s : State} {body : List Record}
    (h : OpenAt text columns sessionId chunkMode s body) (hs : s.more = true)
    (hmore : (run text s envs).more = true) :
    ∃ body', OpenAt text columns sessionId chunkMode (run text s envs) body' := by
  induction envs generalizing s body with
  | nil => exact ⟨body, h⟩
  | cons env envs ih =>
      rw [run, hs, if_pos rfl] at hmore ⊢
      obtain ⟨s₁, body', hopen, ⟨heq, hmore₁, -⟩ | hcloses⟩ := provide_open h env
      · rw [heq] at hmore ⊢
        exact ih hopen hmore₁ hmore
      · rw [run_of_stopped hcloses.1, hcloses.1] at hmore
        exact absurd hmore (by decide)

theorem run_append (s : State) (pre envs : List CallEnv) :
    run text s (pre ++ envs) = run text (run text s pre) envs := by
  induction pre generalizing s with
  | nil => rfl
  | cons env pre ih =>
      rw [List.cons_append, run, run]
      split_ifs with hmore
      · exact ih _
      · rw [run_of_stopped (Bool.eq_false_iff.mpr hmore)]

/-- The `Fetch` of the call threw, or found nothing while the guard reports a cause. -/
def Ndjson.CallEnv.Fails (env : CallEnv) : Prop :=
  (∃ what, env.fetched = .throws what) ∨ (env.fetched.isEmpty = true ∧ env.report.cause ≠ .none)

/-- **A failed call ends the stream with an error, or with nothing.** -/
theorem provide_fails {chunkMode : Bool} {s : State} {body : List Record}
    (h : OpenAt text columns sessionId chunkMode s body) {env : CallEnv} (hfails : env.Fails) :
    (provide text s env).more = false ∧ ∃ tail, (provide text s env).sink.wire =
        s.sink.wire ++ wireOf text columns sessionId tail ∧
      ∀ r ∈ tail, ∃ code message, r = .error code message := by
  have herror : ∀ error, ∃ tail,
      (emitStreamingErrorSafe s error env.errorFault env.firstWrite).sink.wire =
        s.sink.wire ++ wireOf text columns sessionId tail ∧
      ∀ r ∈ tail, ∃ code message, r = .error code message := by
    intro error
    rw [emitStreamingErrorSafe_wire text columns sessionId]
    split
    · exact ⟨[.error error.1 error.2], by rw [wireOf_singleton], by simp⟩
    · exact ⟨[], (List.append_nil _).symm, by simp⟩
  have hexception : ∀ what,
      (handleException s env.report what env.errorFault env.firstWrite).more = false ∧
      ∃ tail, (handleException s env.report what env.errorFault env.firstWrite).sink.wire =
        s.sink.wire ++ wireOf text columns sessionId tail ∧
      ∀ r ∈ tail, ∃ code message, r = .error code message := by
    intro what
    rw [handleException]
    split <;> exact ⟨rfl, herror _⟩
  have hempty : env.report.cause ≠ .none → (provideEmpty s env).more = false ∧
      ∃ tail, (provideEmpty s env).sink.wire = s.sink.wire ++ wireOf text columns sessionId tail ∧
      ∀ r ∈ tail, ∃ code message, r = .error code message := by
    intro hcause
    rw [provideEmpty]
    split
    · exact ⟨rfl, herror _⟩
    · exact ⟨rfl, herror _⟩
    · exact ⟨rfl, [], (List.append_nil _).symm, by simp⟩
    · rename_i hnone
      exact absurd hnone hcause
  simp only [provide, h.schemaEmitted, h.notEnded, h.noError, Bool.not_true, Bool.false_eq_true,
    if_false, Bool.not_false, Bool.and_self, if_true]
  cases hfetched : env.fetched with
  | throws what => exact hexception what
  | null error => exact hempty (by simpa [CallEnv.Fails, hfetched, Fetched.isEmpty] using hfails)
  | chunk rows =>
      cases rows with
      | nil => exact hempty (by simpa [CallEnv.Fails, hfetched, Fetched.isEmpty] using hfails)
      | cons row rows => simp [CallEnv.Fails, hfetched, Fetched.isEmpty] at hfails

/-- A stream with a failed call has no end record, whatever came before and comes after. -/
theorem ndjson_failure (hformat : ∀ d, IsNumber (text.formatDouble d)) (columns : Columns)
    (sessionId : Bytes) (maxRows : Nat) (chunkMode : Bool) (pre post : List CallEnv) {env : CallEnv}
    (hpre : pre ≠ []) (hmore : (run text (start columns sessionId maxRows chunkMode) pre).more = true)
    (hfails : env.Fails) : ¬ HasEndRecord
      (run text (start columns sessionId maxRows chunkMode) (pre ++ env :: post)).sink.wire := by
  obtain ⟨first, pre, rfl⟩ := List.exists_cons_of_ne_nil hpre
  -- the schema was built and written, as the run went on
  have hbuilt : first.schemaFault = none := by
    cases hfault : first.schemaFault with
    | none => rfl
    | some what =>
        have hstopped := handleException_more (start columns sessionId maxRows chunkMode) first.report
          what first.errorFault first.firstWrite
        rw [run, if_pos (by rfl), provide_start_of_fault maxRows chunkMode hfault,
          run_of_stopped hstopped, hstopped] at hmore
        cases hmore
  have hwrite : first.firstWrite = true := by
    by_contra hfailed
    rw [run, if_pos (by rfl), provide_start_of_write_failed maxRows chunkMode hbuilt
      (Bool.eq_false_iff.mpr hfailed), run_of_stopped rfl] at hmore
    cases hmore
  obtain ⟨hopen, hmore₁⟩ := provide_start text columns sessionId maxRows chunkMode hbuilt hwrite
  rw [run_append]
  have hfirst : run text (start columns sessionId maxRows chunkMode) (first :: pre) =
      run text (provide text (start columns sessionId maxRows chunkMode) first) pre := rfl
  rw [hfirst] at hmore ⊢
  obtain ⟨body, hbody⟩ := run_open hopen hmore₁ hmore
  obtain ⟨hstop, tail, hwire, htail⟩ := provide_fails hbody hfails
  rw [run, hmore, if_pos rfl, run_of_stopped hstop, hwire, hbody.hwire, ← wireOf_append]
  have hrows : ∀ r ∈ .schema :: body ++ tail, ∀ v ∈ r.rows, IsRow text columns v := by
    intro r hr v hv
    simp only [List.cons_append, List.mem_cons, List.mem_append] at hr
    rcases hr with rfl | hr | hr
    · simp [Record.rows] at hv
    · exact hbody.isRow v (List.mem_flatMap.mpr ⟨r, hr, hv⟩)
    · obtain ⟨code, message, rfl⟩ := htail r hr
      simp [Record.rows] at hv
  -- a line of the wire is one record, and the failed call adds none that ends the run
  rintro ⟨l, hl, ms, hparse, htype⟩
  rw [lines_wireOf fun r hr => newline_notMem_text (Record.numbersOk hformat (hrows r hr))] at hl
  obtain ⟨r, hr, rfl⟩ := List.mem_map.mp hl
  obtain ⟨ms', hparse', htype'⟩ := parse_record hformat (hrows r hr)
  obtain rfl : ms' = ms := by
    rw [hparse'] at hparse
    cases hparse
    rfl
  rw [htype'] at htype
  have hend : recordType r = lit "end" := JVal.str.inj (Option.some.inj htype)
  simp only [List.cons_append, List.mem_cons, List.mem_append] at hr
  rcases hr with rfl | hr | hr
  · exact absurd hend (by decide)
  · have hkind := hbody.isBody r hr
    cases r with
    | row values => exact absurd hend (show lit "row" ≠ lit "end" by decide)
    | chunk rows => exact absurd hend (show lit "chunk" ≠ lit "end" by decide)
    | _ => exact hkind.elim
  · obtain ⟨code, message, rfl⟩ := htail r hr
    exact absurd hend (show lit "error" ≠ lit "end" by decide)

/-! ## All shapes -/

/-- **When a failed request is not reported as a success.** In a stream, in either mode: always. In the
one-shot response: unless the result is exhausted with a cause and every row has JSON. In the write
response: only when nothing has failed. In the batches of the Quack protocol: unless the result is
exhausted, without an error of its own, with a cause. In the result of `/ddb/run`: unless a null pointer
ends it with a cause and the appender does not throw. -/
theorem failure_reported_iff (hformat : ∀ d, IsNumber (text.formatDouble d)) :
    (∀ (columns : Columns) (sessionId : Bytes) (maxRows : Nat) (chunkMode : Bool)
      (pre post : List CallEnv) (env : CallEnv), pre ≠ [] →
      (run text (start columns sessionId maxRows chunkMode) pre).more = true → env.Fails →
      ¬ HasEndRecord
        (run text (start columns sessionId maxRows chunkMode) (pre ++ env :: post)).sink.wire) ∧
    (∀ (columns : Columns) (sessionId : Bytes) (maxRows : Nat) (fetches : List Fetched)
      (report : GuardReport) (elapsedMs : Int),
      (Failed (fetching (capReached maxRows) true [] fetches).2 report →
        ∀ r, OneShot.oneShotResponse text columns sessionId maxRows fetches report elapsedMs = .ok r →
          ¬ SaysOk r) ↔
      ¬ ((∃ error, (fetching (capReached maxRows) true [] fetches).2 = .exhausted error) ∧
        report.cause ≠ .none ∧ ∃ rows, (fetching (capReached maxRows) true [] fetches).1.flatten.mapM
          (valuesJson text columns) = .ok rows)) ∧
    (∀ (getInt64 : Value → Except Bytes Int) (sessionId : Bytes) (fetched : Fetched)
      (report : GuardReport) (elapsedMs : Int),
      (Failed (fetching (fun got => decide (1 ≤ got.length)) true [] [fetched]).2 report →
        ¬ SaysOk (OneShot.writeResponse getInt64 sessionId fetched elapsedMs)) ↔
      ¬ Failed (fetching (fun got => decide (1 ≤ got.length)) true [] [fetched]).2 report) ∧
    (∀ (maxChunks : Nat) (fetches : List Fetched) (report : GuardReport),
      (Failed (fetching (batchFull maxChunks) true [] fetches).2 report →
        (∀ answer, Quack.prepareReply maxChunks fetches = .ok answer → ¬ TellsComplete answer) ∧
        ∀ answer, Quack.fetchReply maxChunks (some fetches) = .ok answer → ¬ TellsComplete answer) ↔
      ¬ ((fetching (batchFull maxChunks) true [] fetches).2 = .exhausted none ∧
        report.cause ≠ .none)) ∧
    ∀ (columns : Columns) (limits : Ui.RunLimits) (fetches : List Fetched) (report : GuardReport),
      (Failed (fetching (limitReached limits) false [] fetches).2 report →
        ∀ columns' chunks, Ui.runResult columns limits fetches ≠ .success columns' chunks) ↔
      ¬ ((∃ error, (fetching (limitReached limits) false [] fetches).2 = .exhausted error) ∧
        report.cause ≠ .none ∧
        Takes limits 0 (fetching (limitReached limits) false [] fetches).1 ∧ CanClose limits) :=
  ⟨fun columns sessionId maxRows chunkMode pre post _ hpre hmore hfails =>
      ndjson_failure hformat columns sessionId maxRows chunkMode pre post hpre hmore hfails,
    oneShot_failure hformat, write_failure, batch_failure, run_failure⟩

/-- One row, then nothing more, with a timeout: the one-shot response is not `ok: true` exactly if that
result were not a failed one. -/
theorem failure_reported_iff_oneRow :
    let integer : LogicalType := .scalar .integer
    let fetches : List Fetched := [.chunk [[.leaf integer (.int 1)]], .null none]
    ¬ (Failed (fetching (capReached 0) true [] fetches).2 { timedOut := true } →
      ∀ r, OneShot.oneShotResponse .numerals [(lit "n", integer)] [] 0 fetches { timedOut := true } 0 =
        .ok r → ¬ SaysOk r) := by
  intro integer fetches
  rw [(failure_reported_iff isNumber_numerals).2.1, not_not]
  exact ⟨⟨none, rfl⟩, by decide, [arr [num (lit "1")]], rfl⟩

/-- A timeout behind the first row is reported as a success by every shape that is no stream, and so is
an exception of the only `Fetch` of a write. -/
theorem failure_reported_as_success :
    let integer : LogicalType := .scalar .integer
    let fetches : List Fetched := [.chunk [[.leaf integer (.int 1)]], .null none]
    let report : GuardReport := { timedOut := true }
    (Failed (fetching (capReached 0) true [] fetches).2 report ∧
      ∃ r, OneShot.oneShotResponse .numerals [(lit "n", integer)] [] 0 fetches report 0 = .ok r ∧
        SaysOk r) ∧
    (Failed (fetching (fun got => decide (1 ≤ got.length)) true []
        [.throws (lit "INTERRUPT Error: Interrupted!")]).2 report ∧
      SaysOk (OneShot.writeResponse getInt [] (.throws (lit "INTERRUPT Error: Interrupted!")) 0)) ∧
    (Failed (fetching (batchFull 12) true [] fetches).2 report ∧
      ∃ answer, Quack.prepareReply 12 fetches = .ok answer ∧ TellsComplete answer) ∧
    (Failed (fetching (limitReached {}) false [] fetches).2 report ∧
      ∃ columns chunks, Ui.runResult [(lit "n", integer)] {} fetches = .success columns chunks) := by
  intro integer fetches report
  have hcause : report.cause ≠ .none := by decide
  have hrun : fetching (limitReached {}) false [] fetches =
      ([[[.leaf integer (.int 1)]]], .exhausted none) := by
    simp +decide [fetches, fetching, limitReached, rowsFetched, Ui.wrap32, Ui.RunLimits.rowLimit]
  refine ⟨⟨hcause, ?_⟩, ⟨trivial, saysOk_writeResponse _ _ _ _⟩, ⟨hcause, _, rfl, rfl⟩,
    by rw [hrun]; exact hcause, ?_⟩
  rotate_left
  · by_contra hnone
    push Not at hnone
    refine (run_failure [(lit "n", integer)] {} fetches report).mp (fun _ => hnone) ?_
    rw [hrun]
    exact ⟨⟨none, rfl⟩, hcause, by simp [Takes], rfl⟩
  obtain ⟨out, hout⟩ := (emitOneShot_isOk .numerals [(lit "n", integer)] [] (lit "select")
    [[[.leaf integer (.int 1)]]] 1 0).mpr ⟨[arr [num (lit "1")]], rfl⟩
  exact ⟨_, bind_ok_eq.mpr ⟨out, hout, rfl⟩, saysOk_oneShot isNumber_numerals hout⟩

end Harbor
