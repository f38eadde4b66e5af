import Harbor.Sql.Ndjson

set_option autoImplicit false

/-! # Responses in one piece

The two response shapes of `SqlHandlers::HandleSql` that are one JSON object: the answer to a
statement that is no query, and the one-shot result, whose fetch loop gathers every chunk before
anything is written. The lists of `Fetched` are what the calls of `Fetch` come to, one after another;
behind the last one the result is exhausted and `Fetch` returns a null pointer.
-/

namespace Harbor.OneShot

open Encoder

/-- A response with a JSON body. -/
def respondJson (w : JsonWriter) : HttpResponse := ⟨200, lit "application/json", w.buf⟩

/-! ## Statements that are no queries -/

variable (getInt64 : Value → Except Bytes Int)

/-- The first value of the first row, as a `BIGINT` cast to `idx_t`; `0` where there is none. -/
def affectedRows : Fetched → Nat
  | .chunk ((v :: _) :: _) =>
      if v.isNull then 0
      else match getInt64 v with
        | .ok n => (n % 2 ^ 64).toNat
        | .error _ => 0
  | .chunk _ => 0
  | .null _ => 0
  | .throws _ => 0

/-- The write response: one `Fetch`, whose exceptions are swallowed. `getInt64` is
`Value::GetValue<int64_t>`. -/
def writeResponse (sessionId : Bytes) (fetched : Fetched) (elapsedMs : Int) : HttpResponse :=
  respondJson (emitOneShotWrite sessionId (affectedRows getInt64 fetched) elapsedMs .new)

/-! ## The one-shot result -/

/-- The local variables of the fetch loop. -/
structure Gathered where
  allChunks : List DataChunk := []
  rowCount : Nat := 0
  truncated : Bool := false
deriving Repr

/-- The body of the loop for a chunk with rows; a chunk that reaches the cap is trimmed. -/
def addChunk (maxRows : Nat) (g : Gathered) (chunk : DataChunk) : Gathered :=
  let rowCount := g.rowCount + chunk.length
  if maxRows > 0 ∧ rowCount ≥ maxRows then
    if rowCount > maxRows then
      let excess := sub64 rowCount maxRows
      ⟨g.allChunks ++ [chunk.take (sub64 chunk.length excess)], maxRows, true⟩
    else ⟨g.allChunks ++ [chunk], rowCount, true⟩
  else ⟨g.allChunks ++ [chunk], rowCount, g.truncated⟩

/-- The fetch loop; `error` when a `Fetch` throws. -/
def gather (maxRows : Nat) : Gathered → List Fetched → Except Bytes Gathered
  | g, [] => .ok g
  | _, .throws what :: _ => .error what
  | g, .null _ :: _ => .ok g
  | g, .chunk [] :: _ => .ok g
  | g, .chunk (row :: rows) :: fetches =>
      let g := addChunk maxRows g (row :: rows)
      if g.truncated then .ok g else gather maxRows g fetches

variable (text : DuckText)

/-- The one-shot response; `error` is an exception of the encoder, which leaves the handler. -/
def oneShotResponse (columns : Columns) (sessionId : Bytes) (maxRows : Nat) (fetches : List Fetched)
    (report : GuardReport) (elapsedMs : Int) : Except Bytes HttpResponse :=
  match gather maxRows {} fetches with
  | .error what =>
      if report.timedOut then .ok (respondError 504 queryTimeout.1 queryTimeout.2 sessionId)
      else .ok (respondError 500 (classifyError what) what sessionId)
  | .ok g => do
      .ok (respondJson
        (← emitOneShot text columns sessionId (lit "select") g.allChunks g.rowCount elapsedMs .new))

end Harbor.OneShot
