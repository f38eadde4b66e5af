import Harbor.Sql.Response

set_option autoImplicit false

/-! # The fetch loop of the UI

How `UiHandlers::DoHandleRun` reads a result: up to a limit of rows it fetches chunk after chunk,
appends them to a table if the request names one, and collects them for the response. The counters
are 32-bit integers.
-/

namespace Harbor.Ui

open Encoder (DataChunk Columns)

/-- `int` arithmetic. -/
def wrap32 (i : Int) : Int := Int.bmod i (2 ^ 32)

/-- The appender of the result table: the exceptions of `AppendDataChunk` and of `Close`. -/
structure Appender where
  append : DataChunk → Option Bytes := fun _ => none
  close : Option Bytes := none

/-- The headers the loop depends on, and the appender if the request names a table. -/
structure RunLimits where
  resultRowLimit : Int := 2147483647
  resultTableRowLimit : Int := 0
  appender : Option Appender := none

def RunLimits.rowLimit (limits : RunLimits) : Int :=
  max limits.resultRowLimit limits.resultTableRowLimit

/-- The rows of a chunk that a limit still has room for, if any: `chunk_prefix` or the whole chunk. -/
def chunkPrefix (limit rows : Int) (chunk : DataChunk) : Option DataChunk :=
  if rows < limit then
    let rowsLeft := (limit - rows).toNat
    some (if chunk.length > rowsLeft then chunk.take rowsLeft else chunk)
  else none

/-- The counters and the results of the loop; a chunk of the response carries its size as
`uint16_t`. -/
structure RunState where
  rowsFetched : Int := 0
  rowsAppended : Int := 0
  rowsInResult : Int := 0
  appended : List DataChunk := []
  chunks : List (Nat × DataChunk) := []

/-- The part of the body that appends. -/
def appendChunk (limits : RunLimits) (s : RunState) (chunk : DataChunk) : Except Bytes RunState :=
  match limits.appender, chunkPrefix limits.resultTableRowLimit s.rowsAppended chunk with
  | some appender, some rows =>
      match appender.append rows with
      | some what => .error what
      | none => .ok { s with
          rowsAppended := wrap32 (s.rowsAppended + rows.length)
          appended := s.appended ++ [rows] }
  | _, _ => .ok s

/-- The part of the body that collects. -/
def addChunk (limits : RunLimits) (s : RunState) (chunk : DataChunk) : RunState :=
  match chunkPrefix limits.resultRowLimit s.rowsInResult chunk with
  | some rows => { s with
      rowsInResult := wrap32 (s.rowsInResult + rows.length)
      chunks := s.chunks ++ [(rows.length % 2 ^ 16, rows)] }
  | none => s

/-- The loop; `error` when a `Fetch` or the appender throws. -/
def fetchLoop (limits : RunLimits) : RunState → List Fetched → Except Bytes RunState
  | s, [] => .ok s
  | s, fetched :: fetches =>
      if s.rowsFetched < limits.rowLimit then
        match fetched with
        | .throws what => .error what
        | .null _ => .ok s
        | .chunk rows => do
            let s ← appendChunk limits { s with rowsFetched := wrap32 (s.rowsFetched + rows.length) } rows
            fetchLoop limits (addChunk limits s rows) fetches
      else .ok s

/-- What the response of `/ddb/run` says. -/
inductive RunResult where
  | success (columns : Columns) (chunks : List (Nat × DataChunk))
  | error (message : Bytes)

/-- `DoHandleRun` behind `pending->Execute()`, and the handler of `HandleRun` around it. -/
def runResult (columns : Columns) (limits : RunLimits) (fetches : List Fetched) : RunResult :=
  match fetchLoop limits {} fetches with
  | .error what => .error what
  | .ok s =>
      match limits.appender.bind Appender.close with
      | some what => .error what
      | none => .success columns s.chunks

end Harbor.Ui
