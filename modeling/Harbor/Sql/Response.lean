import Harbor.Sql.EncoderTree
import Harbor.Session.QueryTimeout

set_option autoImplicit false

/-! # What a query handler works with

The pieces the response shapes of `SqlHandlers::HandleSql` share: what a call of
`QueryResult::Fetch` can come back with, what the timeout guard of the request reports, the error
envelope and its codes, and the choice of the shape.
-/

namespace Harbor

open QueryTimeout (InterruptCause)
open Encoder (DataChunk)

/-- Unsigned 64-bit subtraction. -/
def sub64 (a b : Nat) : Nat := if b ≤ a then a - b else a + 2 ^ 64 - b

/-! ## Fetching -/

/-- What one call of `Fetch` comes to. -/
inductive Fetched where
  | chunk (rows : DataChunk)
  /-- A null pointer; `error` is the error the result then has, if any. -/
  | null (error : Option Bytes)
  /-- An exception. -/
  | throws (what : Bytes)
deriving Repr

/-- `!chunk || chunk->size() == 0`. -/
def Fetched.isEmpty : Fetched → Bool
  | .chunk rows => rows.isEmpty
  | .null _ => true
  | .throws _ => false

/-- What the `QueryExecutionGuard` or the `QueryTimeoutWatchdog` of the request reports. A watchdog
has no `interruptCause`: it stays at `none`. -/
structure GuardReport where
  timedOut : Bool := false
  interruptCause : InterruptCause := .none
deriving DecidableEq, Repr

/-- `Cause()`. -/
def GuardReport.cause (report : GuardReport) : InterruptCause :=
  if report.timedOut then .timeout else report.interruptCause

/-! ## Responses -/

/-- `httplib::Response`, as far as the handlers fill it. -/
structure HttpResponse where
  status : Nat
  contentType : Bytes
  body : Bytes
deriving DecidableEq, Repr

/-- `ClassifyError`. -/
def classifyError (message : Bytes) : Bytes :=
  let lower := Bytes.lower message
  if lower.contains (lit "syntax error") || lower.contains (lit "parser error") then
    lit "SQL_SYNTAX"
  else if lower.contains (lit "table") && lower.contains (lit "does not exist") then
    lit "TABLE_NOT_FOUND"
  else if lower.contains (lit "column") && lower.contains (lit "not found") then
    lit "TABLE_NOT_FOUND"
  else if lower.contains (lit "type") &&
      (lower.contains (lit "mismatch") || lower.contains (lit "conversion")) then
    lit "TYPE_ERROR"
  else if lower.contains (lit "io error") || lower.contains (lit "ioexception") then
    lit "IO_ERROR"
  else if lower.contains (lit "session limit") then
    lit "SESSION_LIMIT"
  else
    lit "SQL_ERROR"

/-- `RespondError`. -/
def respondError (status : Nat) (errorCode message sessionId : Bytes) : HttpResponse :=
  let w := JsonWriter.new.beginObject.keyBool (lit "ok") false
  let w := w.keyString (lit "error") message
  let w := w.keyString (lit "errorCode") errorCode
  let w := if sessionId = [] then w else w.keyString (lit "sessionId") sessionId
  ⟨status, lit "application/json", w.endObject.buf⟩

/-- `ResponseShape`. -/
inductive ResponseShape where
  | ndjsonRowMode
  | ndjsonChunkMode
  | oneShotJson
deriving DecidableEq, Repr

/-- `ChooseShape`. -/
def chooseShape (acceptHeader : Bytes) : ResponseShape :=
  let lower := Bytes.lower acceptHeader
  if lower.contains (lit "application/json") && !lower.contains (lit "application/x-ndjson") then
    .oneShotJson
  else if lower.contains (lit "shape=chunk") then .ndjsonChunkMode
  else .ndjsonRowMode

/-- The code and message of a query that was interrupted by the timeout. -/
def queryTimeout : Bytes × Bytes := (lit "QUERY_TIMEOUT", lit "query exceeded harbor_query_timeout_s")

/-- The code and message of a query that was cancelled. -/
def queryCancelled : Bytes × Bytes :=
  (lit "QUERY_CANCELLED", lit "query was cancelled by /sql/cancel or /interrupt")

end Harbor
