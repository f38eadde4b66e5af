import Harbor.Sql.Response

set_option autoImplicit false

/-! # The streaming content provider

The chunked content provider of `SqlHandlers::HandleSql`: a callback that httplib calls until it
returns `false`. What it keeps between calls is `StreamingCtx`; what each call meets from outside
(the `Fetch`, the reports of the guard, the exceptions of the encoder, the fate of the writes, the
clock) is `CallEnv`. A write either delivers its bytes or none of them.
-/

namespace Harbor.Ndjson

open QueryTimeout (InterruptCause)
open Encoder

/-! ## The sink -/

/-- `httplib::DataSink`: the bytes that were delivered, and whether `done` was called. -/
structure Sink where
  wire : Bytes := []
  isDone : Bool := false
deriving DecidableEq, Repr

/-- `sink.write`; `ok` says whether the connection takes the bytes. -/
def Sink.write (sink : Sink) (data : Bytes) (ok : Bool) : Sink :=
  if ok then { sink with wire := sink.wire ++ data } else sink

def Sink.done (sink : Sink) : Sink := { sink with isDone := true }

/-- The bytes `WriteOneLine` writes. -/
def line (w : JsonWriter) : Bytes := w.buf ++ [0x0A]

/-! ## The provider -/

/-- `StreamingCtx`, as far as the provider uses it. -/
structure StreamingCtx where
  columns : Columns
  sessionIdForResponse : Bytes
  maxRows : Nat
  chunkMode : Bool
  rowCount : Nat := 0
  truncated : Bool := false
  schemaEmitted : Bool := false
  endEmitted : Bool := false
  errorEmitted : Bool := false
deriving DecidableEq, Repr

/-- What one call of the provider meets. A call writes at most twice, and only the payload of rows is
followed by a second write. -/
structure CallEnv where
  fetched : Fetched
  report : GuardReport := {}
  /-- An exception of `EmitSchema`. -/
  schemaFault : Option Bytes := none
  /-- An exception of `EmitRow`, `EmitChunk` or `GetValue` while the payload is built. -/
  fault : Option Bytes := none
  /-- An exception of `EmitEnd`. -/
  endFault : Option Bytes := none
  /-- What the guard reports when that exception is caught. -/
  endReport : GuardReport := {}
  /-- An exception in `EmitStreamingErrorSafe`. -/
  errorFault : Bool := false
  firstWrite : Bool := true
  secondWrite : Bool := true
  elapsedMs : Int := 0
deriving Repr

/-- The provider between two calls; `more` is what the last call returned. -/
structure State where
  ctx : StreamingCtx
  sink : Sink := {}
  more : Bool := true
deriving DecidableEq, Repr

/-- `EmitStreamingErrorSafe`, and `return false`; with a `fault`, its `catch (...)` writes nothing. -/
def emitStreamingErrorSafe (s : State) (error : Bytes × Bytes) (fault ok : Bool) : State :=
  { ctx := { s.ctx with errorEmitted := true }
    sink := (if fault then s.sink else s.sink.write (line (emitError error.1 error.2 .new)) ok).done
    more := false }

/-- Both handlers of `std::exception`: the error is classified by the cause of the interrupt. -/
def handleException (s : State) (report : GuardReport) (what : Bytes) (fault ok : Bool) : State :=
  match report.cause with
  | .timeout => emitStreamingErrorSafe s queryTimeout fault ok
  | .userCancel => emitStreamingErrorSafe s queryCancelled fault ok
  | _ => emitStreamingErrorSafe s (classifyError what, what) fault ok

/-- `EmitEnd`, `sink.done()`, and `return false`. -/
def finish (s : State) (truncated : Bool) (env : CallEnv) (ok : Bool) : State :=
  match env.endFault with
  | some what => handleException s env.endReport what env.errorFault ok
  | none =>
      { ctx := { s.ctx with endEmitted := true }
        sink := (s.sink.write (line (emitEnd s.ctx.rowCount env.elapsedMs truncated .new)) ok).done
        more := false }

/-- The branch for an empty or null chunk. -/
def provideEmpty (s : State) (env : CallEnv) : State :=
  match env.report.cause with
  | .timeout => emitStreamingErrorSafe s queryTimeout env.errorFault env.firstWrite
  | .userCancel => emitStreamingErrorSafe s queryCancelled env.errorFault env.firstWrite
  | .disconnect => { s with sink := s.sink.done, more := false }
  | .none => finish s s.ctx.truncated env env.firstWrite

variable (text : DuckText)

/-- The loop over the rows of a chunk in row mode. -/
def emitRows (columns : Columns) : DataChunk → Bytes → Except Bytes Bytes
  | [], out => .ok out
  | row :: rows, out => do
      emitRows columns rows (out ++ line (← emitRow text columns row .new))

/-- The payload of a chunk. -/
def payload (ctx : StreamingCtx) (rows : DataChunk) : Except Bytes Bytes :=
  if ctx.chunkMode then do .ok (line (← emitChunk text ctx.columns rows .new))
  else emitRows text ctx.columns rows []

/-- The row cap: how many rows of the chunk are emitted, and whether the result is cut there. -/
def applyCap (ctx : StreamingCtx) (rows : DataChunk) : Nat × Bool :=
  if ctx.maxRows > 0 ∧ ctx.rowCount + rows.length > ctx.maxRows then
    (sub64 ctx.maxRows ctx.rowCount, true)
  else (rows.length, ctx.truncated)

/-- The branch for a chunk with rows. -/
def provideRows (s : State) (env : CallEnv) (rows : DataChunk) : State :=
  let (emitSize, truncated) := applyCap s.ctx rows
  let s := { s with ctx := { s.ctx with truncated := truncated } }
  -- the payload is complete before anything of it is written
  match env.fault.elim (payload text s.ctx (rows.take emitSize)) .error with
  | .error what => handleException s env.report what env.errorFault env.firstWrite
  | .ok outBuf =>
      if env.firstWrite then
        let s := { s with
          ctx := { s.ctx with rowCount := s.ctx.rowCount + emitSize }
          sink := s.sink.write outBuf true }
        if truncated then finish s true env env.secondWrite else { s with more := true }
      else { s with more := false }

/-- The branch for the schema. -/
def provideSchema (s : State) (env : CallEnv) : State :=
  match env.schemaFault with
  | some what => handleException s env.report what env.errorFault env.firstWrite
  | none =>
      let sink := s.sink.write (line (emitSchema text s.ctx.columns s.ctx.sessionIdForResponse .new))
        env.firstWrite
      if env.firstWrite then
        { ctx := { s.ctx with schemaEmitted := true }, sink := sink, more := true }
      else { s with sink := sink, more := false }

/-- One call of the content provider. -/
def provide (s : State) (env : CallEnv) : State :=
  if !s.ctx.schemaEmitted then provideSchema text s env
  else if !s.ctx.endEmitted && !s.ctx.errorEmitted then
    match env.fetched with
    | .throws what => handleException s env.report what env.errorFault env.firstWrite
    | .null _ => provideEmpty s env
    | .chunk [] => provideEmpty s env
    | .chunk rows => provideRows text s env rows
  else { s with sink := s.sink.done, more := false }

/-- httplib calls the provider as long as it returns `true`. -/
def run : State → List CallEnv → State
  | s, [] => s
  | s, env :: envs => if s.more then run (provide text s env) envs else s

/-- The context `HandleSql` starts the stream with. -/
def start (columns : Columns) (sessionId : Bytes) (maxRows : Nat) (chunkMode : Bool) : State :=
  { ctx := { columns, sessionIdForResponse := sessionId, maxRows, chunkMode } }

end Harbor.Ndjson
