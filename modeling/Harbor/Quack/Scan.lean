import Harbor.Lib.KeyOrder
import Harbor.Quack.Results

set_option autoImplicit false

/-! # The parallel scan of a Quack result

A scan starts from the answer to a `PREPARE_REQUEST`. The first thread takes the chunks of that answer,
and when a thread has no chunks left it fetches the next batch; the threads share `needs_more_fetch`
only. Each chunk is returned under the batch index its thread has at that time, and a consumer that
preserves the order sorts by it.

The server side is the `Session` of the scan's connection. Other messages of the same connection may
come in between, and the threads run in any interleaving; a request is sent, answered and looked at in
three steps.
-/

namespace Harbor.Quack.Scan

open Encoder (DataChunk)
open Runs KeyOrder

/-! ## The client -/

/-- `ChunkResultPushdownType`. -/
inductive ChunkResultPushdownType where
  | requiresPushdown
  | pushdownAlreadyApplied
deriving DecidableEq, Repr

structure ChunkResult where
  chunk : DataChunk
  pushdownType : ChunkResultPushdownType
deriving Repr

inductive ColumnIndex where
  | primary (index : Nat)
  | isVirtual
deriving DecidableEq, Repr

/-- What the binding of the scan leaves. -/
structure BindData where
  tableName : Bytes
  results : List DataChunk
  needsMoreFetch : Bool
  resultUuid : Nat
deriving Repr

/-- A `PrepareResponseMessage`. -/
structure Prepared where
  results : List DataChunk
  needsMoreFetch : Bool
  resultUuid : Nat
deriving Repr

/-- How far a thread is in `QuackScan`. -/
inductive Phase where
  /-- It has no local state yet. -/
  | created
  | scanning
  /-- It has read `needs_more_fetch`, and its request is on the way. -/
  | requesting
  /-- The answer is there, and not looked at. -/
  | responded (response : Response)
  /-- `QuackScan` has returned without rows: the executor does not call it again. -/
  | finished
  | failed
deriving Repr

/-- `QuackScanLocalState`. -/
structure Thread where
  phase : Phase := .created
  currentBatchIndex : Option Nat := none
  results : List ChunkResult := []
deriving Repr

/-- `QuackScanGetPartitionData`. -/
def Thread.partitionIndex (thread : Thread) : Nat := thread.currentBatchIndex.getD 0

/-- `QuackScanGlobalState`. -/
structure GlobalState where
  columnIds : List ColumnIndex
  needsMoreFetch : Bool
  resultUuid : Nat
  results : List ChunkResult
deriving Repr

/-- `QuackScanInitGlobal`: for a table the query is prepared here, with the projection in it. -/
def quackScanInitGlobal (bindData : BindData) (columnIds : List ColumnIndex) (prepare : Prepared) :
    GlobalState :=
  if bindData.tableName ≠ [] then
    ⟨columnIds, prepare.needsMoreFetch, prepare.resultUuid,
      prepare.results.map fun chunk => ⟨chunk, .pushdownAlreadyApplied⟩⟩
  else
    ⟨columnIds, bindData.needsMoreFetch, bindData.resultUuid,
      bindData.results.map fun chunk => ⟨chunk, .requiresPushdown⟩⟩

/-- The loop over the columns of a chunk that requires pushdown. At a virtual column it returns before
the cardinality is set. The binder keeps the other indexes within the columns of the query. -/
def project (columnIds : List ColumnIndex) (chunk : DataChunk) : DataChunk :=
  if .isVirtual ∈ columnIds then []
  else
    chunk.map fun row => columnIds.filterMap fun
      | .primary index => row[index]?
      | .isVirtual => none

/-- The rows `QuackScan` returns for a chunk. -/
def ChunkResult.output (columnIds : List ColumnIndex) (result : ChunkResult) : DataChunk :=
  match result.pushdownType with
  | .pushdownAlreadyApplied => result.chunk
  | .requiresPushdown => project columnIds result.chunk

/-! ## The steps -/

/-- A scan by `n` threads, and what they have returned: under which index, which of them, and what. -/
structure State (n : Nat) where
  session : Session
  shared : GlobalState
  threads : Fin n → Thread
  emitted : List (Nat × Fin n × ChunkResult) := []

inductive Action (n : Nat) where
  /-- `QuackScanInitLocal`, with `TryGetResults`. -/
  | initLocal (i : Fin n)
  /-- A chunk from the buffer of the thread; an empty one is passed over. -/
  | pop (i : Fin n)
  /-- The buffer is empty: read `needs_more_fetch`. -/
  | check (i : Fin n)
  /-- The server answers the `FETCH_REQUEST` of the thread. -/
  | serve (i : Fin n) (pendingError : Option Bytes) (setting : Option UInt64)
  | receive (i : Fin n)
  /-- Another `PREPARE_REQUEST` of the connection. -/
  | prepare (allowed : Bool) (sent : Sent) (uuid : Nat) (setting : Option UInt64)

variable {n : Nat}

def State.setThread (s : State n) (i : Fin n) (thread : Thread) : State n :=
  { s with threads := Function.update s.threads i thread }

/-- A chunk is taken from the buffer of the thread; without rows in the output the executor takes the
scan of this thread for finished. -/
def State.emit (s : State n) (i : Fin n) (result : ChunkResult) (results : List ChunkResult) : State n :=
  let thread := s.threads i
  let phase := if (result.output s.shared.columnIds).isEmpty then Phase.finished else thread.phase
  { s with
    threads := Function.update s.threads i { thread with phase, results }
    emitted := s.emitted ++ [(thread.partitionIndex, i, result)] }

/-- What a thread makes of the answer to its request. -/
def State.receive (s : State n) (i : Fin n) : Response → State n
  | .fetchResponse [] _ =>
      { s with
        shared := { s.shared with needsMoreFetch := false }
        threads := Function.update s.threads i { s.threads i with phase := .finished } }
  | .fetchResponse (chunk :: chunks) batchIndex =>
      s.setThread i
        { phase := .scanning
          currentBatchIndex := batchIndex
          results := (chunk :: chunks).map fun chunk => ⟨chunk, .pushdownAlreadyApplied⟩ }
  | .errorResponse _ | .exception | .prepareResponse _ _ _ =>
      s.setThread i { s.threads i with phase := .failed }

/-- The state after a step; a random uuid is not that of the scan. -/
def step (s : State n) : Action n → Option (State n)
  | .initLocal i =>
      match (s.threads i).phase with
      | .created =>
          some { s with
            shared := { s.shared with results := [] }
            threads := Function.update s.threads i ⟨.scanning, none, s.shared.results⟩ }
      | _ => none
  | .pop i =>
      match (s.threads i).phase, (s.threads i).results with
      | .scanning, result :: results =>
          if result.chunk.isEmpty then some (s.setThread i { s.threads i with results })
          else some (s.emit i result results)
      | _, _ => none
  | .check i =>
      match (s.threads i).phase, (s.threads i).results with
      | .scanning, [] =>
          if s.shared.needsMoreFetch then some (s.setThread i { s.threads i with phase := .requesting })
          else some (s.setThread i { s.threads i with phase := .finished })
      | _, _ => none
  | .serve i pendingError setting =>
      match (s.threads i).phase with
      | .requesting =>
          let (response, session) := s.session.fetch s.shared.resultUuid pendingError setting
          some ({ s with session }.setThread i { s.threads i with phase := .responded response })
      | _ => none
  | .receive i =>
      match (s.threads i).phase with
      | .responded response => some (s.receive i response)
      | _ => none
  | .prepare allowed sent uuid setting =>
      if uuid = s.shared.resultUuid then none
      else some { s with session := (s.session.prepare allowed sent uuid setting).2 }

/-- The scan at its start: the answer to the `PREPARE_REQUEST` that the binding (for a query) or
`QuackScanInitGlobal` (for a table) sends. Both paths use it the same way. -/
def start (n : Nat) (tableName : Bytes) (columnIds : List ColumnIndex) (session : Session)
    (allowed : Bool) (sent : Sent) (uuid : Nat) (setting : Option UInt64) : Option (State n) :=
  match session.prepare allowed sent uuid setting with
  | (.prepareResponse resultUuid results needsMoreFetch, session) =>
      some
        { session
          shared := quackScanInitGlobal ⟨tableName, results, needsMoreFetch, resultUuid⟩ columnIds
            ⟨results, needsMoreFetch, resultUuid⟩
          threads := fun _ => {} }
  | _ => none

/-! ## What a run can be asked for -/

/-- Some thread has run, and all that have are finished: the executor has reached the end of the scan. -/
def Done (s : State n) : Prop :=
  (∃ i, (s.threads i).phase = .finished) ∧
    ∀ i, (s.threads i).phase = .created ∨ (s.threads i).phase = .finished

/-- What an order-preserving consumer makes of the chunks. -/
def State.ordered (s : State n) : List ChunkResult := (inKeyOrder s.emitted).map Prod.snd

/-- The rows it gets, chunk by chunk. -/
def State.rows (s : State n) : List DataChunk := s.ordered.map (·.output s.shared.columnIds)

/-- The settings are not 0 while the scan fetches, and no other PREPARE of the connection comes to
nothing after it was let through: such a one drops the result of the scan. -/
def Undisturbed (_ : State n) : Action n → Prop
  | .serve _ _ setting => setting ≠ some 0
  | .prepare allowed sent _ _ => allowed = true → ∃ names fetches, sent = .result names fetches ∧ names ≠ []
  | _ => True

end Harbor.Quack.Scan
