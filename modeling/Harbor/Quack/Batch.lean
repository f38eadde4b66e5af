import Harbor.Sql.Response

set_option autoImplicit false

/-! # Batches of the Quack protocol

`CreateBatch`, and how `PREPARE_REQUEST` and `FETCH_REQUEST` answer with what it returns. A session
holds the rest of its result as the list of what the calls of `Fetch` will come to; behind the last
one `Fetch` returns a null pointer.
-/

namespace Harbor.Quack

open Encoder (DataChunk)

/-- What `CreateBatch` leaves: the chunks, the result unless it was reset, and its error if it has
one. -/
structure Batch where
  results : List DataChunk
  queryResult : Option (List Fetched)
  error : Option Bytes
deriving Repr

/-- `CreateBatch`, with the chunks it has so far; `error` when a `Fetch` throws. -/
def createBatch (maxChunks : Nat) : List DataChunk → List Fetched → Except Bytes Batch
  | results, [] =>
      if results.length < maxChunks then .ok ⟨results, none, none⟩ else .ok ⟨results, some [], none⟩
  | results, fetched :: fetches =>
      if results.length < maxChunks then
        match fetched with
        | .throws what => .error what
        | .null (some error) => .ok ⟨[], some fetches, some error⟩
        | .null none => .ok ⟨results, none, none⟩
        | .chunk [] => .ok ⟨results, none, none⟩
        | .chunk rows => createBatch maxChunks (results ++ [rows]) fetches
      else .ok ⟨results, some (fetched :: fetches), none⟩

/-- The answers to `PREPARE_REQUEST` and `FETCH_REQUEST`. -/
inductive Reply where
  | errorResponse (message : Bytes)
  | prepareResponse (results : List DataChunk) (needsMoreFetch : Bool)
  | fetchResponse (results : List DataChunk)
deriving Repr

/-- The end of `PREPARE_REQUEST`, when the query has sent its result: the reply, and the result the
session keeps. -/
def prepareReply (maxChunks : Nat) (fetches : List Fetched) :
    Except Bytes (Reply × Option (List Fetched)) := do
  let batch ← createBatch maxChunks [] fetches
  match batch.error with
  | some message => .ok (.errorResponse message, none)
  | none =>
      .ok (.prepareResponse batch.results (batch.results.length == maxChunks), batch.queryResult)

/-- `FETCH_REQUEST` for the result the session has. -/
def fetchReply (maxChunks : Nat) (queryResult : Option (List Fetched)) :
    Except Bytes (Reply × Option (List Fetched)) := do
  match queryResult with
  | none => .ok (.fetchResponse [], none)
  | some fetches =>
      let batch ← createBatch maxChunks [] fetches
      match batch.error with
      | some message => .ok (.errorResponse message, none)
      | none => .ok (.fetchResponse batch.results, batch.queryResult)

end Harbor.Quack
