import Harbor.Lib.Codec

set_option autoImplicit false

/-! # The messages of the binary protocol

A `QuackMessage` is a header and a body of the type the header names. `ToMemoryStream` writes both as
objects with `SerializationOptions` of their own, `FromMemoryStream` reads the header first and then the
body its type asks for. The forms of the primitive types, of a `LogicalType` (`T`) and of a `DataChunk`
(`C`) are the serializer's and stand in `Forms`.
-/

namespace Harbor.Quack.Message

open Property

/-- The serializer's forms of what the messages are made of. -/
structure Forms (T C : Type) where
  fieldId : Codec UInt16
  string : Codec Bytes
  count : Codec Nat
  bool : Codec Bool
  uint8 : Codec UInt8
  idx : Codec UInt64
  hugeint : Codec (BitVec 128)
  logicalType : Codec T
  dataChunk : Codec C

/-- The forms of a `BinarySerializer`: ids of fields are two bytes, numbers have variable length, lists and
strings stand behind their lengths. A type is the number of its id, as it is written of a type without
further information. -/
def Forms.binary {C : Type} (dataChunk : Codec C) : Forms UInt8 C where
  fieldId := .uint16
  string := .string
  count := .nat
  bool := .bool
  uint8 := .uint8
  idx := .uint64
  hugeint := .int128
  logicalType := .terminated .uint16 (.property .uint16 100 .uint8)
  dataChunk

/-- `DConstants::INVALID_INDEX`. -/
def invalidIndex : UInt64 := 0xFFFFFFFFFFFFFFFF

/-- An `optional_idx`: an index, or none, which is stored as `INVALID_INDEX`. -/
abbrev OptionalIdx := Option { idx : UInt64 // idx ≠ invalidIndex }

def OptionalIdx.stored : OptionalIdx → UInt64
  | none => invalidIndex
  | some idx => idx

def OptionalIdx.ofStored (idx : UInt64) : OptionalIdx :=
  if h : idx = invalidIndex then none else some ⟨idx, h⟩

theorem OptionalIdx.ofStored_stored (idx : OptionalIdx) : ofStored idx.stored = idx := by
  cases idx with
  | none => exact dif_pos rfl
  | some idx => exact dif_neg idx.2

namespace Forms

variable {T C : Type} (w : Forms T C)

def optionalIdx : Codec OptionalIdx :=
  w.idx.ofForm OptionalIdx.stored (fun idx => some (OptionalIdx.ofStored idx))
    fun idx => congrArg some (OptionalIdx.ofStored_stored idx)

/-- `DataChunkWrapper::Serialize` and `Deserialize`, as an object. -/
def dataChunkWrapper : Codec C :=
  .terminated w.fieldId (.property w.fieldId 300 (.terminated w.fieldId w.dataChunk))

/-- A `unique_ptr<DataChunkWrapper>`. -/
def chunkPointer : Codec (Option C) :=
  .nullable w.bool w.dataChunkWrapper

end Forms

/-! ## Types and headers -/

/-- `MessageType`, an enumeration over `uint8_t`: it is cast from the byte it is stored in, whatever that is. -/
structure MessageType where
  code : UInt8
  deriving DecidableEq, Repr

namespace MessageType

def invalid : MessageType := ⟨0⟩
def connectionRequest : MessageType := ⟨1⟩
def connectionResponse : MessageType := ⟨2⟩
def prepareRequest : MessageType := ⟨3⟩
def prepareResponse : MessageType := ⟨4⟩
def fetchRequest : MessageType := ⟨7⟩
def fetchResponse : MessageType := ⟨8⟩
def appendRequest : MessageType := ⟨9⟩
def successResponse : MessageType := ⟨10⟩
def disconnectMessage : MessageType := ⟨11⟩
def errorResponse : MessageType := ⟨100⟩

/-- `EnumUtil::ToChars`, which throws on the rest. -/
def toChars (type : MessageType) : Option Bytes :=
  if type = connectionRequest then some (lit "CONNECTION_REQUEST")
  else if type = connectionResponse then some (lit "CONNECTION_RESPONSE")
  else if type = prepareRequest then some (lit "PREPARE_REQUEST")
  else if type = prepareResponse then some (lit "PREPARE_RESPONSE")
  else if type = fetchRequest then some (lit "FETCH_REQUEST")
  else if type = fetchResponse then some (lit "FETCH_RESPONSE")
  else if type = appendRequest then some (lit "APPEND_REQUEST")
  else if type = successResponse then some (lit "SUCCESS_RESPONSE")
  else if type = disconnectMessage then some (lit "DISCONNECT_MESSAGE")
  else if type = errorResponse then some (lit "ERROR_RESPONSE")
  else none

end MessageType

structure MessageHeader where
  type : MessageType
  connectionId : Bytes := []
  clientQueryId : OptionalIdx := none
  deriving DecidableEq

variable {T C : Type} (w : Forms T C)

namespace MessageHeader

def serialize (m : MessageHeader) : Bytes :=
  write w.fieldId w.uint8 1 m.type.code ++ (writeWithDefault w.fieldId w.string 2 m.connectionId ++
    write w.fieldId w.optionalIdx 3 m.clientQueryId)

def deserialize : Reader MessageHeader := do
  let code ← read w.fieldId w.uint8 1
  let connectionId ← readWithDefault w.fieldId w.string 2
  let clientQueryId ← read w.fieldId w.optionalIdx 3
  pure ⟨⟨code⟩, connectionId, clientQueryId⟩

theorem deserialize_serialize (m : MessageHeader) (rest : Bytes) :
    deserialize w (serialize w m ++ rest) = some (m, rest) := by
  rw [serialize, List.append_assoc, List.append_assoc, deserialize, reader_bind (read_write _ _),
    reader_bind (readWithDefault_writeWithDefault _ _ (above_write _ 3 _)),
    reader_bind (read_write _ _)]
  rfl

end MessageHeader

/-! ## Bodies -/

structure AppendRequestMessage (C : Type) where
  schemaName : Bytes
  tableName : Bytes
  appendChunk : Option C

namespace AppendRequestMessage

def serialize (m : AppendRequestMessage C) : Bytes :=
  writeWithDefault w.fieldId w.string 1 m.schemaName ++
    (writeWithDefault w.fieldId w.string 2 m.tableName ++
      writeWithDefault w.fieldId w.chunkPointer 3 m.appendChunk)

def deserialize : Reader (AppendRequestMessage C) := do
  let schemaName ← readWithDefault w.fieldId w.string 1
  let tableName ← readWithDefault w.fieldId w.string 2
  let appendChunk ← readWithDefault w.fieldId w.chunkPointer 3
  pure ⟨schemaName, tableName, appendChunk⟩

theorem deserialize_serialize (m : AppendRequestMessage C) {rest : Bytes}
    (hrest : Above w.fieldId terminatorId rest) :
    deserialize w (serialize w m ++ rest) = some (m, rest) := by
  have h3 := hrest.writeWithDefault w.chunkPointer 3 m.appendChunk
  have h2 := h3.writeWithDefault w.string 2 m.tableName
  rw [serialize, List.append_assoc, List.append_assoc, deserialize,
    reader_bind (readWithDefault_writeWithDefault _ _ h2),
    reader_bind (readWithDefault_writeWithDefault _ _ h3),
    reader_bind (readWithDefault_writeWithDefault _ _ hrest)]
  rfl

end AppendRequestMessage

structure ConnectionRequestMessage where
  authString : Bytes
  clientDuckdbVersion : Bytes
  clientPlatform : Bytes
  minSupportedQuackVersion : UInt64
  maxSupportedQuackVersion : UInt64
  deriving DecidableEq, Repr

namespace ConnectionRequestMessage

def serialize (m : ConnectionRequestMessage) : Bytes :=
  writeWithDefault w.fieldId w.string 1 m.authString ++
    (writeWithDefault w.fieldId w.string 2 m.clientDuckdbVersion ++
      (writeWithDefault w.fieldId w.string 3 m.clientPlatform ++
        (writeWithDefault w.fieldId w.idx 4 m.minSupportedQuackVersion ++
          writeWithDefault w.fieldId w.idx 5 m.maxSupportedQuackVersion)))

def deserialize : Reader ConnectionRequestMessage := do
  let authString ← readWithDefault w.fieldId w.string 1
  let clientDuckdbVersion ← readWithDefault w.fieldId w.string 2
  let clientPlatform ← readWithDefault w.fieldId w.string 3
  let minSupportedQuackVersion ← readWithDefault w.fieldId w.idx 4
  let maxSupportedQuackVersion ← readWithDefault w.fieldId w.idx 5
  pure ⟨authString, clientDuckdbVersion, clientPlatform, minSupportedQuackVersion,
    maxSupportedQuackVersion⟩

theorem deserialize_serialize (m : ConnectionRequestMessage) {rest : Bytes}
    (hrest : Above w.fieldId terminatorId rest) :
    deserialize w (serialize w m ++ rest) = some (m, rest) := by
  have h5 := hrest.writeWithDefault w.idx 5 m.maxSupportedQuackVersion
  have h4 := h5.writeWithDefault w.idx 4 m.minSupportedQuackVersion
  have h3 := h4.writeWithDefault w.string 3 m.clientPlatform
  have h2 := h3.writeWithDefault w.string 2 m.clientDuckdbVersion
  simp only [serialize, List.append_assoc]
  rw [deserialize, reader_bind (readWithDefault_writeWithDefault _ _ h2),
    reader_bind (readWithDefault_writeWithDefault _ _ h3),
    reader_bind (readWithDefault_writeWithDefault _ _ h4),
    reader_bind (readWithDefault_writeWithDefault _ _ h5),
    reader_bind (readWithDefault_writeWithDefault _ _ hrest)]
  rfl

end ConnectionRequestMessage

structure ConnectionResponseMessage where
  serverDuckdbVersion : Bytes
  serverPlatform : Bytes
  quackVersion : UInt64
  deriving DecidableEq, Repr

namespace ConnectionResponseMessage

def serialize (m : ConnectionResponseMessage) : Bytes :=
  writeWithDefault w.fieldId w.string 1 m.serverDuckdbVersion ++
    (writeWithDefault w.fieldId w.string 2 m.serverPlatform ++
      writeWithDefault w.fieldId w.idx 3 m.quackVersion)

def deserialize : Reader ConnectionResponseMessage := do
  let serverDuckdbVersion ← readWithDefault w.fieldId w.string 1
  let serverPlatform ← readWithDefault w.fieldId w.string 2
  let quackVersion ← readWithDefault w.fieldId w.idx 3
  pure ⟨serverDuckdbVersion, serverPlatform, quackVersion⟩

theorem deserialize_serialize (m : ConnectionResponseMessage) {rest : Bytes}
    (hrest : Above w.fieldId terminatorId rest) :
    deserialize w (serialize w m ++ rest) = some (m, rest) := by
  have h3 := hrest.writeWithDefault w.idx 3 m.quackVersion
  have h2 := h3.writeWithDefault w.string 2 m.serverPlatform
  simp only [serialize, List.append_assoc]
  rw [deserialize, reader_bind (readWithDefault_writeWithDefault _ _ h2),
    reader_bind (readWithDefault_writeWithDefault _ _ h3),
    reader_bind (readWithDefault_writeWithDefault _ _ hrest)]
  rfl

end ConnectionResponseMessage

structure FetchRequestMessage where
  uuid : BitVec 128
  deriving DecidableEq, Repr

namespace FetchRequestMessage

def serialize (m : FetchRequestMessage) : Bytes := write w.fieldId w.hugeint 1 m.uuid

def deserialize : Reader FetchRequestMessage := do
  let uuid ← read w.fieldId w.hugeint 1
  pure ⟨uuid⟩

theorem deserialize_serialize (m : FetchRequestMessage) (rest : Bytes) :
    deserialize w (serialize w m ++ rest) = some (m, rest) := by
  rw [serialize, deserialize, reader_bind (read_write _ _)]
  rfl

end FetchRequestMessage

structure FetchResponseMessage (C : Type) where
  results : List (Option C)
  batchIndex : OptionalIdx

namespace FetchResponseMessage

def serialize (m : FetchResponseMessage C) : Bytes :=
  writeWithDefault w.fieldId (.list w.count w.chunkPointer) 1 m.results ++
    write w.fieldId w.optionalIdx 2 m.batchIndex

def deserialize : Reader (FetchResponseMessage C) := do
  let results ← readWithDefault w.fieldId (.list w.count w.chunkPointer) 1
  let batchIndex ← read w.fieldId w.optionalIdx 2
  pure ⟨results, batchIndex⟩

theorem deserialize_serialize (m : FetchResponseMessage C) (rest : Bytes) :
    deserialize w (serialize w m ++ rest) = some (m, rest) := by
  rw [serialize, List.append_assoc, deserialize,
    reader_bind (readWithDefault_writeWithDefault _ _ (above_write _ 2 _)),
    reader_bind (read_write _ _)]
  rfl

end FetchResponseMessage

structure PrepareRequestMessage where
  sqlQuery : Bytes
  deriving DecidableEq, Repr

namespace PrepareRequestMessage

def serialize (m : PrepareRequestMessage) : Bytes :=
  writeWithDefault w.fieldId w.string 1 m.sqlQuery

def deserialize : Reader PrepareRequestMessage := do
  let sqlQuery ← readWithDefault w.fieldId w.string 1
  pure ⟨sqlQuery⟩

theorem deserialize_serialize (m : PrepareRequestMessage) {rest : Bytes}
    (hrest : Above w.fieldId terminatorId rest) :
    deserialize w (serialize w m ++ rest) = some (m, rest) := by
  rw [serialize, deserialize, reader_bind (readWithDefault_writeWithDefault _ _ hrest)]
  rfl

end PrepareRequestMessage

structure PrepareResponseMessage (T C : Type) where
  resultTypes : List T
  resultNames : List Bytes
  results : List (Option C)
  needsMoreFetch : Bool
  resultUuid : BitVec 128

namespace PrepareResponseMessage

def serialize (m : PrepareResponseMessage T C) : Bytes :=
  writeWithDefault w.fieldId (.list w.count w.logicalType) 1 m.resultTypes ++
    (writeWithDefault w.fieldId (.list w.count w.string) 2 m.resultNames ++
      (writeWithDefault w.fieldId w.bool 3 m.needsMoreFetch ++
        (writeWithDefault w.fieldId (.list w.count w.chunkPointer) 4 m.results ++
          write w.fieldId w.hugeint 5 m.resultUuid)))

def deserialize : Reader (PrepareResponseMessage T C) := do
  let resultTypes ← readWithDefault w.fieldId (.list w.count w.logicalType) 1
  let resultNames ← readWithDefault w.fieldId (.list w.count w.string) 2
  let needsMoreFetch ← readWithDefault w.fieldId w.bool 3
  let results ← readWithDefault w.fieldId (.list w.count w.chunkPointer) 4
  let resultUuid ← read w.fieldId w.hugeint 5
  pure ⟨resultTypes, resultNames, results, needsMoreFetch, resultUuid⟩

theorem deserialize_serialize (m : PrepareResponseMessage T C) (rest : Bytes) :
    deserialize w (serialize w m ++ rest) = some (m, rest) := by
  have h5 : Above w.fieldId 5 (write w.fieldId w.hugeint 5 m.resultUuid ++ rest) := above_write _ _ _
  have h4 := h5.writeWithDefault (.list w.count w.chunkPointer) 4 m.results
  have h3 := h4.writeWithDefault w.bool 3 m.needsMoreFetch
  have h2 := h3.writeWithDefault (.list w.count w.string) 2 m.resultNames
  simp only [serialize, List.append_assoc]
  rw [deserialize, reader_bind (readWithDefault_writeWithDefault _ _ h2),
    reader_bind (readWithDefault_writeWithDefault _ _ h3),
    reader_bind (readWithDefault_writeWithDefault _ _ h4),
    reader_bind (readWithDefault_writeWithDefault _ _ h5), reader_bind (read_write _ _)]
  rfl

end PrepareResponseMessage

/-- `ErrorData`: the name of its `ExceptionType`, and the message without it. -/
structure ErrorData where
  type : Bytes
  rawMessage : Bytes
  deriving DecidableEq, Repr

structure ErrorResponse where
  error : ErrorData
  deriving DecidableEq, Repr

namespace ErrorResponse

/-- An `ErrorResponse` of a text. -/
def ofMessage (message : Bytes) : ErrorResponse := ⟨⟨lit "Invalid Input", message⟩⟩

def serialize (m : ErrorResponse) : Bytes :=
  writeWithDefault w.fieldId w.string 1 m.error.rawMessage

def deserialize : Reader ErrorResponse := do
  let message ← readWithDefault w.fieldId w.string 1
  pure (ofMessage message)

/-- The type of the exception is not sent. -/
theorem deserialize_serialize (m : ErrorResponse) {rest : Bytes}
    (hrest : Above w.fieldId terminatorId rest) :
    deserialize w (serialize w m ++ rest) = some (ofMessage m.error.rawMessage, rest) := by
  rw [serialize, deserialize, reader_bind (readWithDefault_writeWithDefault _ _ hrest)]
  rfl

end ErrorResponse

/-! ## Messages -/

/-- The classes of messages. -/
inductive Body (T C : Type) where
  | connectionRequest (m : ConnectionRequestMessage)
  | connectionResponse (m : ConnectionResponseMessage)
  | prepareRequest (m : PrepareRequestMessage)
  | prepareResponse (m : PrepareResponseMessage T C)
  | fetchRequest (m : FetchRequestMessage)
  | fetchResponse (m : FetchResponseMessage C)
  | appendRequest (m : AppendRequestMessage C)
  | successResponse
  | disconnect
  | errorResponse (m : ErrorResponse)

namespace Body

/-- The `TYPE` of the class. -/
def type : Body T C → MessageType
  | connectionRequest _ => .connectionRequest
  | connectionResponse _ => .connectionResponse
  | prepareRequest _ => .prepareRequest
  | prepareResponse _ => .prepareResponse
  | fetchRequest _ => .fetchRequest
  | fetchResponse _ => .fetchResponse
  | appendRequest _ => .appendRequest
  | successResponse => .successResponse
  | disconnect => .disconnectMessage
  | errorResponse _ => .errorResponse

/-- The virtual `Serialize`. -/
def serialize : Body T C → Bytes
  | connectionRequest m => m.serialize w
  | connectionResponse m => m.serialize w
  | prepareRequest m => m.serialize w
  | prepareResponse m => m.serialize w
  | fetchRequest m => m.serialize w
  | fetchResponse m => m.serialize w
  | appendRequest m => m.serialize w
  | successResponse => []
  | disconnect => []
  | errorResponse m => m.serialize w

/-- `QuackMessage::Deserialize`: the type says which class is read. -/
def deserialize (type : MessageType) : Reader { b : Body T C // b.type = type } :=
  if h : type = .connectionRequest then do
    let m ← ConnectionRequestMessage.deserialize w
    pure ⟨connectionRequest m, h.symm⟩
  else if h : type = .connectionResponse then do
    let m ← ConnectionResponseMessage.deserialize w
    pure ⟨connectionResponse m, h.symm⟩
  else if h : type = .prepareRequest then do
    let m ← PrepareRequestMessage.deserialize w
    pure ⟨prepareRequest m, h.symm⟩
  else if h : type = .prepareResponse then do
    let m ← PrepareResponseMessage.deserialize w
    pure ⟨prepareResponse m, h.symm⟩
  else if h : type = .fetchRequest then do
    let m ← FetchRequestMessage.deserialize w
    pure ⟨fetchRequest m, h.symm⟩
  else if h : type = .fetchResponse then do
    let m ← FetchResponseMessage.deserialize w
    pure ⟨fetchResponse m, h.symm⟩
  else if h : type = .appendRequest then do
    let m ← AppendRequestMessage.deserialize w
    pure ⟨appendRequest m, h.symm⟩
  else if h : type = .successResponse then pure ⟨successResponse, h.symm⟩
  else if h : type = .disconnectMessage then pure ⟨disconnect, h.symm⟩
  else if h : type = .errorResponse then do
    let m ← ErrorResponse.deserialize w
    pure ⟨errorResponse m, h.symm⟩
  else failure

/-- What is left of a body on the other side: an error has lost its type. -/
def received : Body T C → Body T C
  | errorResponse m => errorResponse (.ofMessage m.error.rawMessage)
  | b => b

theorem type_received (b : Body T C) : b.received.type = b.type := by
  cases b <;> rfl

theorem received_received (b : Body T C) : b.received.received = b.received := by
  cases b <;> rfl

/-- A body is read back behind its type. -/
theorem deserialize_serialize (b : Body T C) {rest : Bytes} (hrest : Above w.fieldId terminatorId rest) :
    deserialize w b.type (b.serialize w ++ rest) = some (⟨b.received, b.type_received⟩, rest) := by
  cases b with
  | connectionRequest m => exact reader_bind (m.deserialize_serialize w hrest)
  | connectionResponse m => exact reader_bind (m.deserialize_serialize w hrest)
  | prepareRequest m => exact reader_bind (m.deserialize_serialize w hrest)
  | prepareResponse m => exact reader_bind (m.deserialize_serialize w rest)
  | fetchRequest m => exact reader_bind (m.deserialize_serialize w rest)
  | fetchResponse m => exact reader_bind (m.deserialize_serialize w rest)
  | appendRequest m => exact reader_bind (m.deserialize_serialize w hrest)
  | successResponse => rfl
  | disconnect => rfl
  | errorResponse m => exact reader_bind (m.deserialize_serialize w hrest)

theorem received_of_bind {α : Type} {type : MessageType} {read : Reader α}
    {f : α → { b : Body T C // b.type = type }} {bytes rest : Bytes} {b : { b : Body T C // b.type = type }}
    (hf : ∀ a, (f a).1.received = (f a).1) (h : (read >>= fun a => pure (f a)) bytes = some (b, rest)) :
    b.1.received = b.1 := by
  obtain ⟨a, middle, -, h⟩ := bind_eq_some h
  cases h
  exact hf a

/-- What is read has nothing left to lose. -/
theorem received_of_deserialize {type : MessageType} {bytes rest : Bytes}
    {b : { b : Body T C // b.type = type }} (h : deserialize w type bytes = some (b, rest)) :
    b.1.received = b.1 := by
  unfold deserialize at h
  split at h
  · exact received_of_bind (fun _ => rfl) h
  split at h
  · exact received_of_bind (fun _ => rfl) h
  split at h
  · exact received_of_bind (fun _ => rfl) h
  split at h
  · exact received_of_bind (fun _ => rfl) h
  split at h
  · exact received_of_bind (fun _ => rfl) h
  split at h
  · exact received_of_bind (fun _ => rfl) h
  split at h
  · exact received_of_bind (fun _ => rfl) h
  split at h
  · cases h
    rfl
  split at h
  · cases h
    rfl
  split at h
  · obtain ⟨m, middle, hm, h⟩ := bind_eq_some h
    obtain ⟨message, middle', -, hmessage⟩ := bind_eq_some hm
    cases h
    cases hmessage
    rfl
  · cases h

end Body

/-- A message: its body is of the type that its header names. -/
structure QuackMessage (T C : Type) where
  header : MessageHeader
  body : Body T C
  type_eq : header.type = body.type

namespace QuackMessage

/-- `Type`. -/
def type (m : QuackMessage T C) : MessageType := m.header.type

/-- `ToMemoryStream`, with what is then in the stream. -/
def toMemoryStream (m : QuackMessage T C) : Bytes :=
  m.header.serialize w ++ writeEnd w.fieldId ++ (m.body.serialize w ++ writeEnd w.fieldId)

def deserializeHeader : Reader MessageHeader := do
  let header ← MessageHeader.deserialize w
  readEnd w.fieldId
  pure header

def deserializeMessage (header : MessageHeader) : Reader (QuackMessage T C) := do
  let result ← Body.deserialize w header.type
  readEnd w.fieldId
  pure ⟨header, result.1, result.2.symm⟩

/-- `FromMemoryStream`. What stands behind the message is not looked at. -/
def fromMemoryStream (bytes : Bytes) : Option (QuackMessage T C) :=
  ((do
    let header ← deserializeHeader w
    deserializeMessage w header : Reader (QuackMessage T C)) bytes).map Prod.fst

/-- The message on the other side. -/
def received (m : QuackMessage T C) : QuackMessage T C :=
  ⟨m.header, m.body.received, m.type_eq.trans m.body.type_received.symm⟩

theorem ext {m n : QuackMessage T C} (hheader : m.header = n.header) (hbody : m.body = n.body) : m = n := by
  cases m
  cases n
  cases hheader
  cases hbody
  rfl

theorem deserializeHeader_serialize (header : MessageHeader) (rest : Bytes) :
    deserializeHeader w (header.serialize w ++ writeEnd w.fieldId ++ rest) = some (header, rest) := by
  rw [List.append_assoc, deserializeHeader, reader_bind (header.deserialize_serialize w _),
    reader_bind readEnd_writeEnd]
  rfl

/-- The body is read back behind a header of its type. -/
theorem deserializeMessage_serialize (m : QuackMessage T C) (rest : Bytes) :
    deserializeMessage w m.header (m.body.serialize w ++ writeEnd w.fieldId ++ rest) =
      some (m.received, rest) := by
  obtain ⟨header, body, htype⟩ := m
  obtain ⟨type, connectionId, clientQueryId⟩ := header
  change type = body.type at htype
  subst htype
  dsimp only
  rw [List.append_assoc, deserializeMessage, reader_bind (body.deserialize_serialize w above_writeEnd),
    reader_bind readEnd_writeEnd]
  rfl

/-- A message is read back, whatever stands behind it. -/
theorem fromMemoryStream_append (m : QuackMessage T C) (rest : Bytes) :
    fromMemoryStream w (m.toMemoryStream w ++ rest) = some m.received := by
  rw [toMemoryStream, List.append_assoc, fromMemoryStream,
    reader_bind (deserializeHeader_serialize w _ _), deserializeMessage_serialize]
  rfl

theorem received_of_deserializeMessage {header : MessageHeader} {bytes rest : Bytes} {m : QuackMessage T C}
    (h : deserializeMessage w header bytes = some (m, rest)) : m.header = header ∧ m.received = m := by
  obtain ⟨body, middle, hbody, h⟩ := bind_eq_some h
  obtain ⟨_, _, -, h⟩ := bind_eq_some h
  cases h
  exact ⟨rfl, ext rfl (Body.received_of_deserialize w hbody)⟩

/-- **Nothing but the type of an error is lost on the way.** Every message is read back from what is written
of it, whatever stands behind, with an error as an error of the same text; and a message that was read from
any bytes at all is read back from its own form as it is. -/
theorem fromMemoryStream_toMemoryStream :
    (∀ (m : QuackMessage T C) (rest : Bytes),
      fromMemoryStream w (m.toMemoryStream w ++ rest) = some m.received) ∧
    ∀ (bytes : Bytes) (m : QuackMessage T C), fromMemoryStream w bytes = some m →
      ∀ rest, fromMemoryStream w (m.toMemoryStream w ++ rest) = some m := by
  refine ⟨fromMemoryStream_append w, fun bytes m h rest => ?_⟩
  obtain ⟨⟨m, tail⟩, hread, rfl⟩ := Option.map_eq_some_iff.mp h
  obtain ⟨header, middle, -, hmessage⟩ := bind_eq_some hread
  rw [fromMemoryStream_append, (received_of_deserializeMessage w hmessage).2]

/-- The answer to a PREPARE of one INTEGER column, of which there are no chunks yet. -/
def prepared : QuackMessage UInt8 Bytes :=
  ⟨⟨.prepareResponse, lit "c", none⟩, .prepareResponse ⟨[13], [lit "n"], [], true, 5⟩, rfl⟩

/-- An error, and the answer to a PREPARE, in their bytes. -/
theorem fromMemoryStream_binary :
    let w := Forms.binary Codec.string
    let failed : QuackMessage UInt8 Bytes :=
      ⟨⟨.errorResponse, [], some ⟨3, by decide⟩⟩, .errorResponse ⟨⟨lit "IO", lit "gone"⟩⟩, rfl⟩
    failed.toMemoryStream w = [1, 0, 100, 3, 0, 3, 255, 255] ++ [1, 0, 4] ++ lit "gone" ++ [255, 255] ∧
      prepared.toMemoryStream w =
        [1, 0, 4, 2, 0, 1, 99, 3, 0, 255, 255, 255, 255, 255, 255, 255, 255, 255, 1, 255, 255] ++
          [1, 0, 1, 100, 0, 13, 255, 255, 2, 0, 1, 1, 110, 3, 0, 1, 5, 0, 0, 5, 255, 255] ∧
      fromMemoryStream w (failed.toMemoryStream w ++ [7]) =
        some ⟨failed.header, .errorResponse ⟨⟨lit "Invalid Input", lit "gone"⟩⟩, rfl⟩ ∧
      fromMemoryStream w (prepared.toMemoryStream w ++ []) = some prepared := by
  intro w failed
  refine ⟨?_, ?_, (fromMemoryStream_toMemoryStream w).1 failed [7],
    (fromMemoryStream_toMemoryStream w).2 _ prepared
      ((fromMemoryStream_toMemoryStream w).1 prepared []) []⟩
  · decide +kernel
  · decide +kernel

end QuackMessage

end Harbor.Quack.Message
