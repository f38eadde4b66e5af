import Harbor.Sql.Types
import Harbor.Lib.Base64

set_option autoImplicit false

/-! # The result encoder

`SqlChunkEncoder`: the schema record of a column, the JSON of a value, and the records a response
is made of, each as the calls it makes on the JSON writer. DuckDB's own to-text functions are the
parameter `DuckText`; what the encoder does to their results (the `T` of a timestamp, the `Z`, the
digits of the fraction, the offset of a TIMETZ) is modelled here. A conversion that throws is
`Except.error` with the message of the exception. DuckDB's `Blob::ToBase64` writes the standard alphabet
with padding, so `Base64.encode` stands for it.
-/

namespace Harbor

/-- The to-text functions of DuckDB and `snprintf` with `%.17g`. -/
structure DuckText where
  /-- `LogicalType::ToString`. -/
  typeToString : LogicalType → Bytes
  /-- `Decimal::ToString(value, width, scale)`. -/
  decimalToString : Int → Nat → Nat → Bytes
  /-- `UUID::ToString`. -/
  uuidToString : Int → Bytes
  /-- `Date::ToString`. -/
  dateToString : Int → Bytes
  /-- `Time::ToString`. -/
  timeToString : Int → Bytes
  /-- `Time::ToUTCOffset(hours, minutes)`. -/
  toUtcOffset : Int → Int → Bytes
  /-- `Timestamp::ToString`, of microseconds. -/
  timestampToString : Int → Bytes
  /-- `Value::ToString` of a TIMESTAMP_NS. -/
  timestampNsToString : Int → Bytes
  /-- `Value::ToString` of a BIT. -/
  bitToString : Bytes → Bytes
  /-- `Value::ToString` of a value whose type the encoder does not know. -/
  otherToString : Value → Bytes
  /-- `%.17g`. -/
  formatDouble : FiniteDouble → Bytes

mutual

/-- `LogicalType::ToString`, of types whose names and labels need no quoting. -/
def LogicalType.plainText : LogicalType → Bytes
  | .scalar id => id.name
  | .decimal w s => lit "DECIMAL(" ++ Bytes.decNat w ++ lit "," ++ Bytes.decNat s ++ lit ")"
  | .list c => c.plainText ++ lit "[]"
  | .array c n => c.plainText ++ lit "[" ++ Bytes.decNat n ++ lit "]"
  | .struct fs => lit "STRUCT(" ++ fs.plainText ++ lit ")"
  | .map k v => lit "MAP(" ++ k.plainText ++ lit ", " ++ v.plainText ++ lit ")"
  | .union ms => lit "UNION(" ++ ms.plainText ++ lit ")"
  | .enum ls =>
      lit "ENUM(" ++ (lit ", ").intercalate (ls.map fun l => lit "'" ++ l ++ lit "'") ++ lit ")"
  | .other n => n

def Fields.plainText : Fields → Bytes
  | .nil => []
  | .cons n t .nil => n ++ lit " " ++ t.plainText
  | .cons n t fs => n ++ lit " " ++ t.plainText ++ lit ", " ++ fs.plainText

end

/-- To-text functions that print the number a value is stored as: enough to run the encoder on
values whose text does not matter. -/
def DuckText.numerals : DuckText where
  typeToString := LogicalType.plainText
  decimalToString v _ _ := Bytes.decInt v
  uuidToString := Bytes.decInt
  dateToString := Bytes.decInt
  timeToString := Bytes.decInt
  toUtcOffset hours minutes := Bytes.decInt hours ++ lit ":" ++ Bytes.decInt minutes
  timestampToString := Bytes.decInt
  timestampNsToString := Bytes.decInt
  bitToString := Base64.encode
  otherToString _ := lit "OTHER"
  formatDouble d := (if d.neg then lit "-" else []) ++ Bytes.decNat d.magnitude.val

namespace Encoder

/-! ## What a value holds -/

/-- The message of the exception when a value does not hold what its type says. -/
def typeMismatch : Bytes := lit "Information loss on integer cast or type mismatch"

def getBool : Value → Except Bytes Bool
  | .leaf _ (.bool b) => .ok b
  | _ => .error typeMismatch

def getInt : Value → Except Bytes Int
  | .leaf _ (.int i) => .ok i
  | _ => .error typeMismatch

def getDouble : Value → Except Bytes Double
  | .leaf _ (.double d) => .ok d
  | _ => .error typeMismatch

def getString : Value → Except Bytes Bytes
  | .leaf _ (.str s) => .ok s
  | _ => .error typeMismatch

def getTimeTz : Value → Except Bytes (Int × Int)
  | .leaf _ (.timeTz micros offset) => .ok (micros, offset)
  | _ => .error typeMismatch

def getInterval : Value → Except Bytes (Int × Int × Int)
  | .leaf _ (.interval months days micros) => .ok (months, days, micros)
  | _ => .error typeMismatch

/-- `ListValue::GetChildren` and its siblings. -/
def getChildren : Value → Except Bytes (List Value)
  | .nested _ vs => .ok vs
  | _ => .error typeMismatch

/-- An element of a `duckdb::vector`. -/
def getChild (vs : List Value) (i : Nat) : Except Bytes Value :=
  match vs[i]? with
  | some v => .ok v
  | none => .error typeMismatch

/-! ## The text of scalars -/

/-- `kJsonSafeIntegerMax`. -/
def kJsonSafeIntegerMax : Int := 9007199254740991

/-- `IsJsonSafeInteger(int64_t)`. -/
def isJsonSafeInteger (v : Int) : Bool := -kJsonSafeIntegerMax ≤ v && v ≤ kJsonSafeIntegerMax

/-- `IsJsonSafeInteger(uint64_t)`. -/
def isJsonSafeUnsigned (v : Int) : Bool := v ≤ kJsonSafeIntegerMax

/-- A number inside the range of exact doubles, a string outside it. -/
def emitJsonSafe (safe : Int → Bool) (v : Int) (out : JsonWriter) : JsonWriter :=
  if safe v then out.int64 v else out.string (Bytes.decInt v)

/-- `EmitJsonSafeInt64OrString`. -/
def emitJsonSafeInt64OrString : Int → JsonWriter → JsonWriter := emitJsonSafe isJsonSafeInteger

/-- `EmitJsonSafeUint64OrString`. -/
def emitJsonSafeUint64OrString : Int → JsonWriter → JsonWriter := emitJsonSafe isJsonSafeUnsigned

/-- `EmitJsonSafeHugeintOrString`: `Hugeint::TryCast` to `int64_t` first. -/
def emitJsonSafeHugeintOrString : Int → JsonWriter → JsonWriter :=
  emitJsonSafe fun v => (-2 ^ 63 ≤ v && v < 2 ^ 63) && isJsonSafeInteger v

/-- `EmitJsonSafeUhugeintOrString`: `Uhugeint::TryCast` to `uint64_t` first. -/
def emitJsonSafeUhugeintOrString : Int → JsonWriter → JsonWriter :=
  emitJsonSafe fun v => (0 ≤ v && v < 2 ^ 64) && isJsonSafeUnsigned v

/-- `s[s.find(' ')] = 'T'`, when there is a blank. -/
def blankToT : Bytes → Bytes
  | [] => []
  | b :: s => if b = 0x20 then 0x54 :: s else b :: blankToT s

/-- `s.resize(s.find('.') + keep)`, when there is a dot and the string is longer. -/
def cutFraction (keep : Nat) (s : Bytes) : Bytes :=
  s.takeWhile (· ≠ 0x2E) ++ (s.dropWhile (· ≠ 0x2E)).take keep

variable (text : DuckText)

/-- `TimeTzToString`: hours and minutes of the offset, by division that truncates. -/
def timeTzToString (micros offset : Int) : Bytes :=
  text.timeToString micros ++ text.toUtcOffset (offset.tdiv 3600) ((offset.tmod 3600).tdiv 60)

/-- `TimestampToIsoNaive`. -/
def timestampToIsoNaive (ts : Int) : Bytes := blankToT (text.timestampToString ts)

/-- `TimestampTzToIsoUtc`. -/
def timestampTzToIsoUtc (ts : Int) : Bytes := timestampToIsoNaive text ts ++ [0x5A]

/-- `Timestamp::FromEpochSeconds`. -/
def fromEpochSeconds (sec : Int) : Except Bytes Int :=
  if -2 ^ 63 ≤ sec * 1000000 ∧ sec * 1000000 < 2 ^ 63 then .ok (sec * 1000000)
  else .error (lit "Could not convert Timestamp(S) to Timestamp(US)")

/-- `Timestamp::FromEpochMs`. -/
def fromEpochMs (ms : Int) : Except Bytes Int :=
  if -2 ^ 63 ≤ ms * 1000 ∧ ms * 1000 < 2 ^ 63 then .ok (ms * 1000)
  else .error (lit "Could not convert Timestamp(MS) to Timestamp(US)")

/-- `TimestampSecToIso`: without the fraction. -/
def timestampSecToIso (ts : Int) : Except Bytes Bytes := do
  let canonical ← fromEpochSeconds ts
  .ok (cutFraction 0 (timestampToIsoNaive text canonical))

/-- `TimestampMsToIso`: with at most three digits of the fraction. -/
def timestampMsToIso (ts : Int) : Except Bytes Bytes := do
  let canonical ← fromEpochMs ts
  .ok (cutFraction 4 (timestampToIsoNaive text canonical))

/-- `TimestampNsToIso`. -/
def timestampNsToIso (ts : Int) : Bytes := blankToT (text.timestampNsToString ts)

/-- `EmitInterval`. -/
def emitInterval (months days micros : Int) (out : JsonWriter) : JsonWriter :=
  let out := out.beginObject
  let out := out.keyInt64 (lit "months") months
  let out := out.keyInt64 (lit "days") days
  let out := (out.key (lit "micros")).string (Bytes.decInt micros)
  out.endObject

/-! ## Schema emission -/

/-- The members every column schema starts with. -/
def emitSchemaHead (type : LogicalType) (name : Bytes) (out : JsonWriter) : JsonWriter :=
  let out := out.beginObject
  let out := if name = [] then out else out.keyString (lit "name") name
  out.keyString (lit "duckdbType") (text.typeToString type)

mutual

/-- `EmitColumnSchema`. -/
def emitColumnSchema : LogicalType → Bytes → JsonWriter → JsonWriter
  | .decimal width scale, name, out =>
      let out := emitSchemaHead text (.decimal width scale) name out
      let out := out.keyBool (lit "lossless") true
      let out := (out.key (lit "decimal")).beginObject
      let out := out.keyInt64 (lit "width") width
      let out := out.keyInt64 (lit "scale") scale
      out.endObject.endObject
  | .list child, name, out =>
      let out := emitSchemaHead text (.list child) name out
      let out := out.keyBool (lit "lossless") true
      let out := emitColumnSchema child [] (out.key (lit "child"))
      out.endObject
  | .array child size, name, out =>
      let out := emitSchemaHead text (.array child size) name out
      let out := out.keyBool (lit "lossless") true
      let out := out.keyInt64 (lit "arrayLength") size
      let out := emitColumnSchema child [] (out.key (lit "child"))
      out.endObject
  | .struct fields, name, out =>
      let out := emitSchemaHead text (.struct fields) name out
      let out := out.keyBool (lit "lossless") true
      let out := (out.key (lit "fields")).beginArray
      let out := emitFieldSchemas fields out
      out.endArray.endObject
  | .map key value, name, out =>
      let out := emitSchemaHead text (.map key value) name out
      let out := out.keyBool (lit "lossless") true
      let out := emitColumnSchema key [] (out.key (lit "keyType"))
      let out := emitColumnSchema value [] (out.key (lit "valueType"))
      let out := out.keyString (lit "encoding") (lit "pairs")
      out.endObject
  | .union members, name, out =>
      let out := emitSchemaHead text (.union members) name out
      let out := out.keyBool (lit "lossless") true
      let out := (out.key (lit "members")).beginArray
      let out := emitFieldSchemas members out
      out.endArray.endObject
  | .enum labels, name, out =>
      let out := emitSchemaHead text (.enum labels) name out
      let out := out.keyBool (lit "lossless") true
      let out := (out.key (lit "values")).beginArray
      let out := labels.foldl JsonWriter.string out
      out.endArray.endObject
  | .scalar id, name, out =>
      let out := emitSchemaHead text (.scalar id) name out
      let out := out.keyBool (lit "lossless") true
      out.endObject
  | .other id, name, out =>
      let out := emitSchemaHead text (.other id) name out
      let out := out.keyBool (lit "lossless") false
      let out := out.keyString (lit "encoding") (lit "varchar-cast")
      out.endObject

/-- The loops over `StructType::GetChildTypes` and the members of a UNION. -/
def emitFieldSchemas : Fields → JsonWriter → JsonWriter
  | .nil, out => out
  | .cons name type rest, out => emitFieldSchemas rest (emitColumnSchema type name out)

end

/-! ## Value emission -/

/-- The first test of `EmitValue`. -/
def unlessNull (v : Value) (out : JsonWriter) (k : Except Bytes JsonWriter) :
    Except Bytes JsonWriter :=
  if v.isNull then .ok out.null else k

/-- The cases of `EmitValue` for types without parameters. -/
def emitScalar (id : ScalarType) (v : Value) (out : JsonWriter) : Except Bytes JsonWriter :=
  match id with
  | .boolean => do .ok (out.bool (← getBool v))
  | .tinyint | .smallint | .integer => do .ok (out.int64 (← getInt v))
  | .utinyint | .usmallint | .uinteger => do .ok (out.uint64 (← getInt v).toNat)
  | .bigint => do .ok (emitJsonSafeInt64OrString (← getInt v) out)
  | .ubigint => do .ok (emitJsonSafeUint64OrString (← getInt v) out)
  | .hugeint => do .ok (emitJsonSafeHugeintOrString (← getInt v) out)
  | .uhugeint => do .ok (emitJsonSafeUhugeintOrString (← getInt v) out)
  | .float | .double => do .ok (out.double text.formatDouble (← getDouble v))
  | .varchar => do .ok (out.string (← getString v))
  | .uuid => do .ok (out.string (text.uuidToString (← getInt v)))
  | .date => do .ok (out.string (text.dateToString (← getInt v)))
  | .time => do .ok (out.string (text.timeToString (← getInt v)))
  | .timeTz => do
      let (micros, offset) ← getTimeTz v
      .ok (out.string (timeTzToString text micros offset))
  | .timestamp => do .ok (out.string (timestampToIsoNaive text (← getInt v)))
  | .timestampSec => do .ok (out.string (← timestampSecToIso text (← getInt v)))
  | .timestampMs => do .ok (out.string (← timestampMsToIso text (← getInt v)))
  | .timestampNs => do .ok (out.string (timestampNsToIso text (← getInt v)))
  | .timestampTz => do .ok (out.string (timestampTzToIsoUtc text (← getInt v)))
  | .interval => do
      let (months, days, micros) ← getInterval v
      .ok (emitInterval months days micros out)
  | .blob => do .ok (out.string (Base64.encode (← getString v)))
  | .bit => do .ok (out.string (text.bitToString (← getString v)))
  | .sqlNull => .ok out.null

mutual

/-- `EmitValue`. -/
def emitValue : LogicalType → Value → JsonWriter → Except Bytes JsonWriter
  | .scalar id, v, out => unlessNull v out (emitScalar text id v out)
  | .decimal width scale, v, out => unlessNull v out do
      .ok (out.string (text.decimalToString (← getInt v) width scale))
  | .list child, v, out => unlessNull v out do
      let out ← (← getChildren v).foldlM (fun out elem => emitValue child elem out) out.beginArray
      .ok out.endArray
  | .array child _, v, out => unlessNull v out do
      let out ← (← getChildren v).foldlM (fun out elem => emitValue child elem out) out.beginArray
      .ok out.endArray
  | .struct fields, v, out => unlessNull v out do
      let out ← emitFields fields (← getChildren v) out.beginObject
      .ok out.endObject
  | .map key value, v, out => unlessNull v out do
      let entries ← getChildren v
      let out ← entries.foldlM (fun out entry => do
        let kv ← getChildren entry
        let out ← emitValue key (← getChild kv 0) out.beginArray
        let out ← emitValue value (← getChild kv 1) out
        .ok out.endArray) out.beginArray
      .ok out.endArray
  | .union members, v, out => unlessNull v out do
      let children ← getChildren v
      let tag ← getInt (← getChild children 0)
      let member ← getChild children (tag.toNat + 1)
      emitMember members tag.toNat member out
  | .enum labels, v, out => unlessNull v out do
      match labels[(← getInt v).toNat]? with
      | some label => .ok (out.string label)
      | none => .error typeMismatch
  | .other _, v, out => unlessNull v out (.ok (out.string (text.otherToString v)))

/-- The loop of the STRUCT case, as long as there are both fields and values. -/
def emitFields : Fields → List Value → JsonWriter → Except Bytes JsonWriter
  | .nil, _, out => .ok out
  | .cons _ _ _, [], out => .ok out
  | .cons name type rest, v :: vs, out => do
      let out ← emitValue type v (out.key name)
      emitFields rest vs out

/-- The UNION case: the name and type of the member at the tag. -/
def emitMember : Fields → Nat → Value → JsonWriter → Except Bytes JsonWriter
  | .nil, _, _, _ => .error typeMismatch
  | .cons name type _, 0, v, out => do
      let out := out.beginObject.keyString (lit "tag") name
      let out ← emitValue type v (out.key (lit "value"))
      .ok out.endObject
  | .cons _ _ rest, tag + 1, v, out => emitMember rest tag v out

end

/-! ## Rows, chunks and records -/

/-- `DataChunk`: its rows, each with one value for each column. -/
abbrev DataChunk := List (List Value)

/-- The column names and types a `SqlChunkEncoder` is built with. -/
abbrev Columns := List (Bytes × LogicalType)

/-- The loop over the columns of a row; `DataChunk::GetValue` throws where the row has none. -/
def emitCells : Columns → List Value → JsonWriter → Except Bytes JsonWriter
  | [], _, out => .ok out
  | _ :: _, [], _ => .error typeMismatch
  | column :: columns, v :: row, out => do
      emitCells columns row (← emitValue text column.2 v out)

/-- `EmitValuesArray`. -/
def emitValuesArray (columns : Columns) (row : List Value) (out : JsonWriter) :
    Except Bytes JsonWriter := do
  let out ← emitCells text columns row out.beginArray
  .ok out.endArray

/-- `EmitRow`. -/
def emitRow (columns : Columns) (row : List Value) (out : JsonWriter) :
    Except Bytes JsonWriter := do
  let out := out.beginObject.keyString (lit "type") (lit "row")
  let out ← emitValuesArray text columns row (out.key (lit "values"))
  .ok out.endObject

/-- `EmitChunk`. -/
def emitChunk (columns : Columns) (chunk : DataChunk) (out : JsonWriter) :
    Except Bytes JsonWriter := do
  let out := out.beginObject.keyString (lit "type") (lit "chunk")
  let out := (out.key (lit "rows")).beginArray
  let out ← chunk.foldlM (fun out row => emitValuesArray text columns row out) out
  .ok out.endArray.endObject

/-- `sessionId`, unless it is empty. -/
def emitSessionId (sessionId : Bytes) (out : JsonWriter) : JsonWriter :=
  if sessionId = [] then out else out.keyString (lit "sessionId") sessionId

/-- The member `columns`. -/
def emitColumns (columns : Columns) (out : JsonWriter) : JsonWriter :=
  let out := (out.key (lit "columns")).beginArray
  let out := columns.foldl (fun out column => emitColumnSchema text column.2 column.1 out) out
  out.endArray

/-- `EmitSchema`. -/
def emitSchema (columns : Columns) (sessionId : Bytes) (out : JsonWriter) : JsonWriter :=
  let out := out.beginObject.keyString (lit "type") (lit "schema")
  let out := emitSessionId sessionId out
  (emitColumns text columns out).endObject

/-- `EmitEnd`. -/
def emitEnd (rowCount : Nat) (timeMs : Int) (truncated : Bool) (out : JsonWriter) : JsonWriter :=
  let out := out.beginObject.keyString (lit "type") (lit "end")
  let out := out.keyUint64 (lit "rowCount") rowCount
  let out := out.keyInt64 (lit "timeMs") timeMs
  let out := if truncated then out.keyBool (lit "truncated") true else out
  out.endObject

/-- `EmitError`. -/
def emitError (code message : Bytes) (out : JsonWriter) : JsonWriter :=
  let out := out.beginObject.keyString (lit "type") (lit "error")
  let out := out.keyString (lit "code") code
  let out := out.keyString (lit "message") message
  out.endObject

/-- `EmitOneShot`. -/
def emitOneShot (columns : Columns) (sessionId kind : Bytes) (chunks : List DataChunk)
    (rowCount : Nat) (timeMs : Int) (out : JsonWriter) : Except Bytes JsonWriter := do
  let out := out.beginObject.keyBool (lit "ok") true
  let out := out.keyString (lit "kind") kind
  let out := emitSessionId sessionId out
  let out := emitColumns text columns out
  let out := (out.key (lit "data")).beginArray
  let out ← chunks.flatten.foldlM (fun out row => emitValuesArray text columns row out) out
  let out := out.endArray.keyUint64 (lit "rowCount") rowCount
  let out := out.keyInt64 (lit "timeMs") timeMs
  .ok out.endObject

/-- `EmitOneShotWrite`. -/
def emitOneShotWrite (sessionId : Bytes) (affected : Nat) (timeMs : Int) (out : JsonWriter) :
    JsonWriter :=
  let out := out.beginObject.keyBool (lit "ok") true
  let out := out.keyString (lit "kind") (lit "write")
  let out := emitSessionId sessionId out
  let out := out.keyUint64 (lit "rowCount") affected
  let out := out.keyInt64 (lit "timeMs") timeMs
  out.endObject

end Encoder

end Harbor
