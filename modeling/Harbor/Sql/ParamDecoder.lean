import Harbor.Sql.ParamReader
import Harbor.Sql.TypeParser
import Harbor.Sql.Encoder

set_option autoImplicit false

/-! # The parameter decoder

`SqlParamDecoder` turns the JSON of a parameter into a `duckdb::Value`. A parameter is decoded at an
expected type, or, as a typed wrapper `{"type": ..., "value": ...}`, at the type the wrapper names.
DuckDB's casts and the constructors of its nested values are the parameter `DuckCasts`.
-/

namespace Harbor

/-- What the decoder asks DuckDB for; an exception is the message of its `what()`. -/
structure DuckCasts where
  /-- The types it can make. -/
  types : DuckTypes
  /-- `Value(text)`, which throws when the text is not UTF-8. -/
  varchar : Bytes → Except Bytes Value
  /-- `Value(text).DefaultCastAs(type)`. -/
  castText : Bytes → LogicalType → Except Bytes Value
  /-- `Value::BOOLEAN(b).DefaultCastAs(type)`. -/
  castBool : Bool → LogicalType → Except Bytes Value
  /-- `Value::STRUCT(values).DefaultCastAs(type)`. -/
  castStruct : List (Bytes × Value) → LogicalType → Except Bytes Value
  /-- `Value::LIST(childType, elements)`. -/
  list : LogicalType → List Value → Except Bytes Value
  /-- `Value::ARRAY(childType, elements)`. -/
  array : LogicalType → List Value → Except Bytes Value
  /-- `Value::MAP(keyType, valueType, keys, values)`. -/
  map : LogicalType → LogicalType → List (Value × Value) → Except Bytes Value
  /-- `std::stod`; `none` where it throws. -/
  stod : Bytes → Option Double

/-- `LogicalType::ANY`, the type of a parameter nothing is expected of. -/
def LogicalType.any : LogicalType := .other (lit "ANY")

/-- `LogicalType::INVALID`. -/
def LogicalType.invalid : LogicalType := .other (lit "INVALID")

namespace ParamDecoder

open Bytes

/-- `std::stoll`: white space, a sign, digits up to the first byte that is none; `none` where it throws,
without a digit or outside of 64 bits. -/
def stoll (s : Bytes) : Option Int :=
  let s := s.dropWhile isSpace
  let negative := s.head? == some 0x2D
  let digits := (if negative || s.head? == some 0x2B then s.tail else s).takeWhile isDigit
  let n : Int := natOfDigits 0 digits
  let v := if negative then -n else n
  if digits = [] ∨ ¬ (-2 ^ 63 ≤ v ∧ v < 2 ^ 63) then none else some v

variable (text : DuckText) (casts : DuckCasts)

/-- The exception of a cast as the message of a failed function. -/
def orElse {α : Type} (what : Bytes) (x : Except Bytes α) : Except Bytes α :=
  x.mapError fun message => what ++ message

/-! ## Scalars -/

/-- The types `CoerceNumberFromString` takes. -/
def isNumeric : LogicalType → Bool
  | .scalar id => id ∈ [.tinyint, .smallint, .integer, .bigint, .hugeint, .utinyint, .usmallint,
      .uinteger, .ubigint, .uhugeint, .float, .double]
  | .decimal _ _ => true
  | _ => false

/-- `CoerceNumberFromString`. -/
def coerceNumberFromString (raw : Bytes) (expected : LogicalType) : Except Bytes Value :=
  if isNumeric expected then
    orElse (lit "number coerce to " ++ text.typeToString expected ++ lit " failed: ")
      (casts.castText raw expected)
  else .error (lit "number cannot coerce to " ++ text.typeToString expected)

/-- `CoerceJsonNumber`. -/
def coerceJsonNumber (raw : Bytes) (expected : LogicalType) : Except Bytes Value :=
  if expected = .any ∨ expected = .invalid ∨ expected = .scalar .sqlNull then
    let outOfRange := lit "number out of range for ANY-typed parameter"
    -- integer-shaped: neither a dot nor an exponent
    if raw.all fun b => b ≠ 0x2E && b ≠ 0x65 && b ≠ 0x45 then
      match stoll raw with
      | some v => .ok (.leaf (.scalar .bigint) (.int v))
      | none => .error outOfRange
    else
      match casts.stod raw with
      | some d => .ok (.leaf (.scalar .double) (.double d))
      | none => .error outOfRange
  else coerceNumberFromString text casts raw expected

/-- `CoerceJsonString`. A BLOB is made from the text like any other type. -/
def coerceJsonString (s : Bytes) (expected : LogicalType) : Except Bytes Value :=
  orElse (lit "string parameter cannot coerce to " ++ text.typeToString expected ++ lit ": ")
    (if expected = .scalar .varchar ∨ expected = .any ∨ expected = .invalid then casts.varchar s
    else casts.castText s expected)

/-- The branch of `DecodeOne` for `true` and `false`. -/
def coerceBool (b : Bool) (expected : LogicalType) : Except Bytes Value :=
  if expected = .scalar .boolean ∨ expected = .any ∨ expected = .invalid then
    .ok (.leaf (.scalar .boolean) (.bool b))
  else
    orElse (lit "boolean cannot coerce to " ++ text.typeToString expected ++ lit ": ")
      (casts.castBool b expected)

/-- The bytes the number scan collects. -/
def isNumberChar (b : UInt8) : Bool :=
  isDigit b || b == 0x2D || b == 0x2B || b == 0x2E || b == 0x65 || b == 0x45

/-! ## Containers

`decode` decodes one value inside of the container. -/

/-- A whole list of items, from behind the opening bracket on. -/
def readAll {σ : Type} (closeCh : UInt8) (item : σ → Cursor → Except Bytes (σ × Cursor)) (s : σ)
    (c : Cursor) : Except Bytes (σ × Cursor) :=
  readItems closeCh item (c.rest.length + 1) true s c

variable (decode : Cursor → LogicalType → Except Bytes (Value × Cursor))

/-- One member of a JSON object that becomes a STRUCT. The fields that have been given are kept beside
the fields, by their places. -/
def structMember (fields : List (Bytes × LogicalType)) (expected : LogicalType)
    (seen : List (Option Value)) (c : Cursor) : Except Bytes (List (Option Value) × Cursor) := do
  let (key, c) ← parseString c
  let c ← consumeChar 0x3A c
  -- identifiers are case-insensitive, as in SQL
  let place := fields.findIdx fun field => lower field.1 = lower key
  match fields[place]? with
  | none =>
      .error (lit "STRUCT field '" ++ key ++ lit "' not in expected type " ++
        text.typeToString expected)
  | some field =>
      if (seen.getD place none).isSome then
        .error (lit "STRUCT input has duplicate field '" ++ key ++
          lit "' (case-insensitive collision with '" ++ field.1 ++ lit "')")
      else do
        let (value, c) ← decode c field.2
        .ok (seen.set place (some value), c)

/-- An object as a STRUCT; a field that is not given is NULL. -/
def decodeStruct (c : Cursor) (expected : LogicalType) : Except Bytes (Value × Cursor) :=
  match expected with
  | .struct fs => do
      let fields := fs.toList
      let c ← consumeChar 0x7B c
      let (seen, c) ← readAll 0x7D (structMember text decode fields expected)
        (List.replicate fields.length none) c
      -- a missing field is NULL, an extra one has been refused
      let values := List.zipWith (fun (field : Bytes × LogicalType) (value : Option Value) =>
        (field.1, value.getD (.null field.2))) fields seen
      let value ← orElse (lit "STRUCT assembly failed: ") (casts.castStruct values expected)
      .ok (value, c)
  | _ =>
      .error (lit "object value cannot coerce to " ++ text.typeToString expected ++
        lit " (use Mode B \x7btype, value\x7d for non-STRUCT)")

/-- One entry of a MAP, `[key, value]`. -/
def mapEntry (key value : LogicalType) (entries : List (Value × Value)) (c : Cursor) :
    Except Bytes (List (Value × Value) × Cursor) := do
  let c ← (consumeChar 0x5B c).mapError fun _ =>
    lit "MAP element must be a 2-element [key, value] pair"
  let (k, c) ← decode c key
  let c ← consumeChar 0x2C c
  let (v, c) ← decode c value
  let c ← (consumeChar 0x5D c).mapError fun _ =>
    lit "MAP element must be exactly [key, value] (extra entries rejected)"
  .ok (entries ++ [(k, v)], c)

/-- One element of a LIST or ARRAY. -/
def listElement (child : LogicalType) (elements : List Value) (c : Cursor) :
    Except Bytes (List Value × Cursor) := do
  let (value, c) ← decode c child
  .ok (elements ++ [value], c)

/-- An array as a LIST, ARRAY or MAP. -/
def decodeArray (c : Cursor) (expected : LogicalType) : Except Bytes (Value × Cursor) :=
  let assembly := lit "LIST/ARRAY/MAP assembly failed: "
  match expected with
  | .list child => do
      let c ← consumeChar 0x5B c
      let (elements, c) ← readAll 0x5D (listElement decode child) [] c
      .ok (← orElse assembly (casts.list child elements), c)
  | .array child size => do
      let c ← consumeChar 0x5B c
      let (elements, c) ← readAll 0x5D (listElement decode child) [] c
      if elements.length ≠ size then
        .error (lit "ARRAY length mismatch (got " ++ decNat elements.length ++ lit ", expected " ++
          decNat size ++ lit ")")
      else .ok (← orElse assembly (casts.array child elements), c)
  | .map key value => do
      let c ← consumeChar 0x5B c
      let (entries, c) ← readAll 0x5D (mapEntry decode key value) [] c
      .ok (← orElse assembly (casts.map key value entries), c)
  | _ =>
      .error (lit "array value cannot coerce to " ++ text.typeToString expected ++
        lit " (expected LIST, ARRAY, or MAP)")

/-! ## Typed wrappers -/

/-- What a wrapper has named so far. -/
structure Wrapper where
  type : Option Bytes := none
  value : Option Bytes := none
  deriving DecidableEq, Repr

/-- One member of a wrapper; unknown ones are skipped. -/
def wrapperMember (w : Wrapper) (c : Cursor) : Except Bytes (Wrapper × Cursor) := do
  let (key, c) ← parseString c
  let c ← consumeChar 0x3A c
  if key = lit "type" then do
    let (s, c) ← parseString c
    .ok ({ w with type := some s }, c)
  else if key = lit "value" then do
    let (raw, c) ← parseRawValue c
    .ok ({ w with value := some raw }, c)
  else do
    let (_, c) ← parseRawValue c
    .ok (w, c)

/-- `DecodeTypedWrapper`. What stands behind the value in its own text is not looked at. -/
def decodeTypedWrapper (c : Cursor) : Except Bytes (Value × Cursor) := do
  let c ← consumeChar 0x7B c
  let (w, c) ← readAll 0x7D wrapperMember {} c
  match w.type, w.value with
  -- the two may come in either order
  | none, _ => .error (lit "Mode B wrapper missing `type`")
  | some _, none => .error (lit "Mode B wrapper missing `value`")
  | some typeString, some raw =>
      match parseType casts.types typeString with
      | .error error =>
          .error (lit "Mode B `type` not recognized: " ++ typeString ++ lit " (" ++ error ++ lit ")")
      | .ok type => do
          let (value, _) ← decode (.start raw) type
          .ok (value, c)

/-- The object is taken for a typed wrapper: its text has both words in quotes somewhere. -/
def looksTyped (c : Cursor) : Bool :=
  match parseRawValue c with
  | .ok (raw, _) => contains raw (lit "\"type\"") && contains raw (lit "\"value\"")
  | .error _ => false

/-! ## One value -/

/-- `DecodeOne`. The number bounds how deep it calls itself. -/
def decodeOne : Nat → Cursor → LogicalType → Except Bytes (Value × Cursor)
  | 0, _, _ => .error (lit "unreachable")
  | depth + 1, c, expected =>
      let c := skipWhitespace c
      match c.rest with
      | [] => .error (lit "expected value")
      | b :: _ =>
          -- a keyword is told by its first letter; what stands behind it is left to the caller
          if b = 0x6E then
            if startsWith c.rest (lit "null") then .ok (.null expected, c.advance 4)
            else .error (lit "expected `null`")
          else if b = 0x74 then
            if startsWith c.rest (lit "true") then do
              .ok (← coerceBool text casts true expected, c.advance 4)
            else .error (lit "expected boolean literal")
          else if b = 0x66 then
            if startsWith c.rest (lit "false") then do
              .ok (← coerceBool text casts false expected, c.advance 5)
            else .error (lit "expected boolean literal")
          else if b = 0x22 then do
            let (s, c) ← parseString c
            .ok (← coerceJsonString text casts s expected, c)
          else if b = 0x2D || isDigit b then do
            -- any run of these bytes, checked only by the cast
            let raw := c.rest.takeWhile isNumberChar
            .ok (← coerceJsonNumber text casts raw expected, c.advance raw.length)
          else if b = 0x7B then
            -- Mode B goes first: the expected type does not matter there
            if looksTyped c then decodeTypedWrapper casts (decodeOne depth) c
            else decodeStruct text casts (decodeOne depth) c expected
          else if b = 0x5B then decodeArray text casts (decodeOne depth) c expected
          else
            .error (lit "unexpected character '" ++ [b] ++ lit "' at byte " ++ decNat c.pos)

/-! ## A list of parameters -/

/-- One parameter, at the type that is expected at its place. -/
def parameter (expectedTypes : List LogicalType) (values : List Value) (c : Cursor) :
    Except Bytes (List Value × Cursor) :=
  if expectedTypes ≠ [] ∧ expectedTypes.length ≤ values.length then
    .error (lit "more parameters than prepared statement expects (" ++
      decNat expectedTypes.length ++ lit ")")
  else do
    -- without expected types a parameter is `ANY`
    let (value, c) ← decode c (expectedTypes.getD values.length .any)
    .ok (values ++ [value], c)

/-- `SqlParamDecoder::Decode`. -/
def decodeParams (paramsJson : Bytes) (expectedTypes : List LogicalType) :
    Except Bytes (List Value) :=
  let expects := lit "prepared statement expects " ++ decNat expectedTypes.length
  let trimmed := ((paramsJson.reverse.dropWhile Json.isWs).reverse).dropWhile Json.isWs
  if trimmed = [] ∨ trimmed = lit "[]" then
    if expectedTypes = [] then .ok [] else .error (expects ++ lit " parameter(s); none provided")
  else do
    -- what stands behind the closing bracket is not looked at
    let c ← consumeChar 0x5B (.start trimmed)
    let (values, _) ← readAll 0x5D
      (parameter (decodeOne text casts (trimmed.length + 1)) expectedTypes) [] c
    if expectedTypes ≠ [] ∧ values.length ≠ expectedTypes.length then
      .error (expects ++ lit " parameter(s); got " ++ decNat values.length)
    else .ok values

end ParamDecoder

end Harbor
