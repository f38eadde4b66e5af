import Harbor.Sql.Types

set_option autoImplicit false

/-! # Type strings

`ParseLogicalType` reads the type of a typed parameter, `{"type": ..., "value": ...}`: scalar names,
`DECIMAL(width,scale)`, `LIST<T>`, `ARRAY<T,N>`, `MAP<K,V>` and `STRUCT(name type, ...)`. It normalises
the white space of its input, looks at the keyword, finds the matching bracket, splits at the commas
outside of all brackets, and calls itself on the pieces. Which DECIMALs and ARRAYs there are is DuckDB's
choice, the parameter `DuckTypes`.
-/

namespace Harbor

/-- Whether DuckDB's constructors of the types with numbers return; an exception is an error of the parser. -/
structure DuckTypes where
  /-- `LogicalType::DECIMAL(width, scale)`. -/
  decimal : Nat → Nat → Bool
  /-- `LogicalType::ARRAY(child, size)`. -/
  array : LogicalType → Nat → Bool

/-- A DECIMAL has 38 digits at most, and the largest number stands for no size. -/
def DuckTypes.documented : DuckTypes where
  decimal width _ := width ≤ 38
  array _ size := size ≠ 2 ^ 64 - 1

namespace ParamDecoder

open Bytes

variable (types : DuckTypes)

/-- `kMaxTypeNesting`. -/
def kMaxTypeNesting : Nat := 32

/-- `kMaxTypeStringLength`. -/
def kMaxTypeStringLength : Nat := 4096

/-! ## Brackets and commas -/

/-- The change of depth at a byte. -/
def isOpen (b : UInt8) : Bool := b == 0x28 || b == 0x3C

def isClose (b : UInt8) : Bool := b == 0x29 || b == 0x3E

/-- `FindMatchingBracket` from some depth on: what is before the bracket that closes, and what is behind
it. Both kinds of brackets are counted. -/
def findMatchingBracket (closeCh : UInt8) : Int → Bytes → Option (Bytes × Bytes)
  | _, [] => none
  | depth, b :: s =>
      if isOpen b then (findMatchingBracket closeCh (depth + 1) s).map fun p => (b :: p.1, p.2)
      else if isClose b then
        -- a bracket of the other kind can take the depth to zero too, but does not match
        if depth - 1 = 0 ∧ b = closeCh then some ([], s)
        else (findMatchingBracket closeCh (depth - 1) s).map fun p => (b :: p.1, p.2)
      else (findMatchingBracket closeCh depth s).map fun p => (b :: p.1, p.2)

/-- The segments of `SplitTopLevelCommas`, not yet trimmed: the one that has begun and the others. -/
def splitSegments : Int → Int → Bytes → Bytes × List Bytes
  | _, _, [] => ([], [])
  | angle, paren, b :: s =>
      if b = 0x2C ∧ angle = 0 ∧ paren = 0 then
        let (segment, segments) := splitSegments angle paren s
        ([], segment :: segments)
      else
        let angle := if b = 0x3C then angle + 1 else if b = 0x3E then angle - 1 else angle
        let paren := if b = 0x28 then paren + 1 else if b = 0x29 then paren - 1 else paren
        let (segment, segments) := splitSegments angle paren s
        (b :: segment, segments)

/-- `SplitTopLevelCommas`: the last segment is left out when it is empty. -/
def splitTopLevelCommas (s : Bytes) : List Bytes :=
  let (segment, segments) := splitSegments 0 0 s
  let all := segment :: segments
  (if all.getLast? = some [] then all.dropLast else all).map trim

/-! ## Scalars -/

/-- The names of `ParseSimpleLogicalType`. -/
def simpleTypeNames : List (Bytes × ScalarType) :=
  [(lit "BOOLEAN", .boolean), (lit "TINYINT", .tinyint), (lit "SMALLINT", .smallint),
    (lit "INTEGER", .integer), (lit "INT", .integer), (lit "BIGINT", .bigint),
    (lit "HUGEINT", .hugeint), (lit "UTINYINT", .utinyint), (lit "USMALLINT", .usmallint),
    (lit "UINTEGER", .uinteger), (lit "UBIGINT", .ubigint), (lit "UHUGEINT", .uhugeint),
    (lit "FLOAT", .float), (lit "DOUBLE", .double), (lit "VARCHAR", .varchar),
    (lit "STRING", .varchar), (lit "UUID", .uuid), (lit "DATE", .date), (lit "TIME", .time),
    (lit "TIMETZ", .timeTz), (lit "TIME WITH TIME ZONE", .timeTz), (lit "TIMESTAMP", .timestamp),
    (lit "TIMESTAMP_S", .timestampSec), (lit "TIMESTAMP_MS", .timestampMs),
    (lit "TIMESTAMP_NS", .timestampNs), (lit "TIMESTAMPTZ", .timestampTz),
    (lit "TIMESTAMP WITH TIME ZONE", .timestampTz), (lit "INTERVAL", .interval),
    (lit "BLOB", .blob), (lit "BIT", .bit)]

/-- `DECIMAL(width,scale)`, from behind the `(` on. The numbers are narrowed to `uint8_t`. -/
def parseDecimal (s : Bytes) : Except Bytes LogicalType :=
  match s.span (· ≠ 0x2C) with
  | (_, []) => .error (lit "DECIMAL type must be DECIMAL(width,scale)")
  | (width, _ :: s) =>
      match s.span (· ≠ 0x29) with
      | (_, []) => .error (lit "DECIMAL type must be DECIMAL(width,scale)")
      | (scale, _ :: _) =>
          match stoull width, stoull scale with
          | some w, some s =>
              if types.decimal (w % 256) (s % 256) then .ok (.decimal (w % 256) (s % 256))
              else .error (lit "DECIMAL width/scale must be integers")
          | _, _ => .error (lit "DECIMAL width/scale must be integers")

/-- `ParseSimpleLogicalType`. -/
def parseSimpleLogicalType (input : Bytes) : Except Bytes LogicalType :=
  let s := trim (upper input)
  match simpleTypeNames.lookup s with
  | some id => .ok (.scalar id)
  | none =>
      if startsWith s (lit "DECIMAL(") then parseDecimal types (s.drop 8)
      else .error (lit "unsupported Mode B scalar type '" ++ input ++ lit "'")

/-! ## Nested types -/

/-- The bytes next to which white space is dropped. -/
def isSpecial (b : UInt8) : Bool := isOpen b || isClose b || b == 0x2C

/-- The loop that normalises white space: `last` is what was written last. -/
def normalizeFrom (last : Option UInt8) : Bytes → Bytes
  | [] => []
  | b :: s =>
      if isSpace b then
        match s with
        | [] => []
        | next :: _ =>
            -- of a run the last byte decides, by what stands on both sides of it
            if isSpace next then normalizeFrom last s
            else if last.all isSpecial || isSpecial next then normalizeFrom last s
            else 0x20 :: normalizeFrom (some 0x20) s
      else b :: normalizeFrom (some b) s

/-- White space at the ends and around brackets and commas is dropped, other runs become one blank. -/
def normalize (input : Bytes) : Bytes := normalizeFrom none input

/-- `parse_bracketed_args`: what is between the brackets of `name`, whose keyword has `headerLen`
bytes. -/
def bracketedArgs (name : Bytes) (headerLen : Nat) (openCh closeCh : UInt8) (s : Bytes) :
    Except Bytes Bytes :=
  if s.length < headerLen + 2 then .error (name ++ lit " missing arguments")
  else if (s.drop headerLen).head? ≠ some openCh then
    .error (name ++ lit " expected '" ++ [openCh] ++ lit "' after keyword")
  else
    match findMatchingBracket closeCh 0 (s.drop headerLen) with
    | none => .error (name ++ lit " unbalanced '" ++ [openCh] ++ lit "'/'" ++ [closeCh] ++ lit "'")
    | some (inside, behind) =>
        if behind.dropWhile isSpace ≠ [] then
          .error (name ++ lit " has trailing garbage after closing bracket")
        else .ok inside.tail

/-- `[a-zA-Z_][a-zA-Z0-9_]*`. -/
def isIdentifier : Bytes → Bool
  | [] => false
  | b :: s => (isAlpha b || b == 0x5F) && s.all fun b => isAlpha b || isDigit b || b == 0x5F

/-- The checks of a field name. -/
def checkFieldName (name : Bytes) : Except Bytes Unit :=
  if (name.head?.any fun b => isAlpha b || b == 0x5F) = false then
    .error (lit "STRUCT field name '" ++ name ++ lit "' must match [a-zA-Z_][a-zA-Z0-9_]*")
  else if (name.all fun b => isAlpha b || isDigit b || b == 0x5F) = false then
    .error (lit "STRUCT field name '" ++ name ++ lit "' contains invalid character")
  else .ok ()

/-- The loop over the fields of a STRUCT. -/
def parseFields (parse : Bytes → Except Bytes LogicalType) : List Bytes → Except Bytes Fields
  | [] => .ok .nil
  | field :: fields =>
      match field.span fun b => b ≠ 0x20 && b ≠ 0x09 with
      | (_, []) => .error (lit "STRUCT field '" ++ field ++ lit "' missing type")
      | (name, _ :: typePart) => do
          let name := trim name
          checkFieldName name
          let type ← parse (trim typePart)
          let rest ← parseFields parse fields
          .ok (.cons name type rest)

/-- `ParseLogicalType`; `levels` is how many more levels of nesting are allowed. -/
def parseLogicalType : (levels : Nat) → Bytes → Except Bytes LogicalType
  | 0, _ =>
      .error (lit "type string nested more than " ++ decNat kMaxTypeNesting ++ lit " levels deep")
  | levels + 1, input =>
      if kMaxTypeStringLength < input.length then
        .error (lit "type string longer than " ++ decNat kMaxTypeStringLength ++ lit " bytes")
      else
        -- the keyword is looked for without regard to case, the arguments keep theirs
        let s := normalize input
        let keyword := upper s
        if s = [] then .error (lit "empty type string")
        else if startsWith keyword (lit "LIST<") then do
          let inner ← bracketedArgs (lit "LIST<...>") 4 0x3C 0x3E s
          let child ← parseLogicalType levels inner
          .ok (.list child)
        else if startsWith keyword (lit "ARRAY<") then do
          let inner ← bracketedArgs (lit "ARRAY<T,N>") 5 0x3C 0x3E s
          match splitTopLevelCommas inner with
          | [element, length] =>
              let child ← parseLogicalType levels element
              match stoull length with
              | none =>
                  .error (lit "ARRAY<T,N> length '" ++ length ++ lit "' is not a positive integer")
              | some n =>
                  if n = 0 then .error (lit "ARRAY<T,N> length must be > 0")
                  else if types.array child n then .ok (.array child n)
                  else .error (lit "ARRAY<T,N> length '" ++ length ++ lit "' is not a positive integer")
          | _ => .error (lit "ARRAY<T,N> requires exactly two arguments (element type and length)")
        else if startsWith keyword (lit "MAP<") then do
          let inner ← bracketedArgs (lit "MAP<K,V>") 3 0x3C 0x3E s
          match splitTopLevelCommas inner with
          | [key, value] =>
              let key ← parseLogicalType levels key
              let value ← parseLogicalType levels value
              .ok (.map key value)
          | _ => .error (lit "MAP<K,V> requires exactly two type arguments (key and value)")
        else if startsWith keyword (lit "STRUCT(") then do
          let inner ← bracketedArgs (lit "STRUCT(...)") 6 0x28 0x29 s
          let fields := splitTopLevelCommas inner
          if fields = [] then .error (lit "STRUCT(...) requires at least one field")
          else do
            let children ← parseFields (parseLogicalType levels) fields
            .ok (.struct children)
        else if startsWith keyword (lit "UNION(") then
          .error (lit "UNION(...) is not supported in Mode B for v0.1; use STRUCT to model tagged variants")
        else parseSimpleLogicalType types s

/-- `ParseLogicalType` as the typed wrapper calls it. -/
def parseType (typeString : Bytes) : Except Bytes LogicalType :=
  parseLogicalType types (kMaxTypeNesting + 1) typeString

end ParamDecoder

end Harbor
