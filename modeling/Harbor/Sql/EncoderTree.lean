import Harbor.Sql.Encoder

set_option autoImplicit false

/-! # The encoder as a function to JSON trees

What the encoder's calls on the writer add up to. `schemaJson`, `valueJson` and the record trees
below them are the same case analyses as in the encoder, but with a tree as their result;
`emitColumnSchema_eq`, `emitValue_eq` and their siblings say that the encoder drives the writer
over exactly that tree, or throws where the tree has no value. The later modules reason about
trees only.
-/

namespace Harbor.Encoder

open Json

variable (text : DuckText)

/-! ## Schemas -/

def schemaHead (type : LogicalType) (name : Bytes) : List (Bytes × Json) :=
  (if name = [] then [] else [(lit "name", str name)]) ++
    [(lit "duckdbType", str (text.typeToString type))]

mutual

/-- The schema record of a column. -/
def schemaJson : LogicalType → Bytes → Json
  | .decimal width scale, name => obj (schemaHead text (.decimal width scale) name ++
      [(lit "lossless", .bool true),
        (lit "decimal", obj [(lit "width", num (Bytes.decInt width)),
          (lit "scale", num (Bytes.decInt scale))])])
  | .list child, name => obj (schemaHead text (.list child) name ++
      [(lit "lossless", .bool true), (lit "child", schemaJson child [])])
  | .array child size, name => obj (schemaHead text (.array child size) name ++
      [(lit "lossless", .bool true), (lit "arrayLength", num (Bytes.decInt size)),
        (lit "child", schemaJson child [])])
  | .struct fields, name => obj (schemaHead text (.struct fields) name ++
      [(lit "lossless", .bool true), (lit "fields", arr (fieldSchemas fields))])
  | .map key value, name => obj (schemaHead text (.map key value) name ++
      [(lit "lossless", .bool true), (lit "keyType", schemaJson key []),
        (lit "valueType", schemaJson value []), (lit "encoding", str (lit "pairs"))])
  | .union members, name => obj (schemaHead text (.union members) name ++
      [(lit "lossless", .bool true), (lit "members", arr (fieldSchemas members))])
  | .enum labels, name => obj (schemaHead text (.enum labels) name ++
      [(lit "lossless", .bool true), (lit "values", arr (labels.map str))])
  | .scalar id, name => obj (schemaHead text (.scalar id) name ++ [(lit "lossless", .bool true)])
  | .other id, name => obj (schemaHead text (.other id) name ++
      [(lit "lossless", .bool false), (lit "encoding", str (lit "varchar-cast"))])

def fieldSchemas : Fields → List Json
  | .nil => []
  | .cons name type rest => schemaJson type name :: fieldSchemas rest

end

theorem fieldSchemas_eq_map (fs : Fields) :
    fieldSchemas text fs = fs.toList.map fun f => schemaJson text f.2 f.1 := by
  induction fs using Fields.induction with
  | nil => rfl
  | cons n t fs ih => rw [fieldSchemas, ih, Fields.toList, List.map_cons]

/-! ## Values -/

def doubleJson : Double → Json
  | .nan => str (lit "NaN")
  | .inf neg => str (if neg then lit "-Infinity" else lit "Infinity")
  | .finite d => num (text.formatDouble d)

def jsonSafe (safe : Int → Bool) (v : Int) : Json :=
  if safe v then num (Bytes.decInt v) else str (Bytes.decInt v)

def intervalJson (months days micros : Int) : Json :=
  obj [(lit "months", num (Bytes.decInt months)), (lit "days", num (Bytes.decInt days)),
    (lit "micros", str (Bytes.decInt micros))]

/-- The trees of the cases of `emitScalar`. -/
def scalarJson (id : ScalarType) (v : Value) : Except Bytes Json :=
  match id with
  | .boolean => do .ok (.bool (← getBool v))
  | .tinyint | .smallint | .integer => do .ok (num (Bytes.decInt (← getInt v)))
  | .utinyint | .usmallint | .uinteger => do .ok (num (Bytes.decNat (← getInt v).toNat))
  | .bigint => do .ok (jsonSafe isJsonSafeInteger (← getInt v))
  | .ubigint => do .ok (jsonSafe isJsonSafeUnsigned (← getInt v))
  | .hugeint => do
      .ok (jsonSafe (fun v => (-2 ^ 63 ≤ v && v < 2 ^ 63) && isJsonSafeInteger v) (← getInt v))
  | .uhugeint => do
      .ok (jsonSafe (fun v => (0 ≤ v && v < 2 ^ 64) && isJsonSafeUnsigned v) (← getInt v))
  | .float | .double => do .ok (doubleJson text (← getDouble v))
  | .varchar => do .ok (str (← getString v))
  | .uuid => do .ok (str (text.uuidToString (← getInt v)))
  | .date => do .ok (str (text.dateToString (← getInt v)))
  | .time => do .ok (str (text.timeToString (← getInt v)))
  | .timeTz => do
      let (micros, offset) ← getTimeTz v
      .ok (str (timeTzToString text micros offset))
  | .timestamp => do .ok (str (timestampToIsoNaive text (← getInt v)))
  | .timestampSec => do .ok (str (← timestampSecToIso text (← getInt v)))
  | .timestampMs => do .ok (str (← timestampMsToIso text (← getInt v)))
  | .timestampNs => do .ok (str (timestampNsToIso text (← getInt v)))
  | .timestampTz => do .ok (str (timestampTzToIsoUtc text (← getInt v)))
  | .interval => do
      let (months, days, micros) ← getInterval v
      .ok (intervalJson months days micros)
  | .blob => do .ok (str (Base64.encode (← getString v)))
  | .bit => do .ok (str (text.bitToString (← getString v)))
  | .sqlNull => .ok null

def nullOr (v : Value) (k : Except Bytes Json) : Except Bytes Json :=
  if v.isNull then .ok null else k

mutual

/-- The JSON of a value. -/
def valueJson : LogicalType → Value → Except Bytes Json
  | .scalar id, v => nullOr v (scalarJson text id v)
  | .decimal width scale, v => nullOr v do
      .ok (str (text.decimalToString (← getInt v) width scale))
  | .list child, v => nullOr v do
      .ok (arr (← (← getChildren v).mapM fun elem => valueJson child elem))
  | .array child _, v => nullOr v do
      .ok (arr (← (← getChildren v).mapM fun elem => valueJson child elem))
  | .struct fields, v => nullOr v do .ok (obj (← fieldsJson fields (← getChildren v)))
  | .map key value, v => nullOr v do
      .ok (arr (← (← getChildren v).mapM fun entry => do
        let kv ← getChildren entry
        let k ← valueJson key (← getChild kv 0)
        let w ← valueJson value (← getChild kv 1)
        .ok (arr [k, w])))
  | .union members, v => nullOr v do
      let children ← getChildren v
      let tag ← getInt (← getChild children 0)
      let member ← getChild children (tag.toNat + 1)
      memberJson members tag.toNat member
  | .enum labels, v => nullOr v do
      match labels[(← getInt v).toNat]? with
      | some label => .ok (str label)
      | none => .error typeMismatch
  | .other _, v => nullOr v (.ok (str (text.otherToString v)))

def fieldsJson : Fields → List Value → Except Bytes (List (Bytes × Json))
  | .nil, _ => .ok []
  | .cons _ _ _, [] => .ok []
  | .cons name type rest, v :: vs => do
      let j ← valueJson type v
      .ok ((name, j) :: (← fieldsJson rest vs))

def memberJson : Fields → Nat → Value → Except Bytes Json
  | .nil, _, _ => .error typeMismatch
  | .cons name type _, 0, v => do
      .ok (obj [(lit "tag", str name), (lit "value", ← valueJson type v)])
  | .cons _ _ rest, tag + 1, v => memberJson rest tag v

end

/-! ## Rows and records -/

def cellsJson : Columns → List Value → Except Bytes (List Json)
  | [], _ => .ok []
  | _ :: _, [] => .error typeMismatch
  | column :: columns, v :: row => do
      .ok ((← valueJson text column.2 v) :: (← cellsJson columns row))

/-- The array of the values of a row. -/
def valuesJson (columns : Columns) (row : List Value) : Except Bytes Json := do
  .ok (arr (← cellsJson text columns row))

def rowJson (columns : Columns) (row : List Value) : Except Bytes Json := do
  .ok (obj [(lit "type", str (lit "row")), (lit "values", ← valuesJson text columns row)])

def chunkJson (columns : Columns) (chunk : DataChunk) : Except Bytes Json := do
  .ok (obj [(lit "type", str (lit "chunk")),
    (lit "rows", arr (← chunk.mapM fun row => valuesJson text columns row))])

def sessionIdJson (sessionId : Bytes) : List (Bytes × Json) :=
  if sessionId = [] then [] else [(lit "sessionId", str sessionId)]

def columnsJson (columns : Columns) : Json :=
  arr (columns.map fun column => schemaJson text column.2 column.1)

def schemaRecordJson (columns : Columns) (sessionId : Bytes) : Json :=
  obj ((lit "type", str (lit "schema")) :: sessionIdJson sessionId ++
    [(lit "columns", columnsJson text columns)])

def endJson (rowCount : Nat) (timeMs : Int) (truncated : Bool) : Json :=
  obj ([(lit "type", str (lit "end")), (lit "rowCount", num (Bytes.decNat rowCount)),
    (lit "timeMs", num (Bytes.decInt timeMs))] ++
    if truncated then [(lit "truncated", .bool true)] else [])

def errorJson (code message : Bytes) : Json :=
  obj [(lit "type", str (lit "error")), (lit "code", str code), (lit "message", str message)]

def oneShotJson (columns : Columns) (sessionId kind : Bytes) (chunks : List DataChunk)
    (rowCount : Nat) (timeMs : Int) : Except Bytes Json := do
  .ok (obj ([(lit "ok", .bool true), (lit "kind", str kind)] ++ sessionIdJson sessionId ++
    [(lit "columns", columnsJson text columns),
      (lit "data", arr (← chunks.flatten.mapM fun row => valuesJson text columns row)),
      (lit "rowCount", num (Bytes.decNat rowCount)), (lit "timeMs", num (Bytes.decInt timeMs))]))

def oneShotWriteJson (sessionId : Bytes) (affected : Nat) (timeMs : Int) : Json :=
  obj ([(lit "ok", .bool true), (lit "kind", str (lit "write"))] ++ sessionIdJson sessionId ++
    [(lit "rowCount", num (Bytes.decNat affected)), (lit "timeMs", num (Bytes.decInt timeMs))])

/-! ## The encoder writes the tree -/

theorem writeMembers_append (ms ns : List (Bytes × Json)) (out : JsonWriter) :
    writeMembers out (ms ++ ns) = writeMembers (writeMembers out ms) ns := by
  induction ms generalizing out with
  | nil => rfl
  | cons m ms ih => exact ih (writeMember out m)

theorem emitSchemaHead_eq (type : LogicalType) (name : Bytes) (out : JsonWriter) :
    emitSchemaHead text type name out =
      writeMembers out.beginObject (schemaHead text type name) := by
  rw [emitSchemaHead, schemaHead]
  split_ifs <;> rfl

theorem foldl_string (labels : List Bytes) (out : JsonWriter) :
    labels.foldl JsonWriter.string out = writeElements out (labels.map str) := by
  induction labels generalizing out with
  | nil => rfl
  | cons l labels ih => exact ih (out.string l)

/-- **The encoder writes the schema tree.** -/
theorem emitColumnSchema_eq (t : LogicalType) : ∀ name out,
    emitColumnSchema text t name out = write out (schemaJson text t name) := by
  induction t using LogicalType.induction
    (Q := fun fs => ∀ out, emitFieldSchemas text fs out = writeElements out (fieldSchemas text fs)) with
  | scalar id =>
      intro name out
      simp only [emitColumnSchema, emitSchemaHead_eq, schemaJson, write, writeMembers_append]
      rfl
  | decimal w s =>
      intro name out
      simp only [emitColumnSchema, emitSchemaHead_eq, schemaJson, write, writeMembers_append]
      rfl
  | list c ih =>
      intro name out
      simp only [emitColumnSchema, emitSchemaHead_eq, schemaJson, write, writeMembers_append, ih]
      rfl
  | array c n ih =>
      intro name out
      simp only [emitColumnSchema, emitSchemaHead_eq, schemaJson, write, writeMembers_append, ih]
      rfl
  | struct fs ih =>
      intro name out
      simp only [emitColumnSchema, emitSchemaHead_eq, schemaJson, write, writeMembers_append, ih]
      rfl
  | map k v ihk ihv =>
      intro name out
      simp only [emitColumnSchema, emitSchemaHead_eq, schemaJson, write, writeMembers_append, ihk, ihv]
      rfl
  | union ms ih =>
      intro name out
      simp only [emitColumnSchema, emitSchemaHead_eq, schemaJson, write, writeMembers_append, ih]
      rfl
  | enum ls =>
      intro name out
      simp only [emitColumnSchema, emitSchemaHead_eq, schemaJson, write, writeMembers_append,
        foldl_string]
      rfl
  | other n =>
      intro name out
      simp only [emitColumnSchema, emitSchemaHead_eq, schemaJson, write, writeMembers_append]
      rfl
  | nil => rfl
  | cons n t fs iht ihfs =>
      simp only [emitFieldSchemas, fieldSchemas, writeElements, iht, ihfs]

/-- A conversion followed by writing its result. -/
theorem map_bind {α β γ : Type} (x : Except Bytes α) (f : α → Except Bytes β) (g : β → γ) :
    (x >>= f).map g = x >>= fun a => (f a).map g := by
  cases x <;> rfl

theorem bind_map {α β γ : Type} (x : Except Bytes α) (f : α → β) (g : β → Except Bytes γ) :
    x.map f >>= g = x >>= fun a => g (f a) := by
  cases x <;> rfl

/-- A loop that writes one element after another writes the list of their trees. -/
theorem foldlM_write {α : Type} {f : α → Except Bytes Json}
    {g : JsonWriter → α → Except Bytes JsonWriter} (h : ∀ a out, g out a = (f a).map (write out)) :
    ∀ (as : List α) (out : JsonWriter),
      as.foldlM g out = (as.mapM f).map (writeElements out) := by
  intro as
  induction as with
  | nil => exact fun _ => rfl
  | cons a as ih =>
      intro out
      rw [List.foldlM_cons, List.mapM_cons, h, bind_map, map_bind]
      simp only [ih, map_bind]
      rfl

theorem unlessNull_eq {v : Value} {out : JsonWriter} {k : Except Bytes JsonWriter}
    {j : Except Bytes Json} (h : k = j.map (write out)) :
    unlessNull v out k = (nullOr v j).map (write out) := by
  rw [unlessNull, nullOr]
  split_ifs
  · rfl
  · exact h

theorem emitJsonSafe_eq (safe : Int → Bool) (v : Int) (out : JsonWriter) :
    emitJsonSafe safe v out = write out (jsonSafe safe v) := by
  rw [emitJsonSafe, jsonSafe]
  split_ifs <;> rfl

theorem double_eq (d : Double) (out : JsonWriter) :
    out.double text.formatDouble d = write out (doubleJson text d) := by
  cases d with
  | nan => rfl
  | inf neg => cases neg <;> rfl
  | finite d => rfl

theorem emitScalar_eq (id : ScalarType) (v : Value) (out : JsonWriter) :
    emitScalar text id v out = (scalarJson text id v).map (write out) := by
  cases id with
  | sqlNull => rfl
  | bigint | ubigint | hugeint | uhugeint =>
      simp only [emitScalar, scalarJson, map_bind, emitJsonSafeInt64OrString,
        emitJsonSafeUint64OrString, emitJsonSafeHugeintOrString, emitJsonSafeUhugeintOrString,
        emitJsonSafe_eq]
      rfl
  | float | double =>
      simp only [emitScalar, scalarJson, map_bind, double_eq]
      rfl
  | _ =>
      simp only [emitScalar, scalarJson, map_bind]
      rfl

/-- **The encoder writes the tree of the value**, or throws where it has none. -/
theorem emitValue_eq (t : LogicalType) : ∀ v out,
    emitValue text t v out = (valueJson text t v).map (write out) := by
  induction t using LogicalType.induction
    (Q := fun fs => (∀ vs out, emitFields text fs vs out =
        (fieldsJson text fs vs).map (writeMembers out)) ∧
      ∀ tag v out, emitMember text fs tag v out = (memberJson text fs tag v).map (write out)) with
  | scalar id => exact fun v out => unlessNull_eq (emitScalar_eq text id v out)
  | decimal w s =>
      intro v out
      refine unlessNull_eq ?_
      rw [map_bind]
      rfl
  | list c ih =>
      intro v out
      refine unlessNull_eq ?_
      simp only [foldlM_write ih, map_bind, bind_map]
      rfl
  | array c n ih =>
      intro v out
      refine unlessNull_eq ?_
      simp only [foldlM_write ih, map_bind, bind_map]
      rfl
  | struct fs ih =>
      intro v out
      refine unlessNull_eq ?_
      simp only [ih.1, map_bind, bind_map]
      rfl
  | map k v ihk ihv =>
      intro w out
      refine unlessNull_eq ?_
      -- a MAP is written as an array of pairs
      have hentry : ∀ entry out, (do
          let kv ← getChildren entry
          let out ← emitValue text k (← getChild kv 0) out.beginArray
          let out ← emitValue text v (← getChild kv 1) out
          Except.ok out.endArray) = (do
          let kv ← getChildren entry
          let k ← valueJson text k (← getChild kv 0)
          let w ← valueJson text v (← getChild kv 1)
          Except.ok (arr [k, w])).map (write out) := by
        intro entry out
        simp only [ihk, ihv, map_bind, bind_map]
        rfl
      simp only [foldlM_write hentry, map_bind, bind_map]
      rfl
  | union ms ih =>
      intro v out
      refine unlessNull_eq ?_
      simp only [ih.2, map_bind]
  | enum ls =>
      intro v out
      refine unlessNull_eq ?_
      rw [map_bind]
      congr 1
      funext i
      cases ls[i.toNat]? <;> rfl
  | other n => exact fun v out => unlessNull_eq rfl
  | nil => exact ⟨fun _ _ => rfl, fun _ _ _ => rfl⟩
  | cons n t fs iht ihfs =>
      refine ⟨fun vs out => ?_, fun tag v out => ?_⟩
      · cases vs with
        | nil => rfl
        | cons v vs =>
            simp only [emitFields, fieldsJson, iht, ihfs.1, map_bind, bind_map]
            rfl
      · cases tag with
        | zero =>
            simp only [emitMember, memberJson, iht, map_bind, bind_map]
            rfl
        | succ tag => exact ihfs.2 tag v out

theorem emitCells_eq (columns : Columns) (row : List Value) (out : JsonWriter) :
    emitCells text columns row out = (cellsJson text columns row).map (writeElements out) := by
  induction columns generalizing row out with
  | nil => rfl
  | cons column columns ih =>
      cases row with
      | nil => rfl
      | cons v row =>
          simp only [emitCells, cellsJson, emitValue_eq, ih, map_bind, bind_map]
          rfl

theorem emitValuesArray_eq (columns : Columns) (row : List Value) (out : JsonWriter) :
    emitValuesArray text columns row out = (valuesJson text columns row).map (write out) := by
  simp only [emitValuesArray, valuesJson, emitCells_eq, map_bind, bind_map]
  rfl

theorem emitRow_eq (columns : Columns) (row : List Value) (out : JsonWriter) :
    emitRow text columns row out = (rowJson text columns row).map (write out) := by
  simp only [emitRow, rowJson, emitValuesArray_eq, map_bind, bind_map]
  rfl

theorem emitChunk_eq (columns : Columns) (chunk : DataChunk) (out : JsonWriter) :
    emitChunk text columns chunk out = (chunkJson text columns chunk).map (write out) := by
  simp only [emitChunk, chunkJson, foldlM_write (emitValuesArray_eq text columns), map_bind, bind_map]
  rfl

theorem emitSessionId_eq (sessionId : Bytes) (out : JsonWriter) :
    emitSessionId sessionId out = writeMembers out (sessionIdJson sessionId) := by
  rw [emitSessionId, sessionIdJson]
  split_ifs <;> rfl

theorem emitColumns_eq (columns : Columns) (out : JsonWriter) :
    emitColumns text columns out = write (out.key (lit "columns")) (columnsJson text columns) := by
  have hloop : ∀ out, columns.foldl (fun out column => emitColumnSchema text column.2 column.1 out) out =
      writeElements out (columns.map fun column => schemaJson text column.2 column.1) := by
    induction columns with
    | nil => exact fun _ => rfl
    | cons column columns ih =>
        intro out
        rw [List.foldl_cons, emitColumnSchema_eq, ih]
        rfl
  simp only [emitColumns, columnsJson, hloop, write]

theorem emitSchema_eq (columns : Columns) (sessionId : Bytes) (out : JsonWriter) :
    emitSchema text columns sessionId out = write out (schemaRecordJson text columns sessionId) := by
  simp only [emitSchema, schemaRecordJson, emitSessionId_eq, emitColumns_eq, write, writeMembers,
    writeMembers_append, List.cons_append]
  rfl

theorem emitEnd_eq (rowCount : Nat) (timeMs : Int) (truncated : Bool) (out : JsonWriter) :
    emitEnd rowCount timeMs truncated out = write out (endJson rowCount timeMs truncated) := by
  cases truncated <;> rfl

theorem emitError_eq (code message : Bytes) (out : JsonWriter) :
    emitError code message out = write out (errorJson code message) := rfl

theorem emitOneShot_eq (columns : Columns) (sessionId kind : Bytes) (chunks : List DataChunk)
    (rowCount : Nat) (timeMs : Int) (out : JsonWriter) :
    emitOneShot text columns sessionId kind chunks rowCount timeMs out =
      (oneShotJson text columns sessionId kind chunks rowCount timeMs).map (write out) := by
  simp only [emitOneShot, oneShotJson, foldlM_write (emitValuesArray_eq text columns),
    emitSessionId_eq, emitColumns_eq, map_bind, bind_map]
  congr 1
  funext rows
  simp only [Except.map, write, writeMembers_append]
  rfl

theorem emitOneShotWrite_eq (sessionId : Bytes) (affected : Nat) (timeMs : Int) (out : JsonWriter) :
    emitOneShotWrite sessionId affected timeMs out =
      write out (oneShotWriteJson sessionId affected timeMs) := by
  simp only [emitOneShotWrite, oneShotWriteJson, emitSessionId_eq, write, writeMembers_append]
  rfl

/-! ## When a value has a tree -/

section Leaf

variable {t : LogicalType} {d : Datum} {α : Type} {a : α}

theorem of_getBool {f : Bool → Except Bytes α} (h : (getBool (.leaf t d) >>= f) = .ok a) :
    ∃ b, d = .bool b ∧ f b = .ok a := by
  cases d with
  | bool b => exact ⟨b, rfl, h⟩
  | _ => cases h

theorem of_getInt {f : Int → Except Bytes α} (h : (getInt (.leaf t d) >>= f) = .ok a) :
    ∃ i, d = .int i ∧ f i = .ok a := by
  cases d with
  | int i => exact ⟨i, rfl, h⟩
  | _ => cases h

theorem of_getDouble {f : Double → Except Bytes α} (h : (getDouble (.leaf t d) >>= f) = .ok a) :
    ∃ x, d = .double x ∧ f x = .ok a := by
  cases d with
  | double x => exact ⟨x, rfl, h⟩
  | _ => cases h

theorem of_getString {f : Bytes → Except Bytes α} (h : (getString (.leaf t d) >>= f) = .ok a) :
    ∃ s, d = .str s ∧ f s = .ok a := by
  cases d with
  | str s => exact ⟨s, rfl, h⟩
  | _ => cases h

theorem of_getTimeTz {f : Int × Int → Except Bytes α} (h : (getTimeTz (.leaf t d) >>= f) = .ok a) :
    ∃ micros offset, d = .timeTz micros offset ∧ f (micros, offset) = .ok a := by
  cases d with
  | timeTz micros offset => exact ⟨micros, offset, rfl, h⟩
  | _ => cases h

theorem of_getInterval {f : Int × Int × Int → Except Bytes α} (h : (getInterval (.leaf t d) >>= f) = .ok a) :
    ∃ months days micros, d = .interval months days micros ∧ f (months, days, micros) = .ok a := by
  cases d with
  | interval months days micros => exact ⟨months, days, micros, rfl, h⟩
  | _ => cases h

end Leaf

theorem bind_ok_eq {α β : Type} {x : Except Bytes α} {f : α → β} {b : β} :
    (x >>= fun a => .ok (f a)) = .ok b ↔ ∃ a, x = .ok a ∧ b = f a := by
  simp only [bind_eq_ok, Except.ok.injEq, eq_comm (a := b)]

theorem mapM_eq_ok {α β : Type} {f : α → Except Bytes β} {as : List α} :
    ∀ {bs : List β}, as.mapM f = .ok bs ↔ List.Forall₂ (fun a b => f a = .ok b) as bs := by
  induction as with
  | nil =>
      intro bs
      constructor
      · intro h
        cases h
        exact .nil
      · intro h
        cases h
        rfl
  | cons a as ih =>
      intro bs
      rw [List.mapM_cons, bind_eq_ok]
      constructor
      · rintro ⟨b, hb, h⟩
        obtain ⟨bs', hbs, h⟩ := bind_eq_ok.mp h
        cases h
        exact .cons hb (ih.mp hbs)
      · intro h
        cases h with
        | cons hb hbs => exact ⟨_, hb, bind_eq_ok.mpr ⟨_, ih.mpr hbs, rfl⟩⟩

variable {text}

theorem valueJson_null (t : LogicalType) : valueJson text t (.null t) = .ok null := by
  cases t <;> rfl

theorem valueJson_list {c t : LogicalType} {vs : List Value} {j : Json} :
    valueJson text (.list c) (.nested t vs) = .ok j ↔
      ∃ js, List.Forall₂ (fun v j => valueJson text c v = .ok j) vs js ∧ j = arr js := by
  have h : valueJson text (.list c) (.nested t vs) =
    (vs.mapM (valueJson text c) >>= fun js => .ok (arr js)) := rfl
  simp only [h, bind_ok_eq, mapM_eq_ok]

theorem valueJson_array {c t : LogicalType} {n : Nat} {vs : List Value} {j : Json} :
    valueJson text (.array c n) (.nested t vs) = .ok j ↔
      ∃ js, List.Forall₂ (fun v j => valueJson text c v = .ok j) vs js ∧ j = arr js :=
  valueJson_list

theorem valueJson_struct {fs : Fields} {t : LogicalType} {vs : List Value} {j : Json} :
    valueJson text (.struct fs) (.nested t vs) = .ok j ↔
      ∃ ms, fieldsJson text fs vs = .ok ms ∧ j = obj ms := by
  have h : valueJson text (.struct fs) (.nested t vs) =
    (fieldsJson text fs vs >>= fun ms => .ok (obj ms)) := rfl
  rw [h, bind_ok_eq]

theorem fieldsJson_cons {n : Bytes} {t : LogicalType} {fs : Fields} {v : Value} {vs : List Value}
    {ms : List (Bytes × Json)} : fieldsJson text (.cons n t fs) (v :: vs) = .ok ms ↔
      ∃ j ms', valueJson text t v = .ok j ∧ fieldsJson text fs vs = .ok ms' ∧ ms = (n, j) :: ms' := by
  simp only [fieldsJson, bind_eq_ok, Except.ok.injEq, eq_comm (a := ms)]
  constructor
  · rintro ⟨j, hj, ms', hms, h⟩
    exact ⟨j, ms', hj, hms, h⟩
  · rintro ⟨j, ms', hj, hms, h⟩
    exact ⟨j, hj, ms', hms, h⟩

theorem mapM_map_eq_ok {α β γ δ : Type} {f : α → β} {g : β → Except Bytes γ} {h : δ → γ}
    {R : α → δ → Prop} (hg : ∀ a c, g (f a) = .ok c ↔ ∃ d, R a d ∧ c = h d) {as : List α}
    {cs : List γ} : (as.map f).mapM g = .ok cs ↔ ∃ ds, List.Forall₂ R as ds ∧ cs = ds.map h := by
  rw [mapM_eq_ok, List.forall₂_map_left_iff]
  simp only [hg]
  constructor
  · intro hall
    induction hall with
    | nil => exact ⟨[], .nil, rfl⟩
    | cons hd _ ih =>
        obtain ⟨d, hd, rfl⟩ := hd
        obtain ⟨ds, hds, rfl⟩ := ih
        exact ⟨d :: ds, .cons hd hds, rfl⟩
  · rintro ⟨ds, hds, rfl⟩
    rw [List.forall₂_map_right_iff]
    exact hds.imp fun a d h => ⟨d, h, rfl⟩

theorem valueJson_map {k w t u : LogicalType} {es : List (Value × Value)} {j : Json} :
    valueJson text (.map k w) (.nested t (es.map fun e => .nested u [e.1, e.2])) = .ok j ↔
      ∃ ps : List (Json × Json), List.Forall₂ (fun e p =>
        valueJson text k e.1 = .ok p.1 ∧ valueJson text w e.2 = .ok p.2) es ps ∧
        j = arr (ps.map fun p => arr [p.1, p.2]) := by
  have h : valueJson text (.map k w) (.nested t (es.map fun e => .nested u [e.1, e.2])) =
    ((es.map fun e => Value.nested u [e.1, e.2]).mapM (fun entry => do
      let kv ← getChildren entry
      let x ← valueJson text k (← getChild kv 0)
      let y ← valueJson text w (← getChild kv 1)
      Except.ok (arr [x, y])) >>= fun js => .ok (arr js)) := rfl
  have hentry : ∀ (e : Value × Value) j, (valueJson text k e.1 >>= fun x =>
      valueJson text w e.2 >>= fun y => Except.ok (arr [x, y])) = .ok j ↔
      ∃ p : Json × Json, (valueJson text k e.1 = .ok p.1 ∧ valueJson text w e.2 = .ok p.2) ∧
        j = arr [p.1, p.2] := by
    intro e j
    simp only [bind_eq_ok, Prod.exists]
    constructor
    · rintro ⟨x, hx, y, hy, h⟩
      exact ⟨x, y, ⟨hx, hy⟩, (Except.ok.inj h).symm⟩
    · rintro ⟨x, y, ⟨hx, hy⟩, rfl⟩
      exact ⟨x, hx, y, hy, rfl⟩
  rw [h, bind_ok_eq]
  constructor
  · rintro ⟨js, hjs, rfl⟩
    obtain ⟨ps, hps, rfl⟩ := (mapM_map_eq_ok hentry).mp hjs
    exact ⟨ps, hps, rfl⟩
  · rintro ⟨ps, hps, rfl⟩
    exact ⟨_, (mapM_map_eq_ok hentry).mpr ⟨ps, hps, rfl⟩, rfl⟩

theorem valueJson_union {ms : Fields} {t : LogicalType} {i : Nat} {vs : List Value} {j : Json} :
    valueJson text (.union ms) (.nested t (.tag i :: vs)) = .ok j ↔
      ∃ v, vs[i]? = some v ∧ memberJson text ms i v = .ok j := by
  have h : valueJson text (.union ms) (.nested t (.tag i :: vs)) =
    (getChild vs i >>= fun v => memberJson text ms i v) := rfl
  rw [h, bind_eq_ok]
  refine exists_congr fun v => and_congr_left fun _ => ?_
  rw [getChild]
  cases vs[i]? <;> simp

theorem memberJson_eq_ok {fs : Fields} {i : Nat} {v : Value} {j : Json} :
    memberJson text fs i v = .ok j ↔ ∃ f x, fs.toList[i]? = some f ∧ valueJson text f.2 v = .ok x ∧
      j = obj [(lit "tag", str f.1), (lit "value", x)] := by
  induction fs using Fields.induction generalizing i with
  | nil => simp [memberJson, Fields.toList]
  | cons n t fs ih =>
      cases i with
      | zero =>
          rw [memberJson, bind_ok_eq]
          constructor
          · rintro ⟨x, hx, rfl⟩
            exact ⟨(n, t), x, rfl, hx, rfl⟩
          · rintro ⟨f, x, hf, hx, rfl⟩
            cases hf
            exact ⟨x, hx, rfl⟩
      | succ i => exact ih

theorem valueJson_enum {ls : List Bytes} {t : LogicalType} {i : Nat} (h : i < ls.length) :
    valueJson text (.enum ls) (.leaf t (.int i)) = .ok (str ls[i]) := by
  have hv : valueJson text (.enum ls) (.leaf t (.int i)) =
    match ls[i]? with
    | some label => .ok (str label)
    | none => .error typeMismatch := rfl
  rw [hv, List.getElem?_eq_getElem h]

/-- The forms a value of a scalar type can have. -/
def ScalarForm (id : ScalarType) (j : Json) : Prop :=
  (∃ x, j = num x) ∨ (∃ x, j = .bool x) ∨ (∃ x, j = str x) ∨
    (id = .interval ∧ ∃ months days micros, j = intervalJson months days micros)

theorem doubleJson_form (id : ScalarType) (d : Double) : ScalarForm id (doubleJson text d) := by
  cases d with
  | nan => exact Or.inr (Or.inr (Or.inl ⟨_, rfl⟩))
  | inf neg => exact Or.inr (Or.inr (Or.inl ⟨_, rfl⟩))
  | finite d => exact Or.inl ⟨_, rfl⟩

theorem jsonSafe_form (id : ScalarType) (safe : Int → Bool) (v : Int) :
    ScalarForm id (jsonSafe safe v) := by
  rw [jsonSafe]
  split_ifs
  · exact Or.inl ⟨_, rfl⟩
  · exact Or.inr (Or.inr (Or.inl ⟨_, rfl⟩))

theorem scalarJson_form {id : ScalarType} (hid : id ≠ .sqlNull) {v : Value} {j : Json}
    (h : scalarJson text id v = .ok j) : ScalarForm id j := by
  cases id with
  | sqlNull => exact absurd rfl hid
  | boolean =>
      obtain ⟨b, -, h⟩ := bind_eq_ok.mp h
      cases h
      exact Or.inr (Or.inl ⟨_, rfl⟩)
  | tinyint | smallint | integer | utinyint | usmallint | uinteger =>
      obtain ⟨i, -, h⟩ := bind_eq_ok.mp h
      cases h
      exact Or.inl ⟨_, rfl⟩
  | bigint | ubigint | hugeint | uhugeint =>
      obtain ⟨i, -, h⟩ := bind_eq_ok.mp h
      cases h
      exact jsonSafe_form _ _ _
  | float | double =>
      obtain ⟨d, -, h⟩ := bind_eq_ok.mp h
      cases h
      exact doubleJson_form _ d
  | interval =>
      obtain ⟨⟨months, days, micros⟩, -, h⟩ := bind_eq_ok.mp h
      cases h
      exact Or.inr (Or.inr (Or.inr ⟨rfl, _, _, _, rfl⟩))
  | timestampSec | timestampMs =>
      obtain ⟨i, -, h⟩ := bind_eq_ok.mp h
      obtain ⟨s, -, h⟩ := bind_eq_ok.mp h
      cases h
      exact Or.inr (Or.inr (Or.inl ⟨_, rfl⟩))
  | _ =>
      obtain ⟨i, -, h⟩ := bind_eq_ok.mp h
      cases h
      exact Or.inr (Or.inr (Or.inl ⟨_, rfl⟩))

theorem sanitized_intervalJson (months days micros : Int) :
    (intervalJson months days micros).sanitized =
      obj [(lit "months", num (Bytes.decInt months)), (lit "days", num (Bytes.decInt days)),
        (lit "micros", str (sanitize (Bytes.decInt micros)))] := by
  simp (disch := decide) only [intervalJson, sanitized, sanitizedMembers, sanitizedMember,
    sanitize_ascii]

/-! ## The number literals of the trees

All of them are decimal integers, except for the text of doubles. -/

variable (text)

theorem schemaHead_numbersOk (t : LogicalType) (name : Bytes) :
    ∀ m ∈ schemaHead text t name, NumbersOk m.2 := by
  rw [schemaHead]
  split_ifs <;> simp

theorem schemaJson_numbersOk (t : LogicalType) : ∀ name, NumbersOk (schemaJson text t name) := by
  have hobj : ∀ {t name} {ms : List (Bytes × Json)}, (∀ m ∈ ms, NumbersOk m.2) →
      NumbersOk (obj (schemaHead text t name ++ ms)) := by
    intro t name ms h
    refine numbersOk_obj.mpr fun m hm => ?_
    rcases List.mem_append.mp hm with hm | hm
    · exact schemaHead_numbersOk text t name m hm
    · exact h m hm
  induction t using LogicalType.induction
    (Q := fun fs => NumbersOk (arr (fieldSchemas text fs))) with
  | scalar id => exact fun name => hobj (by simp)
  | decimal w s => exact fun name => hobj (by simp)
  | list c ih => exact fun name => hobj (by simp [ih])
  | array c n ih => exact fun name => hobj (by simp [ih])
  | struct fs ih => exact fun name => hobj (by simpa using numbersOk_arr.mp ih)
  | map k v ihk ihv => exact fun name => hobj (by simp [ihk, ihv])
  | union ms ih => exact fun name => hobj (by simpa using numbersOk_arr.mp ih)
  | enum ls => exact fun name => hobj (by simp)
  | other n => exact fun name => hobj (by simp)
  | nil => simp [fieldSchemas]
  | cons n t fs iht ihfs =>
      exact numbersOk_arr.mpr (List.forall_mem_cons.mpr ⟨iht n, numbersOk_arr.mp ihfs⟩)

variable {text} (hformat : ∀ d, IsNumber (text.formatDouble d))
include hformat

theorem scalarJson_numbersOk {id : ScalarType} {v : Value} {j : Json}
    (h : scalarJson text id v = .ok j) : NumbersOk j := by
  have hsafe : ∀ safe v, NumbersOk (jsonSafe safe v) := by
    intro safe v
    rw [jsonSafe]
    split_ifs <;> simp
  cases id with
  | sqlNull =>
      cases h
      simp
  | bigint | ubigint | hugeint | uhugeint =>
      obtain ⟨i, -, rfl⟩ := bind_ok_eq.mp h
      exact hsafe _ _
  | float | double =>
      obtain ⟨d, -, rfl⟩ := bind_ok_eq.mp h
      cases d with
      | nan => exact numbersOk_str _
      | inf neg => exact numbersOk_str _
      | finite d => exact numbersOk_num.mpr (hformat d)
  | timestampSec | timestampMs =>
      obtain ⟨i, -, h⟩ := bind_eq_ok.mp h
      obtain ⟨s, -, rfl⟩ := bind_ok_eq.mp h
      simp
  | interval =>
      obtain ⟨i, -, rfl⟩ := bind_ok_eq.mp h
      simp [intervalJson]
  | _ =>
      obtain ⟨i, -, rfl⟩ := bind_ok_eq.mp h
      simp

omit hformat in
theorem mapM_numbersOk {α : Type} {f : α → Except Bytes Json}
    (h : ∀ a j, f a = .ok j → NumbersOk j) {as : List α} {js : List Json}
    (hjs : as.mapM f = .ok js) : ∀ j ∈ js, NumbersOk j := by
  have hall := mapM_eq_ok.mp hjs
  clear hjs
  induction hall with
  | nil => simp
  | cons ha _ ih => exact List.forall_mem_cons.mpr ⟨h _ _ ha, ih⟩

theorem valueJson_numbersOk (t : LogicalType) :
    ∀ v j, valueJson text t v = .ok j → NumbersOk j := by
  have hnull : ∀ {v k j}, nullOr v k = .ok j → (k = .ok j → NumbersOk j) → NumbersOk j := by
    intro v k j h hk
    rw [nullOr] at h
    split_ifs at h
    · cases h
      simp
    · exact hk h
  -- over the type; the values follow it
  induction t using LogicalType.induction
    (Q := fun fs => (∀ vs ms, fieldsJson text fs vs = .ok ms → NumbersOk (obj ms)) ∧
      ∀ i v j, memberJson text fs i v = .ok j → NumbersOk j) with
  | scalar id => exact fun v j h => hnull h (scalarJson_numbersOk hformat)
  | decimal w s =>
      refine fun v j h => hnull h fun h => ?_
      obtain ⟨i, -, rfl⟩ := bind_ok_eq.mp h
      simp
  | list c ih =>
      refine fun v j h => hnull h fun h => ?_
      obtain ⟨vs, -, h⟩ := bind_eq_ok.mp h
      obtain ⟨js, hjs, rfl⟩ := bind_ok_eq.mp h
      exact numbersOk_arr.mpr (mapM_numbersOk ih hjs)
  | array c n ih =>
      refine fun v j h => hnull h fun h => ?_
      obtain ⟨vs, -, h⟩ := bind_eq_ok.mp h
      obtain ⟨js, hjs, rfl⟩ := bind_ok_eq.mp h
      exact numbersOk_arr.mpr (mapM_numbersOk ih hjs)
  | struct fs ih =>
      refine fun v j h => hnull h fun h => ?_
      obtain ⟨vs, -, h⟩ := bind_eq_ok.mp h
      obtain ⟨ms, hms, rfl⟩ := bind_ok_eq.mp h
      exact ih.1 vs ms hms
  | map k w ihk ihw =>
      refine fun v j h => hnull h fun h => ?_
      obtain ⟨vs, -, h⟩ := bind_eq_ok.mp h
      obtain ⟨js, hjs, rfl⟩ := bind_ok_eq.mp h
      refine numbersOk_arr.mpr (mapM_numbersOk (fun e j he => ?_) hjs)
      obtain ⟨kv, -, he⟩ := bind_eq_ok.mp he
      obtain ⟨e₀, -, he⟩ := bind_eq_ok.mp he
      obtain ⟨x, hx, he⟩ := bind_eq_ok.mp he
      obtain ⟨e₁, -, he⟩ := bind_eq_ok.mp he
      obtain ⟨y, hy, rfl⟩ := bind_ok_eq.mp he
      simpa using ⟨ihk _ _ hx, ihw _ _ hy⟩
  | union ms ih =>
      refine fun v j h => hnull h fun h => ?_
      obtain ⟨vs, -, h⟩ := bind_eq_ok.mp h
      obtain ⟨c, -, h⟩ := bind_eq_ok.mp h
      obtain ⟨i, -, h⟩ := bind_eq_ok.mp h
      obtain ⟨w, -, h⟩ := bind_eq_ok.mp h
      exact ih.2 _ _ _ h
  | enum ls =>
      refine fun v j h => hnull h fun h => ?_
      obtain ⟨i, -, h⟩ := bind_eq_ok.mp h
      split at h
      · cases h
        simp
      · cases h
  | other n =>
      refine fun v j h => hnull h fun h => ?_
      cases h
      simp
  | nil =>
      refine ⟨fun vs ms h => ?_, fun i v j h => nomatch h⟩
      cases h
      simp
  | cons n t fs iht ihfs =>
      refine ⟨fun vs ms h => ?_, fun i v j h => ?_⟩
      · cases vs with
        | nil =>
            cases h
            simp
        | cons v vs =>
            obtain ⟨j, ms', hj, hms, rfl⟩ := fieldsJson_cons.mp h
            exact numbersOk_obj.mpr
              (List.forall_mem_cons.mpr ⟨iht v j hj, numbersOk_obj.mp (ihfs.1 vs ms' hms)⟩)
      · cases i with
        | zero =>
            obtain ⟨x, hx, rfl⟩ := bind_ok_eq.mp h
            simpa using iht v x hx
        | succ i => exact ihfs.2 i v j h

theorem valuesJson_numbersOk {columns : Columns} {row : List Value} {j : Json}
    (h : valuesJson text columns row = .ok j) : NumbersOk j := by
  obtain ⟨js, hjs, rfl⟩ := bind_ok_eq.mp h
  clear h
  induction columns generalizing row js with
  | nil =>
      cases hjs
      simp
  | cons column columns ih =>
      cases row with
      | nil => cases hjs
      | cons v row =>
          obtain ⟨x, hx, hjs⟩ := bind_eq_ok.mp hjs
          obtain ⟨js', hjs', rfl⟩ := bind_ok_eq.mp hjs
          exact numbersOk_arr.mpr (List.forall_mem_cons.mpr
            ⟨valueJson_numbersOk hformat _ _ _ hx, numbersOk_arr.mp (ih js' hjs')⟩)

omit hformat

theorem sessionIdJson_numbersOk (sessionId : Bytes) : ∀ m ∈ sessionIdJson sessionId, NumbersOk m.2 := by
  rw [sessionIdJson]
  split_ifs <;> simp

theorem schemaRecordJson_numbersOk (columns : Columns) (sessionId : Bytes) :
    NumbersOk (schemaRecordJson text columns sessionId) := by
  refine numbersOk_obj.mpr fun m hm => ?_
  simp only [List.cons_append, List.mem_cons, List.mem_append, List.not_mem_nil, or_false] at hm
  rcases hm with rfl | hm | rfl
  · simp
  · exact sessionIdJson_numbersOk sessionId m hm
  · simp only [columnsJson, numbersOk_arr, List.mem_map]
    rintro _ ⟨column, -, rfl⟩
    exact schemaJson_numbersOk text column.2 column.1

theorem endJson_numbersOk (rowCount : Nat) (timeMs : Int) (truncated : Bool) :
    NumbersOk (endJson rowCount timeMs truncated) := by
  cases truncated <;> simp [endJson]

theorem errorJson_numbersOk (code message : Bytes) : NumbersOk (errorJson code message) := by
  simp [errorJson]

theorem isNumber_numerals (d : FiniteDouble) : IsNumber (DuckText.numerals.formatDouble d) := by
  obtain ⟨neg, magnitude⟩ := d
  cases neg with
  | false => exact isNumber_decNat magnitude.val
  | true => exact ⟨_, scanNumber_neg_decNat magnitude.val⟩

end Harbor.Encoder
