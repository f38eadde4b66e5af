import Harbor.Json.Writer

set_option autoImplicit false

/-! # Logical types and values

The types a result column can have and the values DuckDB holds for them. A `Value` carries its
type, as `duckdb::Value` does. `Has T v` is what DuckDB promises about the values of a column of
type `T`: every number in the range of its type, every text in UTF-8, as many array elements as
the type says, map keys that are distinct and not NULL, one selected union member. `Valid T` is
what its catalog promises about types.
-/

namespace Harbor

/-! ## Types -/

/-- The `LogicalTypeId`s without parameters that the encoder knows by name. -/
inductive ScalarType where
  | boolean
  | tinyint
  | smallint
  | integer
  | bigint
  | hugeint
  | utinyint
  | usmallint
  | uinteger
  | ubigint
  | uhugeint
  | float
  | double
  | varchar
  | uuid
  | date
  | time
  | timeTz
  | timestamp
  | timestampSec
  | timestampMs
  | timestampNs
  | timestampTz
  | interval
  | blob
  | bit
  | sqlNull
deriving DecidableEq, Repr

/-- `LogicalTypeIdToString`. -/
def ScalarType.name : ScalarType → Bytes
  | boolean => lit "BOOLEAN"
  | tinyint => lit "TINYINT"
  | smallint => lit "SMALLINT"
  | integer => lit "INTEGER"
  | bigint => lit "BIGINT"
  | hugeint => lit "HUGEINT"
  | utinyint => lit "UTINYINT"
  | usmallint => lit "USMALLINT"
  | uinteger => lit "UINTEGER"
  | ubigint => lit "UBIGINT"
  | uhugeint => lit "UHUGEINT"
  | float => lit "FLOAT"
  | double => lit "DOUBLE"
  | varchar => lit "VARCHAR"
  | uuid => lit "UUID"
  | date => lit "DATE"
  | time => lit "TIME"
  | timeTz => lit "TIME WITH TIME ZONE"
  | timestamp => lit "TIMESTAMP"
  | timestampSec => lit "TIMESTAMP_S"
  | timestampMs => lit "TIMESTAMP_MS"
  | timestampNs => lit "TIMESTAMP_NS"
  | timestampTz => lit "TIMESTAMP WITH TIME ZONE"
  | interval => lit "INTERVAL"
  | blob => lit "BLOB"
  | bit => lit "BIT"
  | sqlNull => lit "\"NULL\""

mutual

/-- `LogicalType`; `other` stands for every `LogicalTypeId` the encoder does not know. -/
inductive LogicalType where
  | scalar (id : ScalarType)
  | decimal (width scale : Nat)
  | list (child : LogicalType)
  | array (child : LogicalType) (size : Nat)
  | struct (fields : Fields)
  | map (key value : LogicalType)
  | union (members : Fields)
  | enum (labels : List Bytes)
  | other (name : Bytes)
deriving DecidableEq, Repr

/-- The named children of a STRUCT or UNION. -/
inductive Fields where
  | nil
  | cons (name : Bytes) (type : LogicalType) (rest : Fields)
deriving DecidableEq, Repr

end

namespace LogicalType

/-- Induction over types; a STRUCT or UNION may assume the statement for its fields. -/
theorem induction {P : LogicalType → Prop} {Q : Fields → Prop}
    (scalar : ∀ id, P (scalar id)) (decimal : ∀ w s, P (decimal w s))
    (list : ∀ c, P c → P (list c)) (array : ∀ c n, P c → P (array c n))
    (struct : ∀ fs, Q fs → P (struct fs)) (map : ∀ k v, P k → P v → P (map k v))
    (union : ∀ ms, Q ms → P (union ms)) (enum : ∀ ls, P (enum ls)) (other : ∀ n, P (other n))
    (nil : Q .nil) (cons : ∀ n t fs, P t → Q fs → Q (.cons n t fs)) : ∀ t, P t :=
  @LogicalType.rec P Q scalar decimal list array struct map union enum other nil cons

end LogicalType

namespace Fields

/-- Induction over the fields alone. -/
theorem induction {P : Fields → Prop} (nil : P nil) (cons : ∀ n t fs, P fs → P (cons n t fs)) :
    ∀ fs, P fs
  | .nil => nil
  | .cons n t fs => cons n t fs (induction nil cons fs)

def toList : Fields → List (Bytes × LogicalType)
  | nil => []
  | cons n t fs => (n, t) :: fs.toList

def names (fs : Fields) : List Bytes := fs.toList.map Prod.fst

def types (fs : Fields) : List LogicalType := fs.toList.map Prod.snd

@[simp] theorem names_nil : nil.names = [] := rfl

@[simp] theorem names_cons (n : Bytes) (t : LogicalType) (fs : Fields) :
    (cons n t fs).names = n :: fs.names := rfl

end Fields

/-- Induction over types, with the fields of a STRUCT or UNION as a list. -/
theorem LogicalType.induction_on {P : LogicalType → Prop}
    (scalar : ∀ id, P (.scalar id)) (decimal : ∀ w s, P (.decimal w s))
    (list : ∀ c, P c → P (.list c)) (array : ∀ c n, P c → P (.array c n))
    (struct : ∀ fs, (∀ f ∈ fs.toList, P f.2) → P (.struct fs))
    (map : ∀ k v, P k → P v → P (.map k v))
    (union : ∀ ms, (∀ m ∈ ms.toList, P m.2) → P (.union ms))
    (enum : ∀ ls, P (.enum ls)) (other : ∀ n, P (.other n)) : ∀ t, P t :=
  LogicalType.induction (Q := fun fs => ∀ f ∈ fs.toList, P f.2) scalar decimal list array struct map
    union enum other (by simp [Fields.toList])
    fun _ _ _ ht hfs => List.forall_mem_cons.mpr ⟨ht, hfs⟩

/-! ## Values -/

/-- What a value of a type without children holds. ENUM values hold the index of their label. -/
inductive Datum where
  | bool (b : Bool)
  | int (i : Int)
  | double (d : Double)
  | str (s : Bytes)
  | timeTz (micros offset : Int)
  | interval (months days micros : Int)
deriving DecidableEq, Repr

/-- `Value`. The children of a MAP are its entries, STRUCTs of key and value; those of a UNION are
its tag and its members. -/
inductive Value where
  | null (type : LogicalType)
  | leaf (type : LogicalType) (d : Datum)
  | nested (type : LogicalType) (children : List Value)
deriving Repr

/-- `Value::type`. -/
def Value.type : Value → LogicalType
  | null t => t
  | leaf t _ => t
  | nested t _ => t

/-- `Value::IsNull`. -/
def Value.isNull : Value → Bool
  | null _ => true
  | _ => false

/-- The type of the entries of a MAP. -/
def LogicalType.entry (key value : LogicalType) : LogicalType :=
  .struct (.cons (lit "key") key (.cons (lit "value") value .nil))

/-- The tag of a UNION value. -/
def Value.tag (i : Nat) : Value := leaf (.scalar .utinyint) (.int i)

/-! ## Values of a type -/

/-- `i` is a two's complement number of `w` bits. -/
def IsInt (w : Nat) (i : Int) : Prop := -2 ^ (w - 1) ≤ i ∧ i < 2 ^ (w - 1)

/-- `i` is an unsigned number of `w` bits. -/
def IsUint (w : Nat) (i : Int) : Prop := 0 ≤ i ∧ i < 2 ^ w

instance (w : Nat) (i : Int) : Decidable (IsInt w i) :=
  inferInstanceAs (Decidable (_ ∧ _))

instance (w : Nat) (i : Int) : Decidable (IsUint w i) :=
  inferInstanceAs (Decidable (_ ∧ _))

/-- The double is a single precision number. -/
def Double.IsFloat : Double → Prop
  | .nan => True
  | .inf _ => True
  | .finite d =>
      let exponent := d.magnitude.val / 2 ^ 52
      let fraction := d.magnitude.val % 2 ^ 52
      d.magnitude.val = 0 ∨
        (874 ≤ exponent ∧ exponent < 897 ∧ fraction % 2 ^ (29 + (897 - exponent)) = 0) ∨
        (897 ≤ exponent ∧ exponent ≤ 1150 ∧ fraction % 2 ^ 29 = 0)

/-- The bytes of a BIT: how many bits of the first data byte are padding, and the data, with the
padding bits set. -/
def IsBit : Bytes → Prop
  | padding :: d :: _ =>
      padding.toNat < 8 ∧ d.toNat / 2 ^ (8 - padding.toNat) = 2 ^ padding.toNat - 1
  | _ => False

/-- What a value of a scalar type that is not NULL can hold. -/
def ScalarType.Has : ScalarType → Datum → Prop
  | boolean, .bool _ => True
  | tinyint, .int i => IsInt 8 i
  | smallint, .int i => IsInt 16 i
  | integer, .int i => IsInt 32 i
  | bigint, .int i => IsInt 64 i
  | hugeint, .int i => IsInt 128 i
  | utinyint, .int i => IsUint 8 i
  | usmallint, .int i => IsUint 16 i
  | uinteger, .int i => IsUint 32 i
  | ubigint, .int i => IsUint 64 i
  | uhugeint, .int i => IsUint 128 i
  | float, .double d => d.IsFloat
  | double, .double _ => True
  | varchar, .str s => Bytes.IsUtf8 s
  | uuid, .int i => IsInt 128 i
  | date, .int i => IsInt 32 i
  | time, .int i => 0 ≤ i ∧ i ≤ 86400000000
  | timeTz, .timeTz micros offset =>
      (0 ≤ micros ∧ micros ≤ 86400000000) ∧ -57599 ≤ offset ∧ offset ≤ 57599
  | timestamp, .int i => IsInt 64 i
  | timestampSec, .int i => IsInt 64 i
  | timestampMs, .int i => IsInt 64 i
  | timestampNs, .int i => IsInt 64 i
  | timestampTz, .int i => IsInt 64 i
  | interval, .interval months days micros => IsInt 32 months ∧ IsInt 32 days ∧ IsInt 64 micros
  | blob, .str _ => True
  | bit, .str s => IsBit s
  | _, _ => False

mutual

/-- DuckDB can hold the value in a column of the type. -/
inductive Has : LogicalType → Value → Prop where
  | null (t : LogicalType) : Has t (.null t)
  | scalar {id : ScalarType} {d : Datum} (h : id.Has d) :
      Has (.scalar id) (.leaf (.scalar id) d)
  | decimal {w s : Nat} {i : Int} (h : -10 ^ w < i ∧ i < 10 ^ w) :
      Has (.decimal w s) (.leaf (.decimal w s) (.int i))
  | list {c : LogicalType} {vs : List Value} (h : ∀ v ∈ vs, Has c v) :
      Has (.list c) (.nested (.list c) vs)
  | array {c : LogicalType} {n : Nat} {vs : List Value} (hlen : vs.length = n)
      (h : ∀ v ∈ vs, Has c v) : Has (.array c n) (.nested (.array c n) vs)
  | struct {fs : Fields} {vs : List Value} (h : HasFields fs vs) :
      Has (.struct fs) (.nested (.struct fs) vs)
  | map {k v : LogicalType} {es : List (Value × Value)}
      (hkey : ∀ e ∈ es, Has k e.1) (hvalue : ∀ e ∈ es, Has v e.2)
      (hnotNull : ∀ e ∈ es, e.1.isNull = false) (hdistinct : (es.map Prod.fst).Nodup) :
      Has (.map k v) (.nested (.map k v) (es.map fun e => .nested (.entry k v) [e.1, e.2]))
  | union {ms : Fields} {tag : Nat} {vs : List Value} (h : HasMember ms tag vs) :
      Has (.union ms) (.nested (.union ms) (.tag tag :: vs))
  | enum {ls : List Bytes} {i : Nat} (h : i < ls.length) :
      Has (.enum ls) (.leaf (.enum ls) (.int i))
  | other (n : Bytes) (d : Datum) : Has (.other n) (.leaf (.other n) d)

/-- One value for each field. -/
inductive HasFields : Fields → List Value → Prop where
  | nil : HasFields .nil []
  | cons {n : Bytes} {t : LogicalType} {fs : Fields} {v : Value} {vs : List Value}
      (h : Has t v) (hs : HasFields fs vs) : HasFields (.cons n t fs) (v :: vs)

/-- One value for each member; only the one at the index may be other than NULL. -/
inductive HasMember : Fields → Nat → List Value → Prop where
  | here {n : Bytes} {t : LogicalType} {fs : Fields} {v : Value} (h : Has t v) :
      HasMember (.cons n t fs) 0 (v :: fs.types.map .null)
  | there {n : Bytes} {t : LogicalType} {fs : Fields} {i : Nat} {vs : List Value}
      (h : HasMember fs i vs) : HasMember (.cons n t fs) (i + 1) (.null t :: vs)

end

/-- A value of a type carries that type. -/
theorem Has.type_eq {t : LogicalType} {v : Value} (h : Has t v) : v.type = t := by
  cases h <;> rfl

/-! ## Types of the catalog -/

mutual

/-- What DuckDB's catalog promises about a type: names and labels are UTF-8, an array has
elements, the members of a UNION and the labels of an ENUM are distinct. -/
def LogicalType.Valid : LogicalType → Prop
  | .scalar _ => True
  | .decimal w s => 1 ≤ w ∧ w ≤ 38 ∧ s ≤ w
  | .list c => c.Valid
  | .array c n => c.Valid ∧ 1 ≤ n
  | .struct fs => fs.Valid
  | .map k v => k.Valid ∧ v.Valid
  | .union ms => ms.Valid ∧ ms.names.Nodup
  | .enum ls => (∀ l ∈ ls, Bytes.IsUtf8 l) ∧ ls.Nodup
  | .other _ => True

def Fields.Valid : Fields → Prop
  | .nil => True
  | .cons n t fs => Bytes.IsUtf8 n ∧ t.Valid ∧ fs.Valid

end

theorem Fields.Valid.of_mem {fs : Fields} (h : fs.Valid) :
    ∀ f ∈ fs.toList, Bytes.IsUtf8 f.1 ∧ f.2.Valid := by
  induction fs using Fields.induction with
  | nil => simp [Fields.toList]
  | cons n t fs ih =>
      obtain ⟨hn, ht, hfs⟩ := h
      exact List.forall_mem_cons.mpr ⟨⟨hn, ht⟩, ih hfs⟩

/-- A UNION value: NULL everywhere but at the member of its tag. -/
theorem hasMember_iff {fs : Fields} {i : Nat} {vs : List Value} : HasMember fs i vs ↔
    ∃ f v, fs.toList[i]? = some f ∧ Has f.2 v ∧ vs = (fs.types.map .null).set i v := by
  induction fs using Fields.induction generalizing i vs with
  | nil =>
      constructor
      · intro h
        cases h
      · rintro ⟨f, v, hf, -⟩
        simp [Fields.toList] at hf
  | cons n t fs ih =>
      constructor
      · intro h
        cases h with
        | here h => exact ⟨(n, t), _, rfl, h, rfl⟩
        | there h =>
            obtain ⟨f, v, hf, hv, rfl⟩ := ih.mp h
            exact ⟨f, v, hf, hv, rfl⟩
      · rintro ⟨f, v, hf, hv, rfl⟩
        cases i with
        | zero =>
            cases hf
            exact .here hv
        | succ i => exact .there (ih.mpr ⟨f, v, hf, hv, rfl⟩)

end Harbor
