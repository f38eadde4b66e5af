import Harbor.Sql.Modes
import Harbor.Sql.ValueWords

set_option autoImplicit false

/-! # The encoder and the decoder

A value goes out as the JSON that `EmitValue` writes, and may come back as a parameter in a typed wrapper
that names its type. `Prints` is what DuckDB's texts are and `DuckCasts.Inverts` that its casts read them
back. `Survives` says what else has to hold for the decoder to get the value back, and
**`decodes_iff`** that nothing else has to.
-/

namespace Harbor

open Bytes Json Encoder

/-! ## DuckDB's texts and casts -/

/-- The types of whole numbers. -/
def integerTypes : List ScalarType :=
  [.tinyint, .smallint, .integer, .bigint, .hugeint, .utinyint, .usmallint, .uinteger, .ubigint, .uhugeint]

/-- The text of a FLOAT or DOUBLE. -/
def doubleText (text : DuckText) : Double → Bytes
  | .nan => lit "NaN"
  | .inf neg => if neg then lit "-Infinity" else lit "Infinity"
  | .finite d => text.formatDouble d

/-- The texts of the values of a type, other than VARCHAR. A timestamp may have a `T` and a `Z`, a BLOB
is its bytes as long as these are ASCII without a backslash. -/
inductive Prints (text : DuckText) (timeNs : Int → Bytes) : LogicalType → Datum → Bytes → Prop where
  | integer {id : ScalarType} (h : id ∈ integerTypes) (i : Int) :
      Prints text timeNs (.scalar id) (.int i) (decInt i)
  | double {id : ScalarType} (h : id = .float ∨ id = .double) (d : Double) :
      Prints text timeNs (.scalar id) (.double d) (doubleText text d)
  | decimal (w s : Nat) (i : Int) :
      Prints text timeNs (.decimal w s) (.int i) (text.decimalToString i w s)
  | uuid (i : Int) : Prints text timeNs (.scalar .uuid) (.int i) (text.uuidToString i)
  | date (i : Int) : Prints text timeNs (.scalar .date) (.int i) (text.dateToString i)
  | time (i : Int) : Prints text timeNs (.scalar .time) (.int i) (text.timeToString i)
  | timeTz (micros : Int) {offset : Int} (h : 60 ∣ offset) :
      Prints text timeNs (.scalar .timeTz) (.timeTz micros offset) (timeTzToString text micros offset)
  | timestamp {type : TimestampType} {v : Int} (h : type.Separable v) :
      Prints text timeNs (.scalar type.scalar) (.int v) (type.isoText text timeNs v)
  | blob {s : Bytes} (h : ∀ b ∈ s, b < 0x80 ∧ b ≠ 0x5C) : Prints text timeNs (.scalar .blob) (.str s) s
  | bit (s : Bytes) : Prints text timeNs (.scalar .bit) (.str s) (text.bitToString s)

namespace DuckCasts

variable (casts : DuckCasts) (text : DuckText) (timeNs : Int → Bytes)

/-- The cast from text inverts the text at a type. -/
def Inverts (t : LogicalType) : Prop :=
  ∀ d s, Prints text timeNs t d s → Has t (.leaf t d) → casts.castText s t = .ok (.leaf t d)

/-- The cast to a timestamp reads no text of a BC date with a `T` in it, and no zone behind infinity. -/
def RefusesMisread : Prop :=
  ∀ (type : TimestampType) s, type.Misread s → ∀ v, casts.castText s (.scalar type.scalar) ≠ .ok v

/-- The constructors of VARCHAR, LIST, ARRAY and MAP. -/
structure Builds : Prop where
  varchar : ∀ s, IsUtf8 s → casts.varchar s = .ok (.leaf (.scalar .varchar) (.str s))
  list : ∀ c vs, (∀ v ∈ vs, v.type = c) → casts.list c vs = .ok (.nested (.list c) vs)
  array : ∀ c vs, vs ≠ [] → (∀ v ∈ vs, v.type = c) →
    casts.array c vs = .ok (.nested (.array c vs.length) vs)
  map : ∀ k t es, (∀ e ∈ es, e.1.type = k ∧ e.2.type = t) → (∀ e ∈ es, e.1.isNull = false) →
    (es.map Prod.fst).Nodup →
      casts.map k t es = .ok (.nested (.map k t) (es.map fun e => .nested (.entry k t) [e.1, e.2]))

open ParamDecoder in
/-- What is relied on of DuckDB besides. -/
structure Documented : Prop where
  wordless : text.Wordless
  calendar : text.Calendar timeNs
  format : ∀ d, IsNumber (text.formatDouble d)
  typed : casts.Typed
  keeps : casts.Keeps
  structCast : casts.StructCast
  builds : casts.Builds
  strict : casts.Strict text
  refuses : casts.RefusesMisread

end DuckCasts

/-! ## The values that come back -/

/-- What the decoder gets back of a scalar type: the encoder's INTERVAL is an object, its BLOB is Base64,
its TIMETZ is without the seconds of the offset, and its timestamps must be separable. -/
def ScalarType.Survives : ScalarType → Datum → Prop
  | .interval, _ => False
  | .blob, .str s => s = []
  | .timeTz, .timeTz _ offset => 60 ∣ offset
  | .timestamp, .int i => TimestampType.timestamp.Separable i
  | .timestampSec, .int i => TimestampType.timestampSec.Separable i
  | .timestampMs, .int i => TimestampType.timestampMs.Separable i
  | .timestampTz, .int i => TimestampType.timestampTz.Separable i
  | _, _ => True

/-- The scalars in the value survive, the fields of a STRUCT have different names in lower case, and no STRUCT
mentions both words of a typed wrapper. -/
inductive Survives : Value → Prop where
  | null (t : LogicalType) : Survives (.null t)
  | scalar {id : ScalarType} {d : Datum} (h : id.Survives d) : Survives (.leaf (.scalar id) d)
  | decimal (w s : Nat) (d : Datum) : Survives (.leaf (.decimal w s) d)
  | list {c : LogicalType} {vs : List Value} (h : ∀ v ∈ vs, Survives v) : Survives (.nested (.list c) vs)
  | array {c : LogicalType} {n : Nat} {vs : List Value} (h : ∀ v ∈ vs, Survives v) :
      Survives (.nested (.array c n) vs)
  | struct {fs : Fields} {vs : List Value} (hnames : (fs.names.map lower).Nodup)
      (hplain : ¬ ((Value.nested (.struct fs) vs).Mentions (lit "type") ∧
        (Value.nested (.struct fs) vs).Mentions (lit "value")))
      (h : ∀ v ∈ vs, Survives v) : Survives (.nested (.struct fs) vs)
  | map {k t : LogicalType} {es : List (Value × Value)} (hkey : ∀ e ∈ es, Survives e.1)
      (hvalue : ∀ e ∈ es, Survives e.2) :
      Survives (.nested (.map k t) (es.map fun e => .nested (.entry k t) [e.1, e.2]))

mutual

/-- The types without children in a type. -/
def LogicalType.leaves : LogicalType → List LogicalType
  | .list c => c.leaves
  | .array c _ => c.leaves
  | .struct fs => fs.leaves
  | .map k t => k.leaves ++ t.leaves
  | .union ms => ms.leaves
  | t => [t]

def Fields.leaves : Fields → List LogicalType
  | .nil => []
  | .cons _ t fs => t.leaves ++ fs.leaves

end

theorem Fields.mem_leaves {fs : Fields} {f : Bytes × LogicalType} (hf : f ∈ fs.toList) :
    ∀ t ∈ f.2.leaves, t ∈ fs.leaves := by
  induction fs using Fields.induction with
  | nil => exact absurd hf List.not_mem_nil
  | cons n u fs ih =>
      intro t ht
      rw [Fields.leaves, List.mem_append]
      rcases List.mem_cons.mp hf with rfl | hf
      · exact Or.inl ht
      · exact Or.inr (ih hf t ht)

namespace ParamDecoder

variable {text : DuckText} {casts : DuckCasts} {timeNs : Int → Bytes}

/-! ## Scalars -/

/-- A type with texts to cast. -/
def Castable (t : LogicalType) : Prop := ¬ (t = .scalar .varchar ∨ t = .any ∨ t = .invalid)

theorem castable_scalar {id : ScalarType} (hid : id ≠ .varchar) : Castable (.scalar id) := by
  rintro (h | h | h)
  · exact hid (LogicalType.scalar.inj h)
  · cases h
  · cases h

/-- A number is cast from its text. -/
theorem decodeTree_number {l : Bytes} (hl : IsNumber l) {t : LogicalType} (ht : isNumeric t = true) :
    decodeTree text casts (num l) t = (casts.castText l t).toOption := by
  have hplace : ¬ (t = .any ∨ t = .invalid ∨ t = .scalar .sqlNull) := by
    rintro (rfl | rfl | rfl) <;> cases ht
  rw [decodeTree_num hl, coerceJsonNumber, if_neg hplace, coerceNumberFromString, if_pos ht, orElse,
    toOption_mapError]

/-- A string is cast, unless a VARCHAR is expected. -/
theorem decodeTree_text {s : Bytes} (hs : IsAscii s) {t : LogicalType} (ht : Castable t) :
    decodeTree text casts (str s) t = (casts.castText s t).toOption := by
  rw [decodeTree_str, sanitize_ascii hs, coerceJsonString, if_neg ht, orElse, toOption_mapError]

section Printed

variable {t : LogicalType} {d : Datum} {s : Bytes} (hcast : casts.Inverts text timeNs t)
  (hprint : Prints text timeNs t d s) (hhas : Has t (.leaf t d))
include hcast hprint hhas

theorem decodes_number (hs : IsNumber s) (ht : isNumeric t = true) :
    decodeTree text casts (num s) t = some (.leaf t d) := by
  rw [decodeTree_number hs ht, hcast d s hprint hhas]
  rfl

theorem decodes_text (hs : IsAscii s) (ht : Castable t) :
    decodeTree text casts (str s) t = some (.leaf t d) := by
  rw [decodeTree_text hs ht, hcast d s hprint hhas]
  rfl

end Printed

/-- A timestamp comes back exactly if its text has the form that is wanted. -/
theorem decodes_timestamp_iff (htext : text.Wordless) (hcal : text.Calendar timeNs)
    (hrefuses : casts.RefusesMisread) (type : TimestampType)
    (hcast : casts.Inverts text timeNs (.scalar type.scalar)) {v : Int} (hv : IsInt 64 v) {s : Bytes}
    (hs : type.encoded text v = .ok s) :
    decodeTree text casts (str s) (.scalar type.scalar) = some (.leaf (.scalar type.scalar) (.int v)) ↔
      type.Separable v := by
  have hascii : IsAscii s := (isWordless_encoded htext type hs).ascii
  have hcastable : Castable (.scalar type.scalar) := castable_scalar (by cases type <;> decide)
  have hhas : Has (.scalar type.scalar) (.leaf (.scalar type.scalar) (.int v)) := by
    refine .scalar ?_
    cases type <;> exact hv
  constructor
  · intro h
    by_contra hnot
    have hmisread := TimestampType.misread_of_not_separable hcal type hv hnot hs
    rw [decodeTree_text hascii hcastable, toOption_eq_some] at h
    exact hrefuses type s hmisread _ h
  · intro hsep
    obtain rfl := Except.ok.inj (hs.symm.trans ((TimestampType.encoded_iff hcal type hv).mpr hsep))
    exact decodes_text hcast (.timestamp hsep) hhas hascii hcastable

theorem integerTypes_numeric : ∀ id ∈ integerTypes, isNumeric (.scalar id) = true ∧ id ≠ .varchar := by
  decide

/-- A whole number comes back, as a number and as a string. -/
theorem decodes_integer {id : ScalarType} (hid : id ∈ integerTypes)
    (hcast : casts.Inverts text timeNs (.scalar id)) {i : Int}
    (hhas : Has (.scalar id) (.leaf (.scalar id) (.int i))) :
    decodeTree text casts (num (decInt i)) (.scalar id) = some (.leaf (.scalar id) (.int i)) ∧
      decodeTree text casts (str (decInt i)) (.scalar id) = some (.leaf (.scalar id) (.int i)) := by
  obtain ⟨hnumeric, hvarchar⟩ := integerTypes_numeric id hid
  exact ⟨decodes_number hcast (.integer hid i) hhas (isNumber_decInt i) hnumeric,
    decodes_text hcast (.integer hid i) hhas (decInt_ascii i) (castable_scalar hvarchar)⟩

/-- Outside of the range of exact doubles it is a string. -/
theorem decodes_jsonSafe {id : ScalarType} (hid : id ∈ integerTypes)
    (hcast : casts.Inverts text timeNs (.scalar id)) {i : Int}
    (hhas : Has (.scalar id) (.leaf (.scalar id) (.int i))) (safe : Int → Bool) :
    decodeTree text casts (jsonSafe safe i) (.scalar id) = some (.leaf (.scalar id) (.int i)) := by
  rw [jsonSafe]
  split_ifs
  · exact (decodes_integer hid hcast hhas).1
  · exact (decodes_integer hid hcast hhas).2

theorem decodes_double (hformat : ∀ d, IsNumber (text.formatDouble d)) {id : ScalarType}
    (hid : id = .float ∨ id = .double) (hcast : casts.Inverts text timeNs (.scalar id)) {d : Double}
    (hhas : Has (.scalar id) (.leaf (.scalar id) (.double d))) :
    decodeTree text casts (doubleJson text d) (.scalar id) = some (.leaf (.scalar id) (.double d)) := by
  have hprint : Prints text timeNs (.scalar id) (.double d) (doubleText text d) := .double hid d
  have hcastable : Castable (.scalar id) := castable_scalar (by rcases hid with rfl | rfl <;> decide)
  cases d with
  | nan => exact decodes_text hcast hprint hhas (by decide) hcastable
  | inf neg =>
      cases neg with
      | true => exact decodes_text hcast hprint hhas (by decide) hcastable
      | false => exact decodes_text hcast hprint hhas (by decide) hcastable
  | finite d =>
      refine decodes_number hcast hprint hhas (hformat d) ?_
      rcases hid with rfl | rfl <;> rfl

/-- The offset of a TIMETZ without its seconds. -/
theorem exists_minutes (offset : Int) : ∃ minutes : Int, 60 ∣ minutes ∧
    minutes.tdiv 3600 = offset.tdiv 3600 ∧ (minutes.tmod 3600).tdiv 60 = (offset.tmod 3600).tdiv 60 ∧
      ∀ b : Int, -b ≤ offset → offset ≤ b → -b ≤ minutes ∧ minutes ≤ b := by
  have hnat : ∀ n : Nat, ∃ m : Nat, 60 ∣ m ∧ m ≤ n ∧ (m : Int).tdiv 3600 = (n : Int).tdiv 3600 ∧
      ((m : Int).tmod 3600).tdiv 60 = ((n : Int).tmod 3600).tdiv 60 := by
    intro n
    refine ⟨n - n % 60, by omega, by omega, ?_, ?_⟩
    · rw [Int.tdiv_eq_ediv_of_nonneg (by omega), Int.tdiv_eq_ediv_of_nonneg (by omega)]
      omega
    · rw [Int.tmod_eq_emod_of_nonneg (by omega), Int.tmod_eq_emod_of_nonneg (by omega),
        Int.tdiv_eq_ediv_of_nonneg (by omega), Int.tdiv_eq_ediv_of_nonneg (by omega)]
      omega
  obtain ⟨n, rfl | rfl⟩ := offset.eq_nat_or_neg
  · obtain ⟨m, hdvd, hle, hhours, hminutes⟩ := hnat n
    exact ⟨m, by omega, hhours, hminutes, fun b h₁ h₂ => by omega⟩
  · obtain ⟨m, hdvd, hle, hhours, hminutes⟩ := hnat n
    refine ⟨-m, by omega, ?_, ?_, fun b h₁ h₂ => by omega⟩
    · rw [Int.neg_tdiv, Int.neg_tdiv, hhours]
    · rw [Int.neg_tmod, Int.neg_tmod, Int.neg_tdiv, Int.neg_tdiv, hminutes]

/-- The seconds of the offset are not in the text of a TIMETZ. -/
theorem decodes_timeTz_iff (htext : text.Wordless) (hcast : casts.Inverts text timeNs (.scalar .timeTz))
    {micros offset : Int} (hhas : ScalarType.timeTz.Has (.timeTz micros offset)) :
    decodeTree text casts (str (timeTzToString text micros offset)) (.scalar .timeTz) =
        some (.leaf (.scalar .timeTz) (.timeTz micros offset)) ↔ 60 ∣ offset := by
  have hback : ∀ minutes, 60 ∣ minutes → ScalarType.timeTz.Has (.timeTz micros minutes) →
      decodeTree text casts (str (timeTzToString text micros minutes)) (.scalar .timeTz) =
        some (.leaf (.scalar .timeTz) (.timeTz micros minutes)) := by
    intro minutes hdvd hhas
    exact decodes_text hcast (.timeTz micros hdvd) (.scalar hhas)
      ((htext.time micros).append (htext.utcOffset _ _)).ascii (castable_scalar (by decide))
  constructor
  · intro h
    obtain ⟨minutes, hdvd, hhours, hminutes, hrange⟩ := exists_minutes offset
    have hsame : timeTzToString text micros offset = timeTzToString text micros minutes := by
      rw [timeTzToString, timeTzToString, hhours, hminutes]
    rw [hsame, hback minutes hdvd ⟨hhas.1, hrange 57599 hhas.2.1 hhas.2.2⟩] at h
    simp only [Option.some.injEq, Value.leaf.injEq, Datum.timeTz.injEq, true_and] at h
    exact h ▸ hdvd
  · exact fun hdvd => hback offset hdvd hhas

/-- Base64 is read as the bytes of its letters. -/
theorem decodes_blob_iff (hcast : casts.Inverts text timeNs (.scalar .blob)) (s : Bytes) :
    decodeTree text casts (str (Base64.encode s)) (.scalar .blob) =
        some (.leaf (.scalar .blob) (.str s)) ↔ s = [] := by
  have hascii := Base64.encode_ascii s
  have hletters : decodeTree text casts (str (Base64.encode s)) (.scalar .blob) =
      some (.leaf (.scalar .blob) (.str (Base64.encode s))) :=
    decodes_text hcast (.blob fun b hb => ⟨hascii b hb, Base64.encode_ne_backslash s b hb⟩)
      (.scalar trivial) hascii (castable_scalar (by decide))
  rw [hletters, ← Base64.encode_eq_self]
  simp

/-- The object of an INTERVAL is not decoded at INTERVAL. -/
theorem not_decodes_interval (months days micros : Int) (v : Value) :
    decodeTree text casts (intervalJson months days micros) (.scalar .interval) ≠ some v := by
  intro h
  have hok : NumbersOk (intervalJson months days micros) := by
    rw [intervalJson, numbersOk_obj]
    simp
  have hplain : looksTyped (.start (intervalJson months days micros).text) = false := by
    rw [Bool.eq_false_iff, intervalJson, ne_eq, looksTyped_obj hok]
    exact fun hwords => not_mentions_interval (Or.inl rfl) _ _ _ hwords.1
  obtain ⟨fs, hfs, -⟩ := (decodeTree_plain hok hplain).mp h
  cases hfs

theorem decNat_toNat {i : Int} (h : 0 ≤ i) : decNat i.toNat = decInt i := by
  obtain ⟨n, rfl⟩ := Int.eq_ofNat_of_zero_le h
  rfl

/-! ## Every scalar type -/

section Scalar

variable (htext : text.Wordless) (hcal : text.Calendar timeNs)
  (hformat : ∀ d, IsNumber (text.formatDouble d)) (hrefuses : casts.RefusesMisread)
  (hbuilds : casts.Builds)

include htext hcal hformat hrefuses hbuilds

/-- **A scalar comes back** exactly if its type and value are not among those that do not survive. -/
theorem decodes_scalar_iff {id : ScalarType} (hcast : casts.Inverts text timeNs (.scalar id)) {d : Datum}
    (hd : id.Has d) {j : Json} (hj : valueJson text (.scalar id) (.leaf (.scalar id) d) = .ok j) :
    decodeTree text casts j (.scalar id) = some (.leaf (.scalar id) d) ↔ id.Survives d := by
  have hhas : Has (.scalar id) (.leaf (.scalar id) d) := .scalar hd
  replace hj : scalarJson text id (.leaf (.scalar id) d) = .ok j := hj
  cases id with
  | boolean =>
      obtain ⟨b, rfl, hj⟩ := of_getBool hj
      obtain rfl := Except.ok.inj hj
      refine iff_of_true ?_ trivial
      rw [decodeTree_bool, coerceBool, if_pos (Or.inl rfl)]
      rfl
  | tinyint | smallint | integer =>
      obtain ⟨i, rfl, hj⟩ := of_getInt hj
      obtain rfl := Except.ok.inj hj
      exact iff_of_true (decodes_integer (by decide) hcast hhas).1 trivial
  | utinyint | usmallint | uinteger =>
      obtain ⟨i, rfl, hj⟩ := of_getInt hj
      obtain rfl := Except.ok.inj hj
      rw [decNat_toNat hd.1]
      exact iff_of_true (decodes_integer (by decide) hcast hhas).1 trivial
  | bigint | ubigint | hugeint | uhugeint =>
      obtain ⟨i, rfl, hj⟩ := of_getInt hj
      obtain rfl := Except.ok.inj hj
      exact iff_of_true (decodes_jsonSafe (by decide) hcast hhas _) trivial
  | float | double =>
      obtain ⟨x, rfl, hj⟩ := of_getDouble hj
      obtain rfl := Except.ok.inj hj
      exact iff_of_true (decodes_double hformat (by decide) hcast hhas) trivial
  | varchar =>
      obtain ⟨s, rfl, hj⟩ := of_getString hj
      obtain rfl := Except.ok.inj hj
      refine iff_of_true ?_ trivial
      rw [decodeTree_str, sanitize_of_isUtf8 hd, coerceJsonString, if_pos (Or.inl rfl), hbuilds.varchar s hd]
      rfl
  | uuid =>
      obtain ⟨i, rfl, hj⟩ := of_getInt hj
      obtain rfl := Except.ok.inj hj
      exact iff_of_true (decodes_text hcast (.uuid i) hhas (htext.uuid i).ascii (castable_scalar (by decide)))
        trivial
  | date =>
      obtain ⟨i, rfl, hj⟩ := of_getInt hj
      obtain rfl := Except.ok.inj hj
      exact iff_of_true (decodes_text hcast (.date i) hhas (htext.date i).ascii (castable_scalar (by decide)))
        trivial
  | time =>
      obtain ⟨i, rfl, hj⟩ := of_getInt hj
      obtain rfl := Except.ok.inj hj
      exact iff_of_true (decodes_text hcast (.time i) hhas (htext.time i).ascii (castable_scalar (by decide)))
        trivial
  | timeTz =>
      obtain ⟨micros, offset, rfl, hj⟩ := of_getTimeTz hj
      obtain rfl := Except.ok.inj hj
      exact decodes_timeTz_iff htext hcast hd
  | timestamp =>
      obtain ⟨i, rfl, hj⟩ := of_getInt hj
      obtain rfl := Except.ok.inj hj
      exact decodes_timestamp_iff htext hcal hrefuses .timestamp hcast hd rfl
  | timestampSec =>
      obtain ⟨i, rfl, hiso⟩ := of_getInt hj
      obtain ⟨s, hs, hj⟩ := bind_eq_ok.mp hiso
      obtain rfl := Except.ok.inj hj
      exact decodes_timestamp_iff htext hcal hrefuses .timestampSec hcast hd hs
  | timestampMs =>
      obtain ⟨i, rfl, hiso⟩ := of_getInt hj
      obtain ⟨s, hs, hj⟩ := bind_eq_ok.mp hiso
      obtain rfl := Except.ok.inj hj
      exact decodes_timestamp_iff htext hcal hrefuses .timestampMs hcast hd hs
  | timestampNs =>
      obtain ⟨i, rfl, hj⟩ := of_getInt hj
      obtain rfl := Except.ok.inj hj
      exact decodes_timestamp_iff htext hcal hrefuses .timestampNs hcast hd rfl
  | timestampTz =>
      obtain ⟨i, rfl, hj⟩ := of_getInt hj
      obtain rfl := Except.ok.inj hj
      exact decodes_timestamp_iff htext hcal hrefuses .timestampTz hcast hd rfl
  | interval =>
      obtain ⟨⟨months, days, micros⟩, -, hj⟩ := bind_eq_ok.mp hj
      obtain rfl := Except.ok.inj hj
      exact iff_of_false (not_decodes_interval months days micros _) id
  | blob =>
      obtain ⟨s, rfl, hj⟩ := of_getString hj
      obtain rfl := Except.ok.inj hj
      exact decodes_blob_iff hcast s
  | bit =>
      obtain ⟨s, rfl, hj⟩ := of_getString hj
      obtain rfl := Except.ok.inj hj
      exact iff_of_true (decodes_text hcast (.bit s) hhas (htext.bit s).ascii (castable_scalar (by decide)))
        trivial
  | sqlNull => cases d <;> exact absurd hd id

end Scalar

/-! ## Containers -/

/-- Element by element. -/
theorem forall₂_iff_forall {α β : Type} {R : α → β → Prop} {S : β → α → Prop} {P : α → Prop} {as : List α}
    {bs : List β} (h : List.Forall₂ R as bs) (hSP : ∀ a ∈ as, ∀ b, R a b → (S b a ↔ P a)) :
    List.Forall₂ S bs as ↔ ∀ a ∈ as, P a := by
  induction h with
  | nil => simp
  | cons hab _ ih =>
      obtain ⟨hfirst, hrest⟩ := List.forall_mem_cons.mp hSP
      rw [List.forall₂_cons, List.forall_mem_cons, hfirst _ hab, ih hrest]

section Nested

variable (hkeeps : casts.Keeps) (hbuilds : casts.Builds) {js : List Json} (hjs : NumbersOk (arr js))

include hkeeps hbuilds hjs

/-- A LIST comes back if its elements do. -/
theorem decodes_list {c : LogicalType} {vs : List Value} (hvs : ∀ v ∈ vs, v.type = c) :
    decodeTree text casts (arr js) (.list c) = some (.nested (.list c) vs) ↔
      List.Forall₂ (fun j v => decodeTree text casts j c = some v) js vs := by
  rw [decodeTree_list hjs]
  constructor
  · rintro ⟨ws, hws, hlist⟩
    have heq := hkeeps.list c ws _ hlist
    rw [Value.nested.injEq] at heq
    rw [heq.2]
    exact hws
  · intro h
    exact ⟨vs, h, hbuilds.list c vs hvs⟩

/-- An ARRAY comes back if its elements do. -/
theorem decodes_array {c : LogicalType} {n : Nat} {vs : List Value} (hlen : vs.length = n) (hn : 1 ≤ n)
    (hvs : ∀ v ∈ vs, v.type = c) :
    decodeTree text casts (arr js) (.array c n) = some (.nested (.array c n) vs) ↔
      List.Forall₂ (fun j v => decodeTree text casts j c = some v) js vs := by
  rw [decodeTree_array hjs]
  constructor
  · rintro ⟨ws, hws, -, harray⟩
    have heq := hkeeps.array c ws _ harray
    rw [Value.nested.injEq] at heq
    rw [heq.2]
    exact hws
  · intro h
    have hne : vs ≠ [] := List.ne_nil_of_length_pos (by omega)
    refine ⟨vs, h, hlen, ?_⟩
    rw [hbuilds.array c vs hne hvs, hlen]

omit hjs in
/-- A MAP comes back if its keys and values do. -/
theorem decodes_map {ps : List (Json × Json)} (hps : NumbersOk (arr (ps.map fun p => arr [p.1, p.2])))
    {k t : LogicalType} {es : List (Value × Value)} (htypes : ∀ e ∈ es, e.1.type = k ∧ e.2.type = t)
    (hnotNull : ∀ e ∈ es, e.1.isNull = false) (hdistinct : (es.map Prod.fst).Nodup) :
    decodeTree text casts (arr (ps.map fun p => arr [p.1, p.2])) (.map k t) =
        some (.nested (.map k t) (es.map fun e => .nested (.entry k t) [e.1, e.2])) ↔
      List.Forall₂ (fun p e => decodeTree text casts p.1 k = some e.1 ∧
        decodeTree text casts p.2 t = some e.2) ps es := by
  have hpair : ∀ (p : Json × Json) (e : Value × Value),
      decodePair text casts k t (arr [p.1, p.2]) = some e ↔
        decodeTree text casts p.1 k = some e.1 ∧ decodeTree text casts p.2 t = some e.2 := by
    intro p e
    rw [decodePair_eq_some]
    constructor
    · rintro ⟨x, y, heq, hx, hy⟩
      simp only [Json.arr.injEq, List.cons.injEq, and_true] at heq
      obtain ⟨rfl, rfl⟩ := heq
      exact ⟨hx, hy⟩
    · rintro ⟨hx, hy⟩
      exact ⟨p.1, p.2, rfl, hx, hy⟩
  rw [decodeTree_map hps]
  simp only [List.forall₂_map_left_iff, hpair]
  constructor
  · rintro ⟨es', hes', hmap⟩
    have heq := hkeeps.map k t es' _ hmap
    rw [Value.nested.injEq] at heq
    rw [entries_injective heq.2]
    exact hes'
  · intro h
    exact ⟨es, h, hbuilds.map k t es htypes hnotNull hdistinct⟩

end Nested

section Struct

variable {fs : Fields} {rows : List Row}

theorem memberName_row {row : Row} (h : isIdentifier row.field.1 = true) :
    memberName (sourceMember (row.field.1, row.json)) = row.field.1 := by
  rw [memberName_sourceMember]
  exact sanitize_ascii fun b hb => (identifier_ascii h b hb).1

/-- **A STRUCT comes back** if its fields do and no two of them differ in letter case alone. -/
theorem decodes_struct (htyped : casts.Typed) (hstruct : casts.StructCast)
    (hfields : fs.toList = rows.map Row.field) (hident : ∀ row ∈ rows, isIdentifier row.field.1 = true)
    (htypes : ∀ row ∈ rows, row.value.type = row.field.2)
    (hok : NumbersOk (obj (rows.map fun row => (row.field.1, row.json))))
    (hlooks : looksTyped (.start (obj (rows.map fun row => (row.field.1, row.json))).text) = false) :
    decodeTree text casts (obj (rows.map fun row => (row.field.1, row.json))) (.struct fs) =
        some (.nested (.struct fs) (rows.map Row.value)) ↔
      (fs.names.map lower).Nodup ∧
        ∀ row ∈ rows, decodeTree text casts row.json row.field.2 = some row.value := by
  have hmembers : sourceMembers (rows.map fun row => (row.field.1, row.json)) =
      rows.map fun row => sourceMember (row.field.1, row.json) := by
    rw [sourceMembers_eq, List.map_map]
    rfl
  have hlower : fs.names.map lower = rows.map fun row => lower row.field.1 := by
    rw [Fields.names, hfields, List.map_map, List.map_map]
    rfl
  have hdistinct : (fs.toList.map fun f => lower f.1) = rows.map fun row => lower row.field.1 := by
    rw [hfields, List.map_map]
    rfl
  have honce : (rows.map fun row => lower (memberName (sourceMember (row.field.1, row.json)))) =
      rows.map fun row => lower row.field.1 :=
    List.map_congr_left fun row hrow => by rw [memberName_row (hident row hrow)]
  have hsources : ∀ m ∈ rows.map (fun row => sourceMember (row.field.1, row.json)), m.value.Ok ∧
      ¬ (m.value.Mentions (lit "type") ∧ m.value.Mentions (lit "value")) := by
    rw [List.forall_mem_map]
    intro row hrow
    have hmem : (row.field.1, row.json) ∈ rows.map fun row => (row.field.1, row.json) :=
      List.mem_map_of_mem hrow
    rw [value_sourceMember]
    exact ⟨source_ok _ (numbersOk_obj.mp hok _ hmem), not_mentions_member hok hlooks hmem⟩
  have hdecode : ∀ row ∈ rows, decodeTree text casts row.json row.field.2 =
      decodeText text casts (sourceMember (row.field.1, row.json)).value.text row.field.2 := by
    intro row _
    rw [value_sourceMember, decodeTree_source]
  have hmember : (rows.map fun row => lower row.field.1).Nodup → ∀ row ∈ rows,
      memberValue text casts (rows.map fun row => sourceMember (row.field.1, row.json)) row.field =
        decodeTree text casts row.json row.field.2 := by
    intro hnodup row hrow
    have honce' : ((rows.map fun row => sourceMember (row.field.1, row.json)).map fun m =>
        lower (memberName m)).Nodup := by
      rw [List.map_map]
      exact honce ▸ hnodup
    have hname : lower row.field.1 = lower (memberName (sourceMember (row.field.1, row.json))) := by
      rw [memberName_row (hident row hrow)]
    rw [memberValue_of_mem honce' (List.mem_map_of_mem hrow) hname, hdecode row hrow]
  have hfield : ∀ row ∈ rows, row.field ∈ fs.toList := fun row hrow => hfields ▸ List.mem_map_of_mem hrow
  rw [decodeTree_plain hok hlooks, hlower]
  constructor
  · rintro ⟨fs', hfs, hdec⟩
    obtain rfl := LogicalType.struct.inj hfs
    have hnodup : (rows.map fun row => lower row.field.1).Nodup := by
      obtain ⟨hnodup, -⟩ := decodeMembers_some hok htyped hstruct hlooks hdec
      rw [List.map_map] at hnodup
      refine (List.map_congr_left fun row hrow => ?_) ▸ hnodup
      exact congrArg lower (sanitize_ascii fun b hb => (identifier_ascii (hident row hrow) b hb).1)
    rw [hmembers] at hdec
    obtain ⟨hfits, heq⟩ := (decodeMembers_iff htyped hstruct (hdistinct ▸ hnodup)
      (fun m hm => (hsources m hm).1) (fun m hm => (hsources m hm).2) _).mp hdec
    refine ⟨hnodup, fun row hrow => ?_⟩
    obtain ⟨v, hv, -⟩ := hfits.decodes _ (List.mem_map_of_mem hrow) row.field (hfield row hrow)
      (by rw [memberName_row (hident row hrow)])
    have hvalues := (Value.nested.inj heq).2
    rw [hfields, List.map_map] at hvalues
    have hvalue := List.map_inj_left.mp hvalues row hrow
    rw [Function.comp_apply, fieldValue, hmember hnodup row hrow, hdecode row hrow, hv] at hvalue
    rw [hdecode row hrow, hv, hvalue]
    rfl
  · rintro ⟨hnodup, hrows⟩
    have hdistinct' : (fs.toList.map fun f => lower f.1).Nodup := hdistinct ▸ hnodup
    refine ⟨fs, rfl, ?_⟩
    rw [hmembers, decodeMembers_iff htyped hstruct hdistinct' (fun m hm => (hsources m hm).1)
      (fun m hm => (hsources m hm).2)]
    refine ⟨⟨?_, ?_, ?_⟩, ?_⟩
    · rw [List.forall_mem_map]
      exact fun row hrow => ⟨row.field, hfield row hrow, by rw [memberName_row (hident row hrow)]⟩
    · rw [List.map_map]
      exact honce ▸ hnodup
    · rw [List.forall_mem_map]
      intro row hrow f hf hname
      rw [memberName_row (hident row hrow)] at hname
      obtain rfl : f = row.field := eq_of_lower_eq hdistinct' hf (hfield row hrow) hname
      exact ⟨row.value, by rw [← hdecode row hrow, hrows row hrow], htypes row hrow⟩
    · rw [Value.nested.injEq, hfields, List.map_map]
      refine ⟨rfl, List.map_congr_left fun row hrow => ?_⟩
      rw [Function.comp_apply, fieldValue, hmember hnodup row hrow, hrows row hrow]
      rfl

end Struct

/-! ## Every value -/

theorem survives_list {c : LogicalType} {vs : List Value} :
    Survives (.nested (.list c) vs) ↔ ∀ v ∈ vs, Survives v := by
  constructor
  · intro h
    cases h with
    | list h => exact h
  · exact .list

theorem survives_array {c : LogicalType} {n : Nat} {vs : List Value} :
    Survives (.nested (.array c n) vs) ↔ ∀ v ∈ vs, Survives v := by
  constructor
  · intro h
    cases h with
    | array h => exact h
  · exact .array

theorem survives_struct {fs : Fields} {vs : List Value} : Survives (.nested (.struct fs) vs) ↔
    (fs.names.map lower).Nodup ∧ ¬ ((Value.nested (.struct fs) vs).Mentions (lit "type") ∧
      (Value.nested (.struct fs) vs).Mentions (lit "value")) ∧ ∀ v ∈ vs, Survives v := by
  constructor
  · intro h
    cases h with
    | struct hnames hplain h => exact ⟨hnames, hplain, h⟩
  · rintro ⟨hnames, hplain, h⟩
    exact .struct hnames hplain h

theorem survives_map {k t : LogicalType} {es : List (Value × Value)} :
    Survives (.nested (.map k t) (es.map fun e => .nested (.entry k t) [e.1, e.2])) ↔
      ∀ e ∈ es, Survives e.1 ∧ Survives e.2 := by
  constructor
  · intro h
    generalize hv : Value.nested (.map k t) (es.map fun e => .nested (.entry k t) [e.1, e.2]) = v at h
    cases h with
    | @map k' t' es' hkey hvalue =>
        simp only [Value.nested.injEq, LogicalType.map.injEq] at hv
        obtain ⟨⟨rfl, rfl⟩, hes⟩ := hv
        obtain rfl := entries_injective hes
        exact fun e he => ⟨hkey e he, hvalue e he⟩
    | _ => cases hv
  · exact fun h => .map (fun e he => (h e he).1) fun e he => (h e he).2

theorem survives_scalar {id : ScalarType} {d : Datum} :
    Survives (.leaf (.scalar id) d) ↔ id.Survives d := by
  constructor
  · intro h
    cases h with
    | scalar h => exact h
  · exact .scalar

/-- A type of the grammar has leaves, and an ARRAY of it elements. -/
theorem Nameable.array_pos {c : LogicalType} {n : Nat} (h : Nameable (.array c n)) : 1 ≤ n := by
  obtain ⟨s, h⟩ := h
  cases h with
  | array _ _ _ hrange => exact hrange.1

variable (hduck : casts.Documented text timeNs)
include hduck

/-- **What the encoder writes is decoded to the value it was written from exactly if the value
survives.** -/
theorem decodes_iff (T : LogicalType) : Nameable T → (∀ t ∈ T.leaves, casts.Inverts text timeNs t) →
    ∀ v, Has T v → ∀ j, valueJson text T v = .ok j →
      (decodeTree text casts j T = some v ↔ Survives v) := by
  have hnull : ∀ {T : LogicalType} {j : Json}, valueJson text T (.null T) = .ok j →
      (decodeTree text casts j T = some (.null T) ↔ Survives (.null T)) := by
    intro T j hj
    rw [valueJson_null] at hj
    obtain rfl := Except.ok.inj hj
    exact iff_of_true (decodeTree_null T) (.null T)
  induction T using LogicalType.induction_on with
  | scalar id =>
      intro hname hcasts v hv j hj
      cases hv with
      | null => exact hnull hj
      | scalar h =>
          rw [survives_scalar]
          exact decodes_scalar_iff hduck.wordless hduck.calendar hduck.format hduck.refuses hduck.builds
            (hcasts _ List.mem_cons_self) h hj
  | decimal w s =>
      intro hname hcasts v hv j hj
      cases hv with
      | null => exact hnull hj
      | decimal h =>
          obtain rfl := Except.ok.inj hj
          refine iff_of_true ?_ (.decimal w s _)
          exact decodes_text (hcasts _ List.mem_cons_self) (.decimal w s _) (.decimal h)
            (hduck.wordless.decimal _ _ _).ascii (by rintro (h | h | h) <;> cases h)
  | list c ih =>
      intro hname hcasts v hv j hj
      have hok := valueJson_numbersOk hduck.format _ _ _ hj
      cases hv with
      | null => exact hnull hj
      | list h =>
          obtain ⟨js, hjs, rfl⟩ := valueJson_list.mp hj
          rw [decodes_list hduck.keeps hduck.builds hok fun v hv => (h v hv).type_eq, survives_list]
          exact forall₂_iff_forall hjs fun v hv j hj => ih hname.list hcasts v (h v hv) j hj
  | array c n ih =>
      intro hname hcasts v hv j hj
      have hok := valueJson_numbersOk hduck.format _ _ _ hj
      cases hv with
      | null => exact hnull hj
      | array hlen h =>
          obtain ⟨js, hjs, rfl⟩ := valueJson_array.mp hj
          rw [decodes_array hduck.keeps hduck.builds hok hlen hname.array_pos fun v hv => (h v hv).type_eq,
            survives_array]
          exact forall₂_iff_forall hjs fun v hv j hj => ih hname.array hcasts v (h v hv) j hj
  | struct fs ih =>
      intro hname hcasts v hv j hj
      have hok := valueJson_numbersOk hduck.format _ _ _ hj
      have happart := apart hduck.typed hduck.keeps hduck.structCast hduck.strict hduck.format _ hname v hv j hj
      cases hv with
      | null => exact hnull hj
      | struct h =>
          obtain ⟨ms, hms, rfl⟩ := valueJson_struct.mp hj
          have hlooks := looksTyped_struct_iff hduck.wordless hname (.struct h) hok hj
          obtain ⟨rows, hfields, rfl, rfl, hrows⟩ := exists_rows h hms
          have hfield : ∀ row ∈ rows, row.field ∈ fs.toList :=
            fun row hrow => hfields ▸ List.mem_map_of_mem hrow
          have hrow : ∀ row ∈ rows, (decodeTree text casts row.json row.field.2 = some row.value ↔
              Survives row.value) := fun row hrow =>
            ih row.field (hfield row hrow) (hname.struct row.field (hfield row hrow)).2
              (fun t ht => hcasts t (Fields.mem_leaves (hfield row hrow) t ht)) row.value (hrows row hrow).1
              row.json (hrows row hrow).2
          rw [survives_struct, ← hlooks, List.forall_mem_map]
          cases htaken : looksTyped (.start (obj (rows.map fun row => (row.field.1, row.json))).text) with
          | true =>
              refine iff_of_false (fun hdecode => ?_) fun hsurvives => hsurvives.2.1 rfl
              -- A wrapper is one of its members, and none of these is the value.
              obtain ⟨m, hm, u, hu⟩ := decodeTree_wrapped hok htaken hdecode
              exact happart m.2 (.of_mem (List.mem_map_of_mem hm)) u hu
          | false =>
              rw [decodes_struct hduck.typed hduck.structCast hfields
                (fun row hrow => (hname.struct row.field (hfield row hrow)).1)
                (fun row hrow => (hrows row hrow).1.type_eq) hok htaken]
              refine and_congr_right fun _ => ?_
              rw [and_iff_right Bool.false_ne_true]
              exact forall₂_congr hrow
  | map k t ihk iht =>
      intro hname hcasts v hv j hj
      have hok := valueJson_numbersOk hduck.format _ _ _ hj
      cases hv with
      | null => exact hnull hj
      | map hkey hvalue hnotNull hdistinct =>
          obtain ⟨ps, hps, rfl⟩ := valueJson_map.mp hj
          rw [decodes_map hduck.keeps hduck.builds hok
            (fun e he => ⟨(hkey e he).type_eq, (hvalue e he).type_eq⟩) hnotNull hdistinct, survives_map]
          exact forall₂_iff_forall hps fun e he p hp => and_congr
            (ihk hname.map.1 (fun u hu => hcasts u (List.mem_append_left _ hu)) e.1 (hkey e he) p.1 hp.1)
            (iht hname.map.2 (fun u hu => hcasts u (List.mem_append_right _ hu)) e.2 (hvalue e he) p.2 hp.2)
  | union ms ih =>
      intro hname
      obtain ⟨s, h⟩ := hname
      cases h
  | enum ls =>
      intro hname
      obtain ⟨s, h⟩ := hname
      cases h
  | other n =>
      intro hname
      obtain ⟨s, h⟩ := hname
      cases h

end ParamDecoder

end Harbor
