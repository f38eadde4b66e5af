import Harbor.Sql.ScalarText

set_option autoImplicit false

/-! # Integers of 64 and 128 bits

The encoder writes BIGINT, UBIGINT, HUGEINT and UHUGEINT with four functions over four machine
types, two of them in halves of 64 bits whose upper half is signed in one and unsigned in the
other. This file takes them as the machine has them. **`MachineInt.write_token`** is the one rule
all four follow, stated on the number the halves stand for, and `MachineInt.emitValue_value` says
that `EmitValue`, which knows only the number, is the function of the machine type.
-/

namespace Harbor

open Json

/-! ## The machine types -/

/-- `hugeint_t`. -/
structure Hugeint where
  lower : UInt64
  upper : Int64
deriving DecidableEq, Repr

/-- `uhugeint_t`. -/
structure Uhugeint where
  lower : UInt64
  upper : UInt64
deriving DecidableEq, Repr

/-- Two's complement: only the upper half has a sign. -/
def Hugeint.value (v : Hugeint) : Int := v.upper.toInt * 2 ^ 64 + v.lower.toNat

def Uhugeint.value (v : Uhugeint) : Int := v.upper.toNat * 2 ^ 64 + v.lower.toNat

theorem Uhugeint.value_nonneg (v : Uhugeint) : 0 ≤ v.value := by
  rw [Uhugeint.value]
  omega

theorem toInt_ofInt {i : Int} (h : IsInt 64 i) : (Int64.ofInt i).toInt = i :=
  Int64.toInt_ofInt_of_le h.1 h.2

theorem toNat_ofNat_toNat {i : Int} (h : IsUint 64 i) :
    ((UInt64.ofNat i.toNat).toNat : Int) = i := by
  obtain ⟨hlow, hhigh⟩ := h
  have hlt : i.toNat < 2 ^ 64 := by omega
  rw [UInt64.toNat_ofNat_of_lt' hlt, Int.toNat_of_nonneg hlow]

theorem isUint_toNat (i : UInt64) : IsUint 64 i.toNat := by
  have hlt : i.toNat < 2 ^ 64 := i.toNat_lt
  exact ⟨Int.natCast_nonneg _, by omega⟩

/-- What the encoder uses of DuckDB's integers of 128 bits. -/
structure WideCasts where
  /-- `Hugeint::TryCast` to `int64_t`. -/
  hugeintTryCast : Hugeint → Option Int64
  /-- `Uhugeint::TryCast` to `uint64_t`. -/
  uhugeintTryCast : Uhugeint → Option UInt64
  /-- `Hugeint::ToString`. -/
  hugeintToString : Hugeint → Bytes
  /-- `Uhugeint::ToString`. -/
  uhugeintToString : Uhugeint → Bytes

/-- A cast succeeds exactly when the value fits, and then it is the value; the texts are the
decimal digits. -/
structure WideCasts.Exact (wide : WideCasts) : Prop where
  hugeint_cast : ∀ v i, wide.hugeintTryCast v = some i ↔ i.toInt = v.value
  uhugeint_cast : ∀ v i, wide.uhugeintTryCast v = some i ↔ (i.toNat : Int) = v.value
  hugeint_text : ∀ v, wide.hugeintToString v = Bytes.decInt v.value
  uhugeint_text : ∀ v, wide.uhugeintToString v = Bytes.decInt v.value

/-- The casts and texts of DuckDB, on the number. -/
def WideCasts.ofValue : WideCasts where
  hugeintTryCast v := if IsInt 64 v.value then some (Int64.ofInt v.value) else none
  uhugeintTryCast v := if IsUint 64 v.value then some (UInt64.ofNat v.value.toNat) else none
  hugeintToString v := Bytes.decInt v.value
  uhugeintToString v := Bytes.decInt v.value

theorem WideCasts.ofValue_exact : WideCasts.ofValue.Exact where
  hugeint_cast v i := by
    have hrange : IsInt 64 i.toInt := ⟨i.le_toInt, i.toInt_lt⟩
    simp only [WideCasts.ofValue, Option.ite_none_right_eq_some, Option.some.injEq]
    constructor
    · rintro ⟨hfits, rfl⟩
      exact toInt_ofInt hfits
    · intro h
      rw [← h, Int64.ofInt_toInt]
      exact ⟨hrange, rfl⟩
  uhugeint_cast v i := by
    have hrange : IsUint 64 i.toNat := isUint_toNat i
    simp only [WideCasts.ofValue, Option.ite_none_right_eq_some, Option.some.injEq]
    constructor
    · rintro ⟨hfits, rfl⟩
      exact toNat_ofNat_toNat hfits
    · intro h
      rw [← h, Int.toNat_natCast, UInt64.ofNat_toNat]
      exact ⟨hrange, rfl⟩
  hugeint_text _ := rfl
  uhugeint_text _ := rfl

/-- A value of one of the four types, as the machine holds it. -/
inductive MachineInt where
  | bigint (v : Int64)
  | ubigint (v : UInt64)
  | hugeint (v : Hugeint)
  | uhugeint (v : Uhugeint)
deriving DecidableEq, Repr

namespace MachineInt

def type : MachineInt → ScalarType
  | bigint _ => .bigint
  | ubigint _ => .ubigint
  | hugeint _ => .hugeint
  | uhugeint _ => .uhugeint

/-- The number it stands for. -/
def value : MachineInt → Int
  | bigint v => v.toInt
  | ubigint v => v.toNat
  | hugeint v => v.value
  | uhugeint v => v.value

/-! ## The four functions -/

def kJsonSafeIntegerMin : Int64 := -9007199254740991

def kJsonSafeIntegerMax : Int64 := 9007199254740991

def kJsonSafeUnsignedIntegerMax : UInt64 := 9007199254740991

/-- `IsJsonSafeInteger(int64_t)`. -/
def isJsonSafeInteger (v : Int64) : Bool := v ≥ kJsonSafeIntegerMin && v ≤ kJsonSafeIntegerMax

/-- `IsJsonSafeInteger(uint64_t)`. -/
def isJsonSafeUnsigned (v : UInt64) : Bool := v ≤ kJsonSafeUnsignedIntegerMax

/-- `EmitJsonSafeInt64OrString`. -/
def emitJsonSafeInt64OrString (v : Int64) (out : JsonWriter) : JsonWriter :=
  if isJsonSafeInteger v then out.int64 v.toInt else out.string (Bytes.decInt v.toInt)

/-- `EmitJsonSafeUint64OrString`. -/
def emitJsonSafeUint64OrString (v : UInt64) (out : JsonWriter) : JsonWriter :=
  if isJsonSafeUnsigned v then out.uint64 v.toNat else out.string (Bytes.decNat v.toNat)

variable (wide : WideCasts)

/-- `EmitJsonSafeHugeintOrString`. -/
def emitJsonSafeHugeintOrString (v : Hugeint) (out : JsonWriter) : JsonWriter :=
  match wide.hugeintTryCast v with
  | some asI64 =>
      if isJsonSafeInteger asI64 then out.int64 asI64.toInt
      else out.string (wide.hugeintToString v)
  | none => out.string (wide.hugeintToString v)

/-- `EmitJsonSafeUhugeintOrString`. -/
def emitJsonSafeUhugeintOrString (v : Uhugeint) (out : JsonWriter) : JsonWriter :=
  match wide.uhugeintTryCast v with
  | some asU64 =>
      if isJsonSafeUnsigned asU64 then out.uint64 asU64.toNat
      else out.string (wide.uhugeintToString v)
  | none => out.string (wide.uhugeintToString v)

/-- The integer cases of `EmitValue`. -/
def emit : MachineInt → JsonWriter → JsonWriter
  | bigint v => emitJsonSafeInt64OrString v
  | ubigint v => emitJsonSafeUint64OrString v
  | hugeint v => emitJsonSafeHugeintOrString wide v
  | uhugeint v => emitJsonSafeUhugeintOrString wide v

/-! ## The threshold -/

/-- The number as JSON: bare digits where a double holds it exactly, the digits in quotes
elsewhere. -/
def token (v : Int) : Json :=
  if |v| ≤ 2 ^ 53 - 1 then .num (Bytes.decInt v) else .str (Bytes.decInt v)

theorem token_within {v : Int} (h : |v| ≤ 2 ^ 53 - 1) : token v = .num (Bytes.decInt v) := if_pos h

theorem token_beyond {v : Int} (h : ¬ |v| ≤ 2 ^ 53 - 1) : token v = .str (Bytes.decInt v) :=
  if_neg h

theorem isJsonSafeInteger_iff (v : Int64) :
    isJsonSafeInteger v = true ↔ |v.toInt| ≤ 2 ^ 53 - 1 := by
  have hmin : kJsonSafeIntegerMin.toInt = -(2 ^ 53 - 1) := by decide
  have hmax : kJsonSafeIntegerMax.toInt = 2 ^ 53 - 1 := by decide
  rw [isJsonSafeInteger, Bool.and_eq_true, decide_eq_true_eq, decide_eq_true_eq, ge_iff_le,
    Int64.le_iff_toInt_le, Int64.le_iff_toInt_le, hmin, hmax]
  exact abs_le.symm

theorem isJsonSafeUnsigned_iff (v : UInt64) :
    isJsonSafeUnsigned v = true ↔ |(v.toNat : Int)| ≤ 2 ^ 53 - 1 := by
  have hmax : kJsonSafeUnsignedIntegerMax.toNat = 2 ^ 53 - 1 := by decide
  rw [isJsonSafeUnsigned, decide_eq_true_eq, UInt64.le_iff_toNat_le, hmax, Nat.abs_cast]
  omega

/-- A safe number fits 64 bits, with a sign or without. -/
theorem exists_int64 {v : Int} (h : |v| ≤ 2 ^ 53 - 1) : ∃ i : Int64, i.toInt = v := by
  obtain ⟨hlow, hhigh⟩ := abs_le.mp h
  exact ⟨Int64.ofInt v, toInt_ofInt ⟨by omega, by omega⟩⟩

theorem exists_uint64 {v : Int} (hnonneg : 0 ≤ v) (h : |v| ≤ 2 ^ 53 - 1) :
    ∃ i : UInt64, (i.toNat : Int) = v := by
  have hhigh := (abs_le.mp h).2
  exact ⟨UInt64.ofNat v.toNat, toNat_ofNat_toNat ⟨hnonneg, by omega⟩⟩

variable (out : JsonWriter)

theorem emitInt64_token (v : Int64) :
    emitJsonSafeInt64OrString v out = write out (token v.toInt) := by
  rw [emitJsonSafeInt64OrString]
  by_cases hsafe : |v.toInt| ≤ 2 ^ 53 - 1
  · rw [if_pos ((isJsonSafeInteger_iff v).mpr hsafe), token_within hsafe]
    rfl
  · rw [if_neg (mt (isJsonSafeInteger_iff v).mp hsafe), token_beyond hsafe]
    rfl

theorem emitUint64_token (v : UInt64) :
    emitJsonSafeUint64OrString v out = write out (token v.toNat) := by
  rw [emitJsonSafeUint64OrString]
  by_cases hsafe : |(v.toNat : Int)| ≤ 2 ^ 53 - 1
  · rw [if_pos ((isJsonSafeUnsigned_iff v).mpr hsafe), token_within hsafe]
    rfl
  · rw [if_neg (mt (isJsonSafeUnsigned_iff v).mp hsafe), token_beyond hsafe]
    rfl

variable {wide} (hwide : wide.Exact)
include hwide

theorem emitHugeint_token (v : Hugeint) :
    emitJsonSafeHugeintOrString wide v out = write out (token v.value) := by
  rw [emitJsonSafeHugeintOrString, hwide.hugeint_text]
  by_cases hsafe : |v.value| ≤ 2 ^ 53 - 1
  · obtain ⟨i, hi⟩ := exists_int64 hsafe
    rw [(hwide.hugeint_cast v i).mpr hi, token_within hsafe]
    rw [← hi] at hsafe ⊢
    exact if_pos ((isJsonSafeInteger_iff i).mpr hsafe)
  · rw [token_beyond hsafe]
    cases hcast : wide.hugeintTryCast v with
    | none => rfl
    | some i =>
        have hvalue := (hwide.hugeint_cast v i).mp hcast
        rw [← hvalue] at hsafe
        exact if_neg (mt (isJsonSafeInteger_iff i).mp hsafe)

theorem emitUhugeint_token (v : Uhugeint) :
    emitJsonSafeUhugeintOrString wide v out = write out (token v.value) := by
  rw [emitJsonSafeUhugeintOrString, hwide.uhugeint_text]
  by_cases hsafe : |v.value| ≤ 2 ^ 53 - 1
  · obtain ⟨i, hi⟩ := exists_uint64 v.value_nonneg hsafe
    rw [(hwide.uhugeint_cast v i).mpr hi, token_within hsafe]
    rw [← hi] at hsafe ⊢
    exact if_pos ((isJsonSafeUnsigned_iff i).mpr hsafe)
  · rw [token_beyond hsafe]
    cases hcast : wide.uhugeintTryCast v with
    | none => rfl
    | some i =>
        have hvalue := (hwide.uhugeint_cast v i).mp hcast
        rw [← hvalue] at hsafe
        exact if_neg (mt (isJsonSafeUnsigned_iff i).mp hsafe)

/-- **The four functions follow one rule**, on the number the machine type stands for. -/
theorem write_token (v : MachineInt) : emit wide v out = write out (token v.value) := by
  cases v with
  | bigint v => exact emitInt64_token out v
  | ubigint v => exact emitUint64_token out v
  | hugeint v => exact emitHugeint_token out hwide v
  | uhugeint v => exact emitUhugeint_token out hwide v

/-! ## The values of a column -/

omit hwide

/-- What `EmitValue` gets: a value of a column of the type. -/
def toValue (v : MachineInt) : Value := .leaf (.scalar v.type) (.int v.value)

theorem jsonSafe_token {safe : Int → Bool} {v : Int} (h : safe v = true ↔ |v| ≤ 2 ^ 53 - 1) :
    Encoder.jsonSafe safe v = token v := by
  rw [Encoder.jsonSafe, token]
  exact if_congr h rfl rfl

theorem jsonSafe_signed (v : Int) :
    Encoder.isJsonSafeInteger v = true ↔ |v| ≤ 2 ^ 53 - 1 := by
  rw [Encoder.isJsonSafeInteger, Encoder.kJsonSafeIntegerMax, Bool.and_eq_true,
    decide_eq_true_eq, decide_eq_true_eq, abs_le]
  omega

theorem jsonSafe_unsigned {v : Int} (h : 0 ≤ v) :
    Encoder.isJsonSafeUnsigned v = true ↔ |v| ≤ 2 ^ 53 - 1 := by
  rw [Encoder.isJsonSafeUnsigned, Encoder.kJsonSafeIntegerMax, decide_eq_true_eq, abs_le]
  omega

/-- The range of the cast is wider than the threshold, with a sign or without. -/
theorem jsonSafe_hugeint (v : Int) :
    ((-2 ^ 63 ≤ v && v < 2 ^ 63) && Encoder.isJsonSafeInteger v) = true ↔ |v| ≤ 2 ^ 53 - 1 := by
  rw [Bool.and_eq_true, Bool.and_eq_true, jsonSafe_signed, decide_eq_true_eq, decide_eq_true_eq,
    abs_le]
  omega

theorem jsonSafe_uhugeint {v : Int} (h : 0 ≤ v) :
    ((0 ≤ v && v < 2 ^ 64) && Encoder.isJsonSafeUnsigned v) = true ↔ |v| ≤ 2 ^ 53 - 1 := by
  rw [Bool.and_eq_true, Bool.and_eq_true, jsonSafe_unsigned h, decide_eq_true_eq,
    decide_eq_true_eq, abs_le]
  omega

variable (text : DuckText)

theorem emitJsonSafe_token {safe : Int → Bool} {v : Int} (h : safe v = true ↔ |v| ≤ 2 ^ 53 - 1) :
    Encoder.emitJsonSafe safe v out = write out (token v) := by
  rw [Encoder.emitJsonSafe_eq, jsonSafe_token h]

theorem emitValue_token (v : MachineInt) :
    Encoder.emitValue text (.scalar v.type) v.toValue out = .ok (write out (token v.value)) := by
  cases v with
  | bigint v => exact congrArg Except.ok (emitJsonSafe_token out (jsonSafe_signed v.toInt))
  | ubigint v =>
      have hnonneg : (0 : Int) ≤ v.toNat := Int.natCast_nonneg _
      exact congrArg Except.ok (emitJsonSafe_token out (jsonSafe_unsigned hnonneg))
  | hugeint v => exact congrArg Except.ok (emitJsonSafe_token out (jsonSafe_hugeint v.value))
  | uhugeint v =>
      exact congrArg Except.ok (emitJsonSafe_token out (jsonSafe_uhugeint v.value_nonneg))

/-- The halves of a number of 128 bits. -/
theorem exists_lower (i : Int) : ∃ lower : UInt64, i = i / 2 ^ 64 * 2 ^ 64 + lower.toNat := by
  have hnonneg : 0 ≤ i % 2 ^ 64 := Int.emod_nonneg _ (by norm_num)
  have hlt : i % 2 ^ 64 < 2 ^ 64 := Int.emod_lt_of_pos _ (by norm_num)
  refine ⟨UInt64.ofNat (i % 2 ^ 64).toNat, ?_⟩
  rw [toNat_ofNat_toNat ⟨hnonneg, hlt⟩]
  exact (Int.ediv_mul_add_emod i (2 ^ 64)).symm

theorem exists_hugeint {i : Int} (h : IsInt 128 i) : ∃ v : Hugeint, v.value = i := by
  obtain ⟨lower, hi⟩ := exists_lower i
  obtain ⟨hlow, hhigh⟩ := h
  have hupper : (Int64.ofInt (i / 2 ^ 64)).toInt = i / 2 ^ 64 := toInt_ofInt ⟨by omega, by omega⟩
  refine ⟨⟨lower, Int64.ofInt (i / 2 ^ 64)⟩, ?_⟩
  rw [Hugeint.value, hupper]
  exact hi.symm

theorem exists_uhugeint {i : Int} (h : IsUint 128 i) : ∃ v : Uhugeint, v.value = i := by
  obtain ⟨lower, hi⟩ := exists_lower i
  obtain ⟨hlow, hhigh⟩ := h
  have hupper : ((UInt64.ofNat (i / 2 ^ 64).toNat).toNat : Int) = i / 2 ^ 64 :=
    toNat_ofNat_toNat ⟨by omega, by omega⟩
  refine ⟨⟨lower, UInt64.ofNat (i / 2 ^ 64).toNat⟩, ?_⟩
  rw [Uhugeint.value, hupper]
  exact hi.symm

/-- Every value of a column of one of the four types is held by the machine. -/
theorem exists_toValue {id : ScalarType} {i : Int} (h : id.Has (.int i))
    (hid : id ∈ [.bigint, .ubigint, .hugeint, .uhugeint]) :
    ∃ v : MachineInt, v.toValue = .leaf (.scalar id) (.int i) := by
  simp only [List.mem_cons, List.not_mem_nil, or_false] at hid
  rcases hid with rfl | rfl | rfl | rfl
  · refine ⟨bigint (Int64.ofInt i), ?_⟩
    rw [toValue, value, toInt_ofInt h]
    rfl
  · refine ⟨ubigint (UInt64.ofNat i.toNat), ?_⟩
    rw [toValue, value, toNat_ofNat_toNat h]
    rfl
  · obtain ⟨v, rfl⟩ := exists_hugeint h
    exact ⟨hugeint v, rfl⟩
  · obtain ⟨v, rfl⟩ := exists_uhugeint h
    exact ⟨uhugeint v, rfl⟩

/-! ## The digits -/

/-- A reader of the token has the digits back, and they stand for the number. -/
theorem parse_token (v : Int) : parse (token v).text = some (token v) := by
  by_cases hsafe : |v| ≤ 2 ^ 53 - 1
  · rw [token_within hsafe, parse_text (numbersOk_num.mpr (isNumber_decInt v))]
    rfl
  · rw [token_beyond hsafe, parse_text (numbersOk_str _), sanitized, sanitize_ascii (decInt_ascii v)]

theorem token_num_iff (v : Int) : (∃ digits, token v = .num digits) ↔ |v| ≤ 2 ^ 53 - 1 := by
  constructor
  · rintro ⟨digits, h⟩
    by_contra hsafe
    rw [token_beyond hsafe] at h
    cases h
  · exact fun h => ⟨_, token_within h⟩

theorem token_str_iff (v : Int) : (∃ digits, token v = .str digits) ↔ 2 ^ 53 - 1 < |v| := by
  rw [← not_le]
  constructor
  · rintro ⟨digits, h⟩ hsafe
    rw [token_within hsafe] at h
    cases h
  · exact fun h => ⟨_, token_beyond h⟩

theorem token_digits {v : Int} {digits : Bytes}
    (h : token v = .num digits ∨ token v = .str digits) : digits = Bytes.decInt v := by
  by_cases hsafe : |v| ≤ 2 ^ 53 - 1
  · rw [token_within hsafe] at h
    rcases h with h | h
    · exact (num.inj h).symm
    · cases h
  · rw [token_beyond hsafe] at h
    rcases h with h | h
    · cases h
    · exact (str.inj h).symm

end MachineInt

open MachineInt

/-- **Every width is exact.** -/
theorem integer_emission_exact {wide : WideCasts} (hwide : wide.Exact) (text : DuckText)
    (v : MachineInt) (out : JsonWriter) :
    ∃ token : Json,
      Encoder.emitValue text (.scalar v.type) v.toValue out = .ok (v.emit wide out) ∧
      v.emit wide out = out.beforeValue.append token.text ∧ parse token.text = some token ∧
      ((∃ digits, token = .num digits) ↔ |v.value| ≤ 2 ^ 53 - 1) ∧
      ((∃ digits, token = .str digits) ↔ 2 ^ 53 - 1 < |v.value|) ∧
      ∀ digits, token = .num digits ∨ token = .str digits →
        digits = Bytes.decInt v.value ∧ numberValue digits = ⟨v.value < 0, v.value.natAbs⟩ := by
  have hwrite : v.emit wide out = write out (MachineInt.token v.value) := write_token out hwide v
  refine ⟨MachineInt.token v.value, ?_, ?_, parse_token _, token_num_iff _, token_str_iff _, ?_⟩
  · rw [emitValue_token, hwrite]
  · rw [hwrite, MachineInt.token]
    split_ifs <;> rfl
  · intro digits h
    have hdigits : digits = Bytes.decInt v.value := token_digits h
    exact ⟨hdigits, by rw [hdigits, numberValue_decInt]⟩

/-- The most negative HUGEINT. -/
theorem integer_emission_exact_minimum :
    ∃ token : Json,
      Encoder.emitValue .numerals (.scalar .hugeint) (.leaf (.scalar .hugeint) (.int (-2 ^ 127)))
        .new = .ok ((hugeint ⟨0, Int64.minValue⟩).emit .ofValue .new) ∧
      (hugeint ⟨0, Int64.minValue⟩).emit .ofValue .new = JsonWriter.new.append token.text ∧
      parse token.text = some token ∧
      ((∃ digits, token = .num digits) ↔ |(-2 ^ 127 : Int)| ≤ 2 ^ 53 - 1) ∧
      ((∃ digits, token = .str digits) ↔ 2 ^ 53 - 1 < |(-2 ^ 127 : Int)|) ∧
      ∀ digits, token = .num digits ∨ token = .str digits →
        digits = Bytes.decInt (-2 ^ 127) ∧
        numberValue digits = ⟨(-2 ^ 127 : Int) < 0, ((-2 ^ 127 : Int).natAbs : ℚ)⟩ :=
  integer_emission_exact WideCasts.ofValue_exact .numerals (hugeint ⟨0, Int64.minValue⟩) .new

end Harbor
