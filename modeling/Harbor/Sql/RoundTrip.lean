import Harbor.Sql.Separated
import Harbor.Sql.Shape
import Harbor.Sql.Survives

set_option autoImplicit false

/-! # The round trip

`EmitValue` writes every value that survives, and a parameter list with this JSON in a typed wrapper is
decoded to exactly this value. **`round_trip_iff`** says that nothing else is decoded to the value it was
written from.
-/

namespace Harbor.ParamDecoder

open Bytes Json Encoder

variable {text : DuckText} {casts : DuckCasts} {timeNs : Int → Bytes}

/-! ## What survives is written -/

theorem converts_of_survives {v : Value} (h : Survives v) : Converts v := by
  induction h with
  | null t => exact .null t
  | @scalar id d h =>
      refine .scalar ?_
      cases id with
      | timestampSec =>
          cases d with
          | int i => exact h.1
          | _ => trivial
      | timestampMs =>
          cases d with
          | int i => exact h.1
          | _ => trivial
      | _ => trivial
  | decimal w s d => exact .leaf d nofun
  | list _ ih => exact .nested ih
  | array _ ih => exact .nested ih
  | struct _ _ _ ih => exact .nested ih
  | map _ _ ihk iht =>
      refine .nested (List.forall_mem_map.mpr fun e he => .nested ?_)
      exact List.forall_mem_cons.mpr ⟨ihk e he, List.forall_mem_singleton.mpr (iht e he)⟩

/-! ## The parameter -/

theorem isValueText_text {j : Json} (hj : NumbersOk j) : IsValueText j.text := by
  have hread := parseRawValue_source (source_ok j hj) ended_nil 0
  rw [List.append_nil, source_text] at hread
  exact ⟨_, hread⟩

/-- The object with a JSON value in it is taken for a typed wrapper. -/
theorem looksTyped_wrapper {typeJson s : Bytes} (htype : IsStringText typeJson s) {j : Json}
    (hj : NumbersOk j) : looksTyped (.start (typedWrapper typeJson j.text)) = true := by
  have hlooks := looksTyped_typedWrapper htype j.text 0 []
  have hskip : Skipped 0x7B 0x7D j.text := source_text j ▸ skipped_source (Or.inl ⟨rfl, rfl⟩) (source_ok j hj)
  rw [List.append_nil] at hlooks
  rw [Cursor.start, hlooks, hskip 1 [0x7D] (Nat.le_refl 1)]
  rfl

section Parameter

variable {typeJson s : Bytes} (htype : IsStringText typeJson s) {j : Json} (hj : NumbersOk j)
  {expectedTypes : List LogicalType} (hexpected : expectedTypes.length ≤ 1)

include htype hj hexpected

/-- A typed wrapper that is the only parameter is decoded as its value at its type. -/
theorem decodeParams_text {T : LogicalType} (hparse : parseType casts.types s = .ok T) (v : Value) :
    decodeParams text casts (0x5B :: typedWrapper typeJson j.text ++ [0x5D]) expectedTypes = .ok [v] ↔
      decodeTree text casts j T = some v := by
  have hcount : ¬ (expectedTypes ≠ [] ∧ 1 ≠ expectedTypes.length) := by
    rintro ⟨hne, hlen⟩
    have hpos := List.length_pos_of_ne_nil hne
    omega
  rw [decodeParams_typedWrapper htype (isValueText_text hj) hparse (looksTyped_wrapper htype hj), decodeTree,
    decodeText, Option.map_eq_some_iff]
  simp only [if_neg hcount, bind_eq_ok, Except.ok.injEq, List.cons.injEq, and_true, toOption_eq_some]
  exact Iff.rfl

omit hexpected in
/-- Without a type nothing is decoded. -/
theorem decodeParams_of_error {e : Bytes} (hparse : parseType casts.types s = .error e) (vs : List Value) :
    decodeParams text casts (0x5B :: typedWrapper typeJson j.text ++ [0x5D]) expectedTypes ≠ .ok vs := by
  intro h
  obtain ⟨r, hr⟩ := typedWrapper_head typeJson j.text
  obtain ⟨q, hq⟩ := readAll_typedWrapper htype (isValueText_text hj) 2 [0x5D]
  have hbrace : consumeChar 0x7B ⟨1, 0x7B :: r ++ [0x5D]⟩ = .ok ⟨2, r ++ [0x5D]⟩ :=
    consumeChar_blank (w := []) (by decide) (by decide) 1 (r ++ [0x5D])
  rw [hr, List.tail_cons] at hq
  rw [decodeParams_single (b := 0x7B) hr (by decide) (by decide), decodeCall_typedWrapper htype,
    if_pos (looksTyped_wrapper htype hj), hr, decodeTypedWrapper, hbrace] at h
  simp only [ok_bind, hq, hparse] at h
  cases h

end Parameter

theorem parseType_long {types : DuckTypes} {s : Bytes} (h : kMaxTypeStringLength < s.length) :
    parseType types s =
      .error (lit "type string longer than " ++ decNat kMaxTypeStringLength ++ lit " bytes") := by
  rw [parseType, parseLogicalType, if_pos h]

/-- **The encoder and the decoder agree on a value of the grammar exactly if it survives**, and the text of
its type is not too long for the parser. -/
theorem round_trip_iff (hduck : casts.Documented text timeNs) {T : LogicalType} {s : Bytes} (hs : Renders T s)
    (hmade : Makes casts.types T) (hnest : nesting T ≤ kMaxTypeNesting)
    (hcasts : ∀ t ∈ T.leaves, casts.Inverts text timeNs t)
    {typeJson : Bytes} (htype : IsStringText typeJson s) {v : Value} (hv : Has T v)
    {expectedTypes : List LogicalType} (hexpected : expectedTypes.length ≤ 1) :
    (∃ out, emitValue text T v .new = .ok out ∧
        decodeParams text casts (0x5B :: typedWrapper typeJson out.buf ++ [0x5D]) expectedTypes = .ok [v]) ↔
      s.length ≤ kMaxTypeStringLength ∧ Survives v := by
  have hok : ∀ {j}, valueJson text T v = .ok j → NumbersOk j :=
    fun hj => valueJson_numbersOk hduck.format T v _ hj
  have hdecodes : ∀ {j}, valueJson text T v = .ok j → (decodeTree text casts j T = some v ↔ Survives v) :=
    fun hj => decodes_iff hduck T ⟨s, hs⟩ hcasts v hv _ hj
  constructor
  · rintro ⟨out, hout, hdecode⟩
    obtain ⟨j, hj, rfl⟩ := emitValue_eq_ok.mp hout
    rw [write_new] at hdecode
    have hshort : s.length ≤ kMaxTypeStringLength := by
      by_contra hlong
      exact decodeParams_of_error htype (hok hj) (parseType_long (Nat.lt_of_not_le hlong)) [v] hdecode
    have hparse := parseType_of_renders hs hmade hnest hshort
    exact ⟨hshort, (hdecodes hj).mp ((decodeParams_text htype (hok hj) hexpected hparse v).mp hdecode)⟩
  · rintro ⟨hshort, hsurvives⟩
    have hparse := parseType_of_renders hs hmade hnest hshort
    obtain ⟨j, hj⟩ := (value_written_iff T v hv).mpr (converts_of_survives hsurvives)
    refine ⟨write .new j, emitValue_eq_ok.mpr ⟨j, hj, rfl⟩, ?_⟩
    rw [write_new, decodeParams_text htype (hok hj) hexpected hparse]
    exact (hdecodes hj).mpr hsurvives

/-! ## A DuckDB -/

theorem stoll_decInt {i : Int} (h : IsInt 64 i) : stoll (decInt i) = some i := by
  have hdigits : ∀ n, (decNat n).takeWhile isDigit = decNat n :=
    fun n => List.takeWhile_eq_self_iff.mpr isDigit_of_mem_decNat
  have hrange : -2 ^ 63 ≤ i ∧ i < 2 ^ 63 := by
    simpa [IsInt] using h
  cases i with
  | ofNat n =>
      obtain ⟨b, ds, hn⟩ := List.exists_cons_of_ne_nil (decNat_ne_nil n)
      have hb : isDigit b = true := isDigit_of_mem_decNat b (by rw [hn]; simp)
      have hplain : isSpace b = false ∧ b ≠ 0x2D ∧ b ≠ 0x2B := by
        grind [isDigit, isSpace]
      obtain ⟨hspace, hminus, hplus⟩ := hplain
      have hall := hdigits n
      have hvalue := natOfDigits_decNat n
      rw [hn] at hall hvalue
      simp only [decInt, hn]
      simp only [Int.ofNat_eq_natCast] at hrange ⊢
      simp [stoll, hspace, hminus, hplus, hall, hvalue]
      omega
  | negSucc n =>
      have hvalue := natOfDigits_decNat (n + 1)
      have hspace : isSpace 0x2D = false := rfl
      rw [decInt]
      rw [Int.negSucc_eq] at hrange ⊢
      simp [stoll, hspace, hdigits, hvalue, decNat_ne_nil]
      omega

/-- `Bit::ToString`: the bits behind the padding. -/
def bitToString : Bytes → Bytes
  | [] => []
  | padding :: bytes =>
      let bits (b : UInt8) : Bytes :=
        (List.range 8).map fun i => if b.toNat.testBit (7 - i) then 0x31 else 0x30
      (bytes.flatMap bits).drop padding.toNat

/-- Dates, times and bits as DuckDB prints them. -/
def duckText : DuckText := { DuckText.civil with bitToString := bitToString }

theorem isWordless_of_digits {s : Bytes} (h : ∀ b ∈ s, isDigit b = true) : IsWordless s := by
  have hbyte : ∀ b, isDigit b = true → b < 0x80 ∧ b ≠ 0x70 ∧ b ≠ 0x76 :=
    forall_byte (P := fun b => isDigit b = true → b < 0x80 ∧ b ≠ 0x70 ∧ b ≠ 0x76) (by decide +kernel)
  exact fun b hb => hbyte b (h b hb)

theorem isWordless_pad (width n : Nat) : IsWordless (Civil.pad width n) := by
  refine isWordless_of_digits fun b hb => ?_
  rcases List.mem_append.mp hb with hb | hb
  · rw [List.eq_of_mem_replicate hb]
    rfl
  · exact isDigit_of_mem_decNat b hb

theorem isWordless_digits (year : Int) (month day : Nat) : IsWordless (Civil.digits year month day) :=
  (isWordless_pad _ _).append (.cons (by decide) ((isWordless_pad _ _).append
    (.cons (by decide) (isWordless_pad _ _))))

theorem isWordless_date (d : Int) : IsWordless (Civil.dateToString d) := by
  simp only [Civil.dateToString]
  split_ifs
  · exact (isWordless_digits _ _ _).append (by decide)
  · exact isWordless_digits _ _ _

theorem isWordless_time (width : Nat) (ticks : Int) : IsWordless (Civil.timeToString width ticks) := by
  have hclock : ∀ n : Nat, IsWordless (Civil.pad 2 n) := fun n => isWordless_pad 2 n
  simp only [Civil.timeToString]
  refine ((hclock _).append (.cons (by decide) ((hclock _).append (.cons (by decide) (hclock _))))).append ?_
  split_ifs
  · decide
  · refine .cons (by decide) fun b hb => ?_
    rw [List.mem_reverse] at hb
    exact isWordless_pad _ _ b (List.mem_reverse.mp ((List.dropWhile_suffix _).subset hb))

theorem isWordless_timestamp (perDay : Int) {time : Int → Bytes} (htime : ∀ i, IsWordless (time i))
    (ts : Int) : IsWordless (Civil.timestampToString perDay time ts) := by
  rw [Civil.timestampToString]
  split_ifs
  · decide
  · decide
  · exact (isWordless_date _).append (.cons (by decide) (htime _))

theorem isWordless_bit (s : Bytes) : IsWordless (bitToString s) := by
  refine isWordless_of_digits fun b hb => ?_
  cases s with
  | nil => cases hb
  | cons padding bytes =>
      obtain ⟨byte, -, hb⟩ := List.mem_flatMap.mp (List.mem_of_mem_drop hb)
      obtain ⟨i, -, rfl⟩ := List.mem_map.mp hb
      split_ifs <;> rfl

theorem duckText_wordless : duckText.Wordless where
  decimal i _ _ := isWordless_decInt i
  uuid i := isWordless_decInt i
  date := isWordless_date
  time := isWordless_time 6
  utcOffset hours minutes := ((isWordless_decInt hours).append (by decide)).append (isWordless_decInt minutes)
  timestamp := isWordless_timestamp _ (isWordless_time 6)
  timestampNs := isWordless_timestamp _ (isWordless_time 9)
  bit := isWordless_bit

theorem duckText_calendar : duckText.Calendar (Civil.timeToString 9) where
  timestamp_finite := Civil.calendar.timestamp_finite
  timestamp_infinity := Civil.calendar.timestamp_infinity
  timestamp_ninfinity := Civil.calendar.timestamp_ninfinity
  timestampNs_finite := Civil.calendar.timestampNs_finite
  timestampNs_infinity := Civil.calendar.timestampNs_infinity
  timestampNs_ninfinity := Civil.calendar.timestampNs_ninfinity
  date_ad := Civil.calendar.date_ad
  date_bc := Civil.calendar.date_bc

/-- Only whole numbers are cast from text. -/
theorem simple_castText {s : Bytes} {t : LogicalType} {v : Value}
    (h : DuckCasts.simple.castText s t = .ok v) :
    ∃ i, t = .scalar .integer ∧ v = .leaf (.scalar .integer) (.int i) := by
  simp only [DuckCasts.simple] at h
  split at h
  · split at h
    · split_ifs at h
      cases h
      exact ⟨_, rfl, rfl⟩
    · cases h
  · cases h

/-- The JSON of a number has nothing inside of it. -/
theorem parts_of_int {T t : LogicalType} {i : Int} {j : Json}
    (h : valueJson text T (.leaf t (.int i)) = .ok j) : j.parts = [] := by
  cases T with
  | scalar id =>
      by_cases hid : id = .sqlNull
      · subst hid
        cases h
        rfl
      · rcases scalarJson_form hid h with ⟨x, rfl⟩ | ⟨x, rfl⟩ | ⟨x, rfl⟩ | ⟨rfl, _⟩
        · rfl
        · rfl
        · rfl
        · cases h
  | decimal w s =>
      cases h
      rfl
  | enum ls =>
      obtain ⟨k, -, h⟩ := bind_eq_ok.mp h
      split at h <;> cases h
      rfl
  | other n =>
      cases h
      rfl
  | _ => cases h

theorem simple_documented : DuckCasts.simple.Documented duckText (Civil.timeToString 9) where
  wordless := duckText_wordless
  calendar := duckText_calendar
  format := isNumber_numerals
  typed := DuckCasts.simple_typed
  keeps := DuckCasts.simple_keeps
  structCast := DuckCasts.simple_structCast
  builds :=
    { varchar := fun _ _ => rfl
      list := fun _ _ _ => rfl
      array := fun _ _ _ _ => rfl
      map := fun _ _ _ _ _ _ => rfl }
  strict :=
    { castBool := fun _ _ _ _ h => by cases h
      castText := fun t v j _ _ hj s hs h => by
        obtain ⟨i, -, rfl⟩ := simple_castText h
        obtain ⟨z, hz, -⟩ := within_iff.mp hs
        rw [parts_of_int hj] at hz
        exact absurd hz List.not_mem_nil }
  refuses := fun type s _ v h => by
    obtain ⟨i, htype, -⟩ := simple_castText h
    cases type <;> cases htype

theorem simple_inverts {t : LogicalType} (ht : t = .scalar .integer ∨ t = .scalar .varchar) :
    DuckCasts.simple.Inverts duckText (Civil.timeToString 9) t := by
  intro d s hprint hhas
  cases hprint with
  | @integer id hid i =>
      obtain rfl : id = .integer := by
        rcases ht with ht | ht
        · exact LogicalType.scalar.inj ht
        · rw [LogicalType.scalar.inj ht] at hid
          exact absurd hid (by decide)
      cases hhas with
      | scalar hi =>
          have hwide : IsInt 64 i := by
            have hi : -2 ^ (32 - 1) ≤ i ∧ i < 2 ^ (32 - 1) := hi
            constructor <;> omega
          simp only [DuckCasts.simple, stoll_decInt hwide]
          exact if_pos hi
  | double h => rcases h with rfl | rfl <;> rcases ht with ht | ht <;> cases ht
  | @timestamp type => cases type <;> rcases ht with ht | ht <;> cases ht
  | _ => rcases ht with ht | ht <;> cases ht

/-- `STRUCT(id INTEGER,kind VARCHAR)` -/
def kindFields : Fields := .cons (lit "id") (.scalar .integer) (.cons (lit "kind") (.scalar .varchar) .nil)

/-- `[{'id': 5, 'kind': type}, NULL, {'id': NULL, 'kind': NULL}]` -/
def kinds : Value :=
  .nested (.list (.struct kindFields))
    [.nested (.struct kindFields)
        [.leaf (.scalar .integer) (.int 5), .leaf (.scalar .varchar) (.str (lit "type"))],
      .null (.struct kindFields),
      .nested (.struct kindFields) [.null (.scalar .integer), .null (.scalar .varchar)]]

theorem has_kinds : Has (.list (.struct kindFields)) kinds := by
  refine .list ?_
  simp only [List.forall_mem_cons, List.not_mem_nil, false_implies, implies_true, and_true]
  have hid : ScalarType.integer.Has (.int 5) := ⟨by decide, by decide⟩
  have hkind : ScalarType.varchar.Has (.str (lit "type")) := isUtf8_of_ascii (by decide)
  exact ⟨.struct (.cons (.scalar hid) (.cons (.scalar hkind) .nil)), .null _,
    .struct (.cons (.null _) (.cons (.null _) .nil))⟩

theorem survives_kinds : Survives kinds := by
  have hnames : (kindFields.names.map lower).Nodup := by decide
  have hplain : ∀ vs : List Value, (∀ v ∈ vs, ¬ v.Mentions (lit "value")) →
      ¬ ((Value.nested (.struct kindFields) vs).Mentions (lit "type") ∧
        (Value.nested (.struct kindFields) vs).Mentions (lit "value")) := by
    rintro vs hvs ⟨-, h⟩
    rcases mentions_struct.mp h with hname | ⟨v, hv, h⟩
    · exact absurd hname (by decide)
    · exact hvs v hv h
  refine .list ?_
  simp only [List.forall_mem_cons, List.not_mem_nil, false_implies, implies_true, and_true]
  refine ⟨.struct hnames (hplain _ ?_) ?_, .null _, .struct hnames (hplain _ ?_) ?_⟩
  · simp only [List.forall_mem_cons, List.not_mem_nil, false_implies, implies_true, and_true]
    constructor
    · intro h
      cases h
    · intro h
      cases h with
      | varchar h => exact absurd h (by decide)
  · simp only [List.forall_mem_cons, List.not_mem_nil, false_implies, implies_true, and_true]
    exact ⟨.scalar trivial, .scalar trivial⟩
  · simp only [List.forall_mem_cons, List.not_mem_nil, false_implies, implies_true, and_true]
    constructor <;> intro h <;> cases h
  · simp only [List.forall_mem_cons, List.not_mem_nil, false_implies, implies_true, and_true]
    exact ⟨.null _, .null _⟩

theorem renders_kinds :
    Renders (.list (.struct kindFields)) (lit "LIST<STRUCT(id INTEGER,kind VARCHAR)>") := by
  have hfields : RendersFields kindFields
      ((lit "id" ++ 0x20 :: lit "INTEGER") ++ 0x2C :: (lit "kind" ++ 0x20 :: lit "VARCHAR")) :=
    .more (by decide) (.scalar (by decide)) (.last (by decide) (.scalar (by decide)))
  exact .list (k := lit "LIST") rfl (.struct (k := lit "STRUCT") rfl hfields)

theorem round_trip_iff_kinds :
    ∃ out, emitValue duckText (.list (.struct kindFields)) kinds .new = .ok out ∧
      decodeParams duckText DuckCasts.simple
        (0x5B :: typedWrapper (0x22 :: lit "LIST<STRUCT(id INTEGER,kind VARCHAR)>" ++ [0x22]) out.buf ++
          [0x5D]) [] = .ok [kinds] :=
  (round_trip_iff simple_documented renders_kinds ⟨trivial, trivial, trivial⟩ (by decide)
    (fun t ht => simple_inverts (List.mem_pair.mp ht)) (isStringText_plain (by decide)) has_kinds
    (show ([] : List LogicalType).length ≤ 1 from Nat.zero_le 1)).mpr ⟨by decide, survives_kinds⟩

/-- The object of an INTERVAL is not decoded at INTERVAL, whatever DuckDB casts. -/
theorem interval_not_decoded :
    Renders (.scalar .interval) (lit "INTERVAL") ∧
      Has (.scalar .interval) (.leaf (.scalar .interval) (.interval 0 1 0)) ∧
      ∀ (text : DuckText) (casts : DuckCasts), ¬ ∃ out,
        emitValue text (.scalar .interval) (.leaf (.scalar .interval) (.interval 0 1 0)) .new = .ok out ∧
          decodeParams text casts
              (0x5B :: typedWrapper (0x22 :: lit "INTERVAL" ++ [0x22]) out.buf ++ [0x5D]) [] =
            .ok [.leaf (.scalar .interval) (.interval 0 1 0)] := by
  have hhas : ScalarType.interval.Has (.interval 0 1 0) :=
    ⟨⟨by decide, by decide⟩, ⟨by decide, by decide⟩, by decide, by decide⟩
  refine ⟨.scalar (by decide), .scalar hhas, fun text casts => ?_⟩
  rintro ⟨out, hout, hdecode⟩
  obtain ⟨j, hj, rfl⟩ := emitValue_eq_ok.mp hout
  obtain rfl : intervalJson 0 1 0 = j := Except.ok.inj hj
  have hok : NumbersOk (intervalJson 0 1 0) := by
    rw [intervalJson, numbersOk_obj]
    simp
  have htype : IsStringText (0x22 :: lit "INTERVAL" ++ [0x22]) (lit "INTERVAL") :=
    isStringText_plain (by decide)
  have hcount : ([] : List LogicalType).length ≤ 1 := Nat.zero_le 1
  rw [write_new, decodeParams_text htype hok hcount rfl] at hdecode
  exact not_decodes_interval 0 1 0 _ hdecode

end Harbor.ParamDecoder
