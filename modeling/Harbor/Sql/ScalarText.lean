import Harbor.Sql.EncoderTree
import Mathlib.Data.Set.Function

set_option autoImplicit false

/-! # The text of scalars loses nothing

`DuckText.Faithful` collects what is assumed of DuckDB's to-text functions and of `%.17g`: they
print ASCII, they print different values differently, and their timestamps have the documented
form. `scalar_injective` is the consequence for the encoder: apart from TIMETZ, two scalars with
the same JSON are the same scalar, whatever the encoder did to their text.
-/

namespace Harbor

open Json Encoder

/-! ## What is assumed of the to-text functions -/

def IsAscii (s : Bytes) : Prop := ∀ b ∈ s, b < 0x80

instance (s : Bytes) : Decidable (IsAscii s) := inferInstanceAs (Decidable (∀ b ∈ s, b < 0x80))

/-- The fraction of a text, with its dot. -/
def fraction (s : Bytes) : Bytes := s.dropWhile (· ≠ 0x2E)

structure DuckText.Faithful (text : DuckText) : Prop where
  /-- `%.17g` prints a JSON number. -/
  double_number : ∀ d, IsNumber (text.formatDouble d)
  /-- `%.17g` distinguishes doubles. -/
  double_inj : Function.Injective fun d => numberValue (text.formatDouble d)
  decimal_inj : ∀ w s, Set.InjOn (fun i => text.decimalToString i w s) {i | -10 ^ w < i ∧ i < 10 ^ w}
  uuid_inj : Set.InjOn text.uuidToString {i | IsInt 128 i}
  date_inj : Set.InjOn text.dateToString {i | IsInt 32 i}
  time_inj : Set.InjOn text.timeToString {i | 0 ≤ i ∧ i ≤ 86400000000}
  timestamp_inj : Set.InjOn text.timestampToString {i | IsInt 64 i}
  timestampNs_inj : Set.InjOn text.timestampNsToString {i | IsInt 64 i}
  bit_inj : Set.InjOn text.bitToString {s | IsBit s}
  decimal_ascii : ∀ i w s, IsAscii (text.decimalToString i w s)
  uuid_ascii : ∀ i, IsAscii (text.uuidToString i)
  date_ascii : ∀ i, IsAscii (text.dateToString i)
  time_ascii : ∀ i, IsAscii (text.timeToString i)
  timestamp_ascii : ∀ i, IsAscii (text.timestampToString i)
  timestampNs_ascii : ∀ i, IsAscii (text.timestampNsToString i)
  bit_ascii : ∀ s, IsAscii (text.bitToString s)
  /-- Date and time are apart by a blank: no timestamp has a `T`. -/
  timestamp_blank : ∀ i, 0x54 ∉ text.timestampToString i
  timestampNs_blank : ∀ i, 0x54 ∉ text.timestampNsToString i
  /-- A whole second has no fraction. -/
  timestamp_seconds : ∀ s, fraction (text.timestampToString (s * 1000000)) = []
  /-- A whole millisecond has a fraction of at most three digits. -/
  timestamp_millis : ∀ ms, (fraction (text.timestampToString (ms * 1000))).length ≤ 4

/-! ## What the encoder does to the text -/

theorem blankToT_injective {s t : Bytes} (hs : 0x54 ∉ s) (ht : 0x54 ∉ t)
    (h : blankToT s = blankToT t) : s = t := by
  induction s generalizing t with
  | nil =>
      cases t with
      | nil => rfl
      | cons c t =>
          rw [blankToT, blankToT] at h
          split_ifs at h
  | cons b s ih =>
      cases t with
      | nil =>
          rw [blankToT, blankToT] at h
          split_ifs at h
      | cons c t =>
          simp only [List.mem_cons, not_or] at hs ht
          rw [blankToT, blankToT] at h
          split_ifs at h with hb hc hc
          · rw [hb, hc, (List.cons.inj h).2]
          · exact absurd (List.cons.inj h).1 ht.1
          · exact absurd (List.cons.inj h).1.symm hs.1
          · rw [(List.cons.inj h).1, ih hs.2 ht.2 (List.cons.inj h).2]

theorem length_blankToT (s : Bytes) : (blankToT s).length = s.length := by
  induction s with
  | nil => rfl
  | cons b s ih =>
      rw [blankToT]
      split_ifs
      · rfl
      · rw [List.length_cons, ih, List.length_cons]

theorem length_fraction_blankToT (s : Bytes) :
    (fraction (blankToT s)).length = (fraction s).length := by
  rw [fraction, fraction]
  induction s with
  | nil => rfl
  | cons b s ih =>
      rw [blankToT]
      split_ifs with hb
      · subst hb
        rfl
      · by_cases hdot : b = 0x2E
        · simp [hdot, length_blankToT]
        · simpa [List.dropWhile_cons, hdot] using ih

theorem cutFraction_of_le {keep : Nat} {s : Bytes} (h : (fraction s).length ≤ keep) :
    cutFraction keep s = s := by
  have htake : (s.dropWhile (· ≠ 0x2E)).take keep = s.dropWhile (· ≠ 0x2E) :=
    List.take_of_length_le h
  rw [cutFraction, htake]
  exact List.takeWhile_append_dropWhile

theorem mem_blankToT {b : UInt8} {s : Bytes} (h : b ∈ blankToT s) : b = 0x54 ∨ b ∈ s := by
  induction s with
  | nil => exact Or.inr h
  | cons c s ih =>
      rw [blankToT] at h
      split_ifs at h
      · rcases List.mem_cons.mp h with h | h
        · exact Or.inl h
        · exact Or.inr (List.mem_cons_of_mem _ h)
      · rcases List.mem_cons.mp h with rfl | h
        · exact Or.inr List.mem_cons_self
        · exact (ih h).imp_right (List.mem_cons_of_mem _)

theorem blankToT_ascii {s : Bytes} (h : IsAscii s) : IsAscii (blankToT s) := by
  intro b hb
  rcases mem_blankToT hb with rfl | hb
  · decide
  · exact h b hb

theorem decInt_injective {i j : Int} (h : Bytes.decInt i = Bytes.decInt j) : i = j :=
  numberValue_decInt_injective (congrArg numberValue h)

theorem decNat_ascii (n : Nat) : IsAscii (Bytes.decNat n) := by
  intro b hb
  have hdigit := Bytes.isDigit_of_mem_decNat b hb
  grind [Bytes.isDigit]

theorem decInt_ascii (i : Int) : IsAscii (Bytes.decInt i) := by
  cases i with
  | ofNat n => exact decNat_ascii n
  | negSucc n => exact List.forall_mem_cons.mpr ⟨by decide, decNat_ascii (n + 1)⟩

/-- A byte that is neither a digit nor the sign is in no integer. -/
theorem notMem_decInt {b : UInt8} (hdigit : Bytes.isDigit b = false) (hminus : b ≠ 0x2D) (i : Int) :
    b ∉ Bytes.decInt i := by
  have hnat : ∀ n, b ∉ Bytes.decNat n := by
    intro n hb
    rw [Bytes.isDigit_of_mem_decNat b hb] at hdigit
    cases hdigit
  cases i with
  | ofNat n => exact hnat n
  | negSucc n => exact fun hb => (List.mem_cons.mp hb).elim hminus (hnat (n + 1))

/-! ## Scalars with the same JSON -/

/-- What a consumer makes of the tree, after the writer. -/
def view (j : Json) : JVal := j.sanitized.read

theorem view_str_injective {a b : Bytes} (ha : Bytes.IsUtf8 a) (hb : Bytes.IsUtf8 b)
    (h : view (str a) = view (str b)) : a = b := by
  have hs : sanitize a = sanitize b := JVal.str.inj h
  rwa [sanitize_of_isUtf8 ha, sanitize_of_isUtf8 hb] at hs

theorem view_ascii_injective {a b : Bytes} (ha : IsAscii a) (hb : IsAscii b)
    (h : view (str a) = view (str b)) : a = b :=
  view_str_injective (Bytes.isUtf8_of_ascii ha) (Bytes.isUtf8_of_ascii hb) h

theorem view_num_injective {i j : Int}
    (h : view (num (Bytes.decInt i)) = view (num (Bytes.decInt j))) : i = j :=
  numberValue_decInt_injective (JVal.num.inj h)

theorem jsonSafe_injective {safe : Int → Bool} {i j : Int}
    (h : view (jsonSafe safe i) = view (jsonSafe safe j)) : i = j := by
  rw [jsonSafe, jsonSafe] at h
  split_ifs at h
  · exact view_num_injective h
  · cases h
  · cases h
  · exact decInt_injective (view_ascii_injective (decInt_ascii i) (decInt_ascii j) h)

theorem intervalJson_injective {months days micros months' days' micros' : Int}
    (h : view (intervalJson months days micros) = view (intervalJson months' days' micros')) :
    months = months' ∧ days = days' ∧ micros = micros' := by
  rw [view, view, sanitized_intervalJson, sanitized_intervalJson] at h
  have hmap := JVal.obj.inj h
  have hmonths := congrFun hmap (lit "months")
  have hdays := congrFun hmap (lit "days")
  have hmicros := congrFun hmap (lit "micros")
  simp +decide only [readMap, readMember, Json.read, if_true, if_false,
    Option.some.injEq] at hmonths hdays hmicros
  refine ⟨view_num_injective hmonths, view_num_injective hdays, ?_⟩
  exact decInt_injective (view_ascii_injective (decInt_ascii _) (decInt_ascii _) hmicros)

variable {text : DuckText} (ht : text.Faithful)
include ht

theorem doubleJson_injective {d e : Double}
    (h : view (doubleJson text d) = view (doubleJson text e)) : d = e := by
  cases d with
  | nan =>
      cases e with
      | nan => rfl
      | inf neg =>
          have hs := view_ascii_injective (a := lit "NaN") (by decide) (by cases neg <;> decide) h
          cases neg <;> exact absurd hs (by decide)
      | finite e => cases h
  | inf neg =>
      cases e with
      | nan =>
          have hs := view_ascii_injective (b := lit "NaN") (by cases neg <;> decide) (by decide) h
          cases neg <;> exact absurd hs (by decide)
      | inf neg' =>
          have hs := view_ascii_injective (by cases neg <;> decide) (by cases neg' <;> decide) h
          cases neg <;> cases neg' <;> first | rfl | exact absurd hs (by decide)
      | finite e => cases h
  | finite d =>
      cases e with
      | nan => cases h
      | inf neg => cases h
      | finite e => rw [ht.double_inj (JVal.num.inj h)]

theorem timestamp_injective {i j : Int} (hi : IsInt 64 i) (hj : IsInt 64 j)
    (h : timestampToIsoNaive text i = timestampToIsoNaive text j) : i = j :=
  ht.timestamp_inj hi hj (blankToT_injective (ht.timestamp_blank i) (ht.timestamp_blank j) h)

theorem timestampToIsoNaive_ascii (i : Int) : IsAscii (timestampToIsoNaive text i) :=
  blankToT_ascii (ht.timestamp_ascii i)

/-- The text of a TIMESTAMP_S is the one of its microseconds. -/
theorem timestampSecToIso_eq {i : Int} {s : Bytes} (h : timestampSecToIso text i = .ok s) :
    s = timestampToIsoNaive text (i * 1000000) ∧ IsInt 64 (i * 1000000) := by
  obtain ⟨c, hc, rfl⟩ := bind_ok_eq.mp h
  rw [fromEpochSeconds] at hc
  split_ifs at hc with hrange
  cases hc
  refine ⟨cutFraction_of_le ?_, hrange⟩
  rw [timestampToIsoNaive, length_fraction_blankToT, ht.timestamp_seconds, List.length_nil]

/-- The text of a TIMESTAMP_MS is the one of its microseconds. -/
theorem timestampMsToIso_eq {i : Int} {s : Bytes} (h : timestampMsToIso text i = .ok s) :
    s = timestampToIsoNaive text (i * 1000) ∧ IsInt 64 (i * 1000) := by
  obtain ⟨c, hc, rfl⟩ := bind_ok_eq.mp h
  rw [fromEpochMs] at hc
  split_ifs at hc with hrange
  cases hc
  refine ⟨cutFraction_of_le ?_, hrange⟩
  rw [timestampToIsoNaive, length_fraction_blankToT]
  exact ht.timestamp_millis i

/-- **Two scalars with the same JSON are the same**, unless they are TIMETZ. -/
theorem scalar_injective {id : ScalarType} (hid : id ≠ .timeTz) {t : LogicalType} {d e : Datum}
    (hd : id.Has d) (he : id.Has e) {j k : Json} (hj : scalarJson text id (.leaf t d) = .ok j)
    (hk : scalarJson text id (.leaf t e) = .ok k) (h : view j = view k) : d = e := by
  -- The datum is what the encoder has read of it; then the text has to be injective.
  cases id with
  | timeTz => exact absurd rfl hid
  | sqlNull => cases d <;> exact hd.elim
  | boolean =>
      obtain ⟨b, rfl, hj⟩ := of_getBool hj
      obtain ⟨c, rfl, hk⟩ := of_getBool hk
      cases hj
      cases hk
      rw [JVal.bool.inj h]
  | tinyint | smallint | integer =>
      obtain ⟨i, rfl, hj⟩ := of_getInt hj
      obtain ⟨l, rfl, hk⟩ := of_getInt hk
      cases hj
      cases hk
      rw [view_num_injective h]
  | utinyint | usmallint | uinteger =>
      obtain ⟨i, rfl, hj⟩ := of_getInt hj
      obtain ⟨l, rfl, hk⟩ := of_getInt hk
      cases hj
      cases hk
      have hi : (i.toNat : Int) = i := Int.toNat_of_nonneg hd.1
      have hl : (l.toNat : Int) = l := Int.toNat_of_nonneg he.1
      have hnat : (i.toNat : Int) = l.toNat := view_num_injective h
      rw [← hi, ← hl, hnat]
  | bigint | ubigint | hugeint | uhugeint =>
      obtain ⟨i, rfl, hj⟩ := of_getInt hj
      obtain ⟨l, rfl, hk⟩ := of_getInt hk
      cases hj
      cases hk
      rw [jsonSafe_injective h]
  | float | double =>
      obtain ⟨x, rfl, hj⟩ := of_getDouble hj
      obtain ⟨y, rfl, hk⟩ := of_getDouble hk
      cases hj
      cases hk
      rw [doubleJson_injective ht h]
  | varchar =>
      obtain ⟨x, rfl, hj⟩ := of_getString hj
      obtain ⟨y, rfl, hk⟩ := of_getString hk
      cases hj
      cases hk
      rw [view_str_injective hd he h]
  | blob =>
      obtain ⟨x, rfl, hj⟩ := of_getString hj
      obtain ⟨y, rfl, hk⟩ := of_getString hk
      cases hj
      cases hk
      rw [Base64.encode_injective
        (view_ascii_injective (Base64.encode_ascii x) (Base64.encode_ascii y) h)]
  | bit =>
      obtain ⟨x, rfl, hj⟩ := of_getString hj
      obtain ⟨y, rfl, hk⟩ := of_getString hk
      cases hj
      cases hk
      rw [ht.bit_inj hd he (view_ascii_injective (ht.bit_ascii x) (ht.bit_ascii y) h)]
  | uuid =>
      obtain ⟨i, rfl, hj⟩ := of_getInt hj
      obtain ⟨l, rfl, hk⟩ := of_getInt hk
      cases hj
      cases hk
      rw [ht.uuid_inj hd he (view_ascii_injective (ht.uuid_ascii i) (ht.uuid_ascii l) h)]
  | date =>
      obtain ⟨i, rfl, hj⟩ := of_getInt hj
      obtain ⟨l, rfl, hk⟩ := of_getInt hk
      cases hj
      cases hk
      rw [ht.date_inj hd he (view_ascii_injective (ht.date_ascii i) (ht.date_ascii l) h)]
  | time =>
      obtain ⟨i, rfl, hj⟩ := of_getInt hj
      obtain ⟨l, rfl, hk⟩ := of_getInt hk
      cases hj
      cases hk
      rw [ht.time_inj hd he (view_ascii_injective (ht.time_ascii i) (ht.time_ascii l) h)]
  | timestamp =>
      obtain ⟨i, rfl, hj⟩ := of_getInt hj
      obtain ⟨l, rfl, hk⟩ := of_getInt hk
      cases hj
      cases hk
      rw [timestamp_injective ht hd he (view_ascii_injective
        (timestampToIsoNaive_ascii ht i) (timestampToIsoNaive_ascii ht l) h)]
  | timestampSec =>
      obtain ⟨i, rfl, hj⟩ := of_getInt hj
      obtain ⟨l, rfl, hk⟩ := of_getInt hk
      obtain ⟨x, hx, rfl⟩ := bind_ok_eq.mp hj
      obtain ⟨y, hy, rfl⟩ := bind_ok_eq.mp hk
      obtain ⟨rfl, hi⟩ := timestampSecToIso_eq ht hx
      obtain ⟨rfl, hl⟩ := timestampSecToIso_eq ht hy
      have hmicros := timestamp_injective ht hi hl (view_ascii_injective
        (timestampToIsoNaive_ascii ht _) (timestampToIsoNaive_ascii ht _) h)
      rw [show i = l by omega]
  | timestampMs =>
      obtain ⟨i, rfl, hj⟩ := of_getInt hj
      obtain ⟨l, rfl, hk⟩ := of_getInt hk
      obtain ⟨x, hx, rfl⟩ := bind_ok_eq.mp hj
      obtain ⟨y, hy, rfl⟩ := bind_ok_eq.mp hk
      obtain ⟨rfl, hi⟩ := timestampMsToIso_eq ht hx
      obtain ⟨rfl, hl⟩ := timestampMsToIso_eq ht hy
      have hmicros := timestamp_injective ht hi hl (view_ascii_injective
        (timestampToIsoNaive_ascii ht _) (timestampToIsoNaive_ascii ht _) h)
      rw [show i = l by omega]
  | timestampNs =>
      obtain ⟨i, rfl, hj⟩ := of_getInt hj
      obtain ⟨l, rfl, hk⟩ := of_getInt hk
      cases hj
      cases hk
      have htext := view_ascii_injective (blankToT_ascii (ht.timestampNs_ascii i))
        (blankToT_ascii (ht.timestampNs_ascii l)) h
      rw [ht.timestampNs_inj hd he (blankToT_injective (ht.timestampNs_blank i)
        (ht.timestampNs_blank l) htext)]
  | timestampTz =>
      obtain ⟨i, rfl, hj⟩ := of_getInt hj
      obtain ⟨l, rfl, hk⟩ := of_getInt hk
      cases hj
      cases hk
      have hascii : ∀ i, IsAscii (timestampTzToIsoUtc text i) := by
        intro i b hb
        rcases List.mem_append.mp hb with hb | hb
        · exact timestampToIsoNaive_ascii ht i b hb
        · rw [List.mem_singleton.mp hb]
          decide
      have htext := view_ascii_injective (hascii i) (hascii l) h
      rw [timestamp_injective ht hd he (List.append_left_injective _ htext)]
  | interval =>
      obtain ⟨months, days, micros, rfl, hj⟩ := of_getInterval hj
      obtain ⟨months', days', micros', rfl, hk⟩ := of_getInterval hk
      cases hj
      cases hk
      obtain ⟨h1, h2, h3⟩ := intervalJson_injective h
      rw [h1, h2, h3]

end Harbor
