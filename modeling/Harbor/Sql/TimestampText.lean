import Harbor.Sql.ScalarText
import Harbor.Lib.Find

set_option autoImplicit false

/-! # The text of timestamps

The encoder makes the five timestamp types from DuckDB's text: it replaces the first blank, cuts
what is behind a dot, and appends a `Z`. `DuckText.Calendar` says what that text is. `isoText` is
the form the encoder wants, and **`timestamp_text_iff`** says for which values it gets there: a BC
date has a blank of its own, infinity has no separator but does get its `Z`, and seconds and
milliseconds must fit the microseconds they are turned into.
-/

namespace Harbor

open Bytes Encoder

/-! ## DuckDB's text -/

/-- The first day of the year 1, from the first of 1970. -/
def firstDayAD : Int := -719162

/-- `timestamp_t::infinity()`. -/
def timestampInfinity : Int := 2 ^ 63 - 1

/-- `Date::ToString`, one blank, the text of the time. `timeNs` is the time text of a TIMESTAMP_NS,
from the nanoseconds of the day. -/
structure DuckText.Calendar (text : DuckText) (timeNs : Int → Bytes) : Prop where
  timestamp_finite : ∀ ts, IsInt 64 ts → ts ≠ timestampInfinity → ts ≠ -timestampInfinity →
    text.timestampToString ts =
      text.dateToString (ts / 86400000000) ++ 0x20 :: text.timeToString (ts % 86400000000)
  timestamp_infinity : text.timestampToString timestampInfinity = lit "infinity"
  timestamp_ninfinity : text.timestampToString (-timestampInfinity) = lit "-infinity"
  timestampNs_finite : ∀ ts, IsInt 64 ts → ts ≠ timestampInfinity → ts ≠ -timestampInfinity →
    text.timestampNsToString ts =
      text.dateToString (ts / 86400000000000) ++ 0x20 :: timeNs (ts % 86400000000000)
  timestampNs_infinity : text.timestampNsToString timestampInfinity = lit "infinity"
  timestampNs_ninfinity : text.timestampNsToString (-timestampInfinity) = lit "-infinity"
  date_ad : ∀ d, firstDayAD ≤ d → 0x20 ∉ text.dateToString d ∧ 0x2E ∉ text.dateToString d
  /-- The text of a BC date ends in ` (BC)`. -/
  date_bc : ∀ d, d < firstDayAD →
    ∃ s, text.dateToString d = s ++ lit " (BC)" ∧ 0x20 ∉ s ∧ 0x2E ∉ s

/-! ## The form the encoder wants -/

inductive TimestampType where
  | timestamp
  | timestampSec
  | timestampMs
  | timestampNs
  | timestampTz
deriving DecidableEq, Repr

namespace TimestampType

def scalar : TimestampType → ScalarType
  | timestamp => .timestamp
  | timestampSec => .timestampSec
  | timestampMs => .timestampMs
  | timestampNs => .timestampNs
  | timestampTz => .timestampTz

/-- What a day has of the unit a value counts. -/
def perDay : TimestampType → Int
  | timestamp | timestampTz => 86400000000
  | timestampSec => 86400
  | timestampMs => 86400000
  | timestampNs => 86400000000000

variable (text : DuckText) (timeNs : Int → Bytes)

/-- The time of the day, with no fraction for seconds and at most three digits for milliseconds. -/
def timeText (type : TimestampType) (v : Int) : Bytes :=
  match type with
  | timestamp | timestampTz => text.timeToString (v % 86400000000)
  | timestampSec => cutFraction 0 (text.timeToString (v % 86400 * 1000000))
  | timestampMs => cutFraction 4 (text.timeToString (v % 86400000 * 1000))
  | timestampNs => timeNs (v % 86400000000000)

/-- The date, a `T`, the time, and the `Z` of a time zone; infinity by its name. -/
def isoText (type : TimestampType) (v : Int) : Bytes :=
  if v = timestampInfinity then lit "infinity"
  else if v = -timestampInfinity then lit "-infinity"
  else
    text.dateToString (v / type.perDay) ++ 0x54 :: type.timeText text timeNs v ++
      (if type = timestampTz then [0x5A] else [])

/-- The string `EmitValue` writes. -/
def encoded (type : TimestampType) (v : Int) : Except Bytes Bytes :=
  match type with
  | timestamp => .ok (timestampToIsoNaive text v)
  | timestampSec => timestampSecToIso text v
  | timestampMs => timestampMsToIso text v
  | timestampNs => .ok (timestampNsToIso text v)
  | timestampTz => .ok (timestampTzToIsoUtc text v)

/-- The value is finite. -/
def Finite (v : Int) : Prop := v ≠ timestampInfinity ∧ v ≠ -timestampInfinity

/-- The value is not before the year 1. -/
def IsAD (type : TimestampType) (v : Int) : Prop := firstDayAD ≤ v / type.perDay

/-- When the encoder's edits make the form it wants. -/
def Separable (type : TimestampType) (v : Int) : Prop :=
  match type with
  | timestamp => Finite v → IsAD timestamp v
  | timestampSec => IsInt 64 (v * 1000000) ∧ IsAD timestampSec v
  | timestampMs => IsInt 64 (v * 1000) ∧ IsAD timestampMs v
  | timestampNs => True
  | timestampTz => Finite v ∧ IsAD timestampTz v

/-! ## What the edits do -/

theorem blankToT_separator {date : Bytes} (h : 0x20 ∉ date) (time : Bytes) :
    blankToT (date ++ 0x20 :: time) = date ++ 0x54 :: time := by
  induction date with
  | nil => rfl
  | cons b date ih =>
      obtain ⟨hb, hdate⟩ := not_or.mp (mt List.mem_cons.mpr h)
      rw [List.cons_append, blankToT, if_neg (Ne.symm hb), ih hdate, List.cons_append]

theorem cutFraction_append {s : Bytes} (h : 0x2E ∉ s) (keep : Nat) (t : Bytes) :
    cutFraction keep (s ++ t) = s ++ cutFraction keep t := by
  have hkeep : ∀ b ∈ s, (b ≠ 0x2E : Bool) = true := by
    intro b hb
    exact decide_eq_true fun heq => h (heq ▸ hb)
  rw [cutFraction, cutFraction, List.takeWhile_append_of_pos hkeep,
    List.dropWhile_append_of_pos hkeep, List.append_assoc]

/-- A cut text has a fraction of at most the length kept. -/
theorem length_fraction_cutFraction (keep : Nat) (s : Bytes) :
    (fraction (cutFraction keep s)).length ≤ keep := by
  have hhead : ∀ b ∈ s.takeWhile (· ≠ 0x2E), (b ≠ 0x2E : Bool) = true :=
    fun b hb => decide_eq_true fun heq => notMem_takeWhile 0x2E s (heq ▸ hb)
  rw [fraction, cutFraction, List.dropWhile_append_of_pos hhead]
  calc (((s.dropWhile (· ≠ 0x2E)).take keep).dropWhile (· ≠ 0x2E)).length
      ≤ ((s.dropWhile (· ≠ 0x2E)).take keep).length := List.length_dropWhile_le _ _
    _ ≤ keep := List.length_take_le keep _

/-- The fraction of the wanted text is what the precision allows, with its dot. -/
theorem fraction_timeText (v : Int) :
    fraction (timeText text timeNs timestampSec v) = [] ∧
      (fraction (timeText text timeNs timestampMs v)).length ≤ 4 :=
  ⟨List.eq_nil_of_length_eq_zero (Nat.le_zero.mp (length_fraction_cutFraction 0 _)),
    length_fraction_cutFraction 4 _⟩

variable {text timeNs} (h : text.Calendar timeNs)
include h

/-- The first blank of a BC date is its own. -/
theorem blankToT_bc {d : Int} (hd : d < firstDayAD) : ∃ s, 0x2E ∉ s ∧
    text.dateToString d = s ++ 0x20 :: lit "(BC)" ∧
      ∀ time, blankToT (text.dateToString d ++ 0x20 :: time) =
        s ++ 0x54 :: (lit "(BC)" ++ 0x20 :: time) := by
  obtain ⟨s, hs, hblank, hdot⟩ := h.date_bc d hd
  refine ⟨s, hdot, hs, fun time => ?_⟩
  rw [hs, List.append_assoc]
  exact blankToT_separator hblank (lit "(BC)" ++ 0x20 :: time)

omit h in
theorem append_separator_ne (s x y : Bytes) : s ++ 0x54 :: x ≠ s ++ 0x20 :: y := by
  intro heq
  have hhead : (0x54 : UInt8) = 0x20 := (List.cons.inj (List.append_cancel_left heq)).1
  exact absurd hhead (by decide)

/-- **The separator is replaced exactly after an AD date.** -/
theorem separator_iff (d : Int) (time : Bytes) :
    blankToT (text.dateToString d ++ 0x20 :: time) = text.dateToString d ++ 0x54 :: time ↔
      firstDayAD ≤ d := by
  constructor
  · intro heq
    by_contra hbc
    obtain ⟨s, -, hdate, hblank⟩ := blankToT_bc h (not_le.mp hbc)
    rw [hblank, hdate, List.append_assoc] at heq
    exact append_separator_ne _ _ _ heq
  · exact fun had => blankToT_separator (h.date_ad d had).1 time

omit h in
/-- The cut leaves what is before the time of a BC date. -/
theorem cutFraction_bc (keep : Nat) {s : Bytes} (hdot : 0x2E ∉ s) (time : Bytes) :
    cutFraction keep (s ++ 0x54 :: (lit "(BC)" ++ 0x20 :: time)) =
      s ++ 0x54 :: (lit "(BC)" ++ 0x20 :: cutFraction keep time) := by
  have hdot' : (0x2E : UInt8) ∉ s ++ 0x54 :: (lit "(BC)" ++ [0x20]) := by
    rw [List.mem_append]
    exact not_or.mpr ⟨hdot, by decide⟩
  have hassoc : ∀ t : Bytes, s ++ 0x54 :: (lit "(BC)" ++ 0x20 :: t) =
      (s ++ 0x54 :: (lit "(BC)" ++ [0x20])) ++ t := by
    intro t
    simp
  calc cutFraction keep (s ++ 0x54 :: (lit "(BC)" ++ 0x20 :: time))
      = cutFraction keep ((s ++ 0x54 :: (lit "(BC)" ++ [0x20])) ++ time) := by rw [hassoc time]
    _ = (s ++ 0x54 :: (lit "(BC)" ++ [0x20])) ++ cutFraction keep time :=
        cutFraction_append hdot' keep time
    _ = s ++ 0x54 :: (lit "(BC)" ++ 0x20 :: cutFraction keep time) := (hassoc _).symm

theorem separator_cut_iff (keep : Nat) (d : Int) (time : Bytes) :
    cutFraction keep (blankToT (text.dateToString d ++ 0x20 :: time)) =
        text.dateToString d ++ 0x54 :: cutFraction keep time ↔ firstDayAD ≤ d := by
  constructor
  · intro heq
    by_contra hbc
    obtain ⟨s, hdot, hdate, hblank⟩ := blankToT_bc h (not_le.mp hbc)
    rw [hblank, cutFraction_bc keep hdot, hdate, List.append_assoc] at heq
    exact append_separator_ne _ _ _ heq
  · intro had
    obtain ⟨hblank, hdot⟩ := h.date_ad d had
    have hdot' : (0x2E : UInt8) ∉ text.dateToString d ++ [0x54] := by
      rw [List.mem_append]
      exact not_or.mpr ⟨hdot, by decide⟩
    have hcut := cutFraction_append hdot' keep time
    rw [List.append_assoc, List.append_assoc] at hcut
    rw [blankToT_separator hblank]
    exact hcut

/-! ## The five types -/

omit h in
theorem isoText_finite {type : TimestampType} {v : Int} (hv : Finite v) :
    isoText text timeNs type v =
      text.dateToString (v / type.perDay) ++ 0x54 :: type.timeText text timeNs v ++
        (if type = timestampTz then [0x5A] else []) := by
  rw [isoText, if_neg hv.1, if_neg hv.2]

/-- The name of an infinite value, as DuckDB has it and as it is wanted. -/
theorem exists_name {v : Int} (hv : ¬ Finite v) : ∃ name, blankToT name = name ∧
    text.timestampToString v = name ∧ text.timestampNsToString v = name ∧
      ∀ type, isoText text timeNs type v = name := by
  rcases not_and_or.mp hv with hv | hv
  · obtain rfl := not_not.mp hv
    exact ⟨lit "infinity", by decide, h.timestamp_infinity, h.timestampNs_infinity, fun _ => rfl⟩
  · obtain rfl := not_not.mp hv
    exact ⟨lit "-infinity", by decide, h.timestamp_ninfinity, h.timestampNs_ninfinity, fun _ => rfl⟩

theorem timestamp_iff {v : Int} (hv : IsInt 64 v) :
    timestampToIsoNaive text v = isoText text timeNs timestamp v ↔ Separable timestamp v := by
  by_cases hfinite : Finite v
  · rw [isoText_finite hfinite, if_neg (by decide), List.append_nil, timestampToIsoNaive,
      h.timestamp_finite v hv hfinite.1 hfinite.2]
    exact (separator_iff h _ _).trans ⟨fun had _ => had, fun hsep => hsep hfinite⟩
  · obtain ⟨name, hname, htext, -, hiso⟩ := exists_name h hfinite
    rw [timestampToIsoNaive, htext, hiso, hname]
    exact iff_of_true rfl fun hv => absurd hv hfinite

theorem timestampTz_iff {v : Int} (hv : IsInt 64 v) :
    timestampTzToIsoUtc text v = isoText text timeNs timestampTz v ↔ Separable timestampTz v := by
  by_cases hfinite : Finite v
  · rw [isoText_finite hfinite, if_pos rfl, timestampTzToIsoUtc, List.append_left_inj,
      timestampToIsoNaive, h.timestamp_finite v hv hfinite.1 hfinite.2]
    exact (separator_iff h _ _).trans ⟨fun had => ⟨hfinite, had⟩, fun hsep => hsep.2⟩
  · obtain ⟨name, hname, htext, -, hiso⟩ := exists_name h hfinite
    -- the `Z` behind the name
    rw [timestampTzToIsoUtc, timestampToIsoNaive, htext, hiso, hname]
    exact iff_of_false (by simp) fun hsep => hfinite hsep.1

/-- The nanoseconds of 64 bits are all of the years 1677 to 2262. -/
theorem timestampNs_iff {v : Int} (hv : IsInt 64 v) :
    timestampNsToIso text v = isoText text timeNs timestampNs v ↔ Separable timestampNs v := by
  by_cases hfinite : Finite v
  · rw [isoText_finite hfinite, if_neg (by decide), List.append_nil, timestampNsToIso,
      h.timestampNs_finite v hv hfinite.1 hfinite.2]
    have had : firstDayAD ≤ v / 86400000000000 := by
      obtain ⟨hlow, -⟩ := hv
      rw [firstDayAD]
      omega
    exact iff_of_true ((separator_iff h _ _).mpr had) trivial
  · obtain ⟨name, hname, -, htext, hiso⟩ := exists_name h hfinite
    rw [timestampNsToIso, htext, hiso, hname]
    exact iff_of_true rfl trivial

omit h in
/-- A multiple of a thousand is not infinite. -/
theorem finite_of_dvd {v : Int} (hdvd : 1000 ∣ v) : Finite v := by
  rw [Finite, timestampInfinity]
  omega

/-- Microseconds made of a coarser unit, cut. -/
theorem cut_iff {canonical : Int} (hfits : IsInt 64 canonical) (hdvd : 1000 ∣ canonical)
    (keep : Nat) :
    cutFraction keep (timestampToIsoNaive text canonical) =
        text.dateToString (canonical / 86400000000) ++
          0x54 :: cutFraction keep (text.timeToString (canonical % 86400000000)) ↔
      firstDayAD ≤ canonical / 86400000000 := by
  obtain ⟨hinf, hninf⟩ := finite_of_dvd hdvd
  rw [timestampToIsoNaive, h.timestamp_finite canonical hfits hinf hninf]
  exact separator_cut_iff h keep _ _

omit h in
theorem finite_of_fits {v unit : Int} (hunit : 2 ≤ unit) (hfits : IsInt 64 (v * unit)) :
    Finite v := by
  obtain ⟨hlow, hhigh⟩ := hfits
  constructor
  · rintro rfl
    rw [timestampInfinity] at hhigh
    omega
  · rintro rfl
    rw [timestampInfinity] at hlow
    omega

theorem timestampSec_iff (v : Int) :
    timestampSecToIso text v = .ok (isoText text timeNs timestampSec v) ↔
      Separable timestampSec v := by
  have hcanonical : fromEpochSeconds v =
      if IsInt 64 (v * 1000000) then .ok (v * 1000000)
      else .error (lit "Could not convert Timestamp(S) to Timestamp(US)") := rfl
  rw [timestampSecToIso, hcanonical]
  by_cases hfits : IsInt 64 (v * 1000000)
  · have hday : v * 1000000 / 86400000000 = v / 86400 := by omega
    have htime : v * 1000000 % 86400000000 = v % 86400 * 1000000 := by omega
    have hcut := cut_iff h hfits (by omega) 0
    rw [hday, htime] at hcut
    rw [if_pos hfits, isoText_finite (finite_of_fits (by decide) hfits), if_neg (by decide),
      List.append_nil, ok_bind, Except.ok.injEq]
    exact hcut.trans ⟨fun had => ⟨hfits, had⟩, fun hsep => hsep.2⟩
  · rw [if_neg hfits]
    exact iff_of_false (fun heq => nomatch heq) fun hsep => hfits hsep.1

theorem timestampMs_iff (v : Int) :
    timestampMsToIso text v = .ok (isoText text timeNs timestampMs v) ↔
      Separable timestampMs v := by
  have hcanonical : fromEpochMs v =
      if IsInt 64 (v * 1000) then .ok (v * 1000)
      else .error (lit "Could not convert Timestamp(MS) to Timestamp(US)") := rfl
  rw [timestampMsToIso, hcanonical]
  by_cases hfits : IsInt 64 (v * 1000)
  · have hday : v * 1000 / 86400000000 = v / 86400000 := by omega
    have htime : v * 1000 % 86400000000 = v % 86400000 * 1000 := by omega
    have hcut := cut_iff h hfits (by omega) 4
    rw [hday, htime] at hcut
    rw [if_pos hfits, isoText_finite (finite_of_fits (by decide) hfits), if_neg (by decide),
      List.append_nil, ok_bind, Except.ok.injEq]
    exact hcut.trans ⟨fun had => ⟨hfits, had⟩, fun hsep => hsep.2⟩
  · rw [if_neg hfits]
    exact iff_of_false (fun heq => nomatch heq) fun hsep => hfits hsep.1

/-- The text of a BC timestamp has a `T` before its `(BC)`. -/
theorem isoNaive_bc {ts : Int} (hts : IsInt 64 ts) (hfinite : Finite ts)
    (hbc : ¬ firstDayAD ≤ ts / 86400000000) : ∃ s time, 0x2E ∉ s ∧
      timestampToIsoNaive text ts = s ++ 0x54 :: (lit "(BC)" ++ 0x20 :: time) := by
  obtain ⟨s, hdot, -, hblank⟩ := blankToT_bc h (not_le.mp hbc)
  refine ⟨s, text.timeToString (ts % 86400000000), hdot, ?_⟩
  rw [timestampToIsoNaive, h.timestamp_finite ts hts hfinite.1 hfinite.2]
  exact hblank _

/-- A text of a BC date, or of infinity with a zone. -/
def Misread (type : TimestampType) (s : Bytes) : Prop :=
  (∃ x r, s = x ++ 0x54 :: (lit "(BC)" ++ r)) ∨
    (type = timestampTz ∧ (s = lit "infinityZ" ∨ s = lit "-infinityZ"))

theorem misread_cut {canonical : Int} (hfits : IsInt 64 canonical) (hdvd : 1000 ∣ canonical)
    (hbc : ¬ firstDayAD ≤ canonical / 86400000000) (type : TimestampType) (keep : Nat) :
    type.Misread (cutFraction keep (timestampToIsoNaive text canonical)) := by
  obtain ⟨x, time, hdot, hiso⟩ := isoNaive_bc h hfits (finite_of_dvd hdvd) hbc
  rw [hiso, cutFraction_bc keep hdot]
  exact Or.inl ⟨x, _, rfl⟩

/-- **What is written of the other values** is no text of a timestamp. -/
theorem misread_of_not_separable (type : TimestampType) {v : Int} (hv : IsInt 64 v)
    (hnot : ¬ type.Separable v) {s : Bytes} (hs : encoded text type v = .ok s) : type.Misread s := by
  cases type with
  | timestamp =>
      obtain rfl := Except.ok.inj hs
      obtain ⟨hfinite, hbc⟩ := Classical.not_imp.mp hnot
      obtain ⟨x, time, -, hiso⟩ := isoNaive_bc h hv hfinite hbc
      exact Or.inl ⟨x, _, hiso⟩
  -- the canonical text is finite here, so what is not separable is BC
  | timestampSec =>
      obtain ⟨canonical, hcanonical, hs⟩ := bind_eq_ok.mp hs
      obtain rfl := Except.ok.inj hs
      rw [fromEpochSeconds] at hcanonical
      split_ifs at hcanonical with hfits
      obtain rfl := Except.ok.inj hcanonical
      refine misread_cut h hfits (by omega) (fun had => hnot ⟨hfits, ?_⟩) _ 0
      show firstDayAD ≤ v / 86400
      omega
  | timestampMs =>
      obtain ⟨canonical, hcanonical, hs⟩ := bind_eq_ok.mp hs
      obtain rfl := Except.ok.inj hs
      rw [fromEpochMs] at hcanonical
      split_ifs at hcanonical with hfits
      obtain rfl := Except.ok.inj hcanonical
      refine misread_cut h hfits (by omega) (fun had => hnot ⟨hfits, ?_⟩) _ 4
      show firstDayAD ≤ v / 86400000
      omega
  | timestampNs => exact absurd trivial hnot
  | timestampTz =>
      obtain rfl := Except.ok.inj hs
      by_cases hfinite : Finite v
      · obtain ⟨x, time, -, hiso⟩ := isoNaive_bc h hv hfinite fun had => hnot ⟨hfinite, had⟩
        refine Or.inl ⟨x, 0x20 :: time ++ [0x5A], ?_⟩
        rw [timestampTzToIsoUtc, hiso]
        simp
      · -- `timestampTzToIsoUtc` appends `Z` to the words for the infinities as well
        rcases not_and_or.mp hfinite with hinf | hinf
        · obtain rfl := not_not.mp hinf
          refine Or.inr ⟨rfl, Or.inl ?_⟩
          rw [timestampTzToIsoUtc, timestampToIsoNaive, h.timestamp_infinity]
          decide
        · obtain rfl := not_not.mp hinf
          refine Or.inr ⟨rfl, Or.inr ?_⟩
          rw [timestampTzToIsoUtc, timestampToIsoNaive, h.timestamp_ninfinity]
          decide

omit h in
/-- `EmitValue` writes the encoded text as a string, or throws with it. -/
theorem emitValue_encoded (type : TimestampType) (v : Int) (out : JsonWriter) :
    emitValue text (.scalar type.scalar) (.leaf (.scalar type.scalar) (.int v)) out =
      (encoded text type v).map out.string := by
  have hbind : ∀ x : Except Bytes Bytes, (x >>= fun s => .ok (out.string s)) = x.map out.string := by
    intro x
    cases x <;> rfl
  cases type with
  | timestamp | timestampNs | timestampTz => rfl
  | timestampSec => exact hbind (timestampSecToIso text v)
  | timestampMs => exact hbind (timestampMsToIso text v)

theorem encoded_iff (type : TimestampType) {v : Int} (hv : IsInt 64 v) :
    encoded text type v = .ok (isoText text timeNs type v) ↔ type.Separable v := by
  cases type with
  | timestamp =>
      rw [encoded, Except.ok.injEq]
      exact timestamp_iff h hv
  | timestampSec => exact timestampSec_iff h v
  | timestampMs => exact timestampMs_iff h v
  | timestampNs =>
      rw [encoded, Except.ok.injEq]
      exact timestampNs_iff h hv
  | timestampTz =>
      rw [encoded, Except.ok.injEq]
      exact timestampTz_iff h hv

/-- **The text of a timestamp is well formed exactly for the separable values.** -/
theorem timestamp_text_iff (type : TimestampType) {v : Int} (hv : IsInt 64 v) (out : JsonWriter) :
    emitValue text (.scalar type.scalar) (.leaf (.scalar type.scalar) (.int v)) out =
        (encoded text type v).map out.string ∧
      (encoded text type v = .ok (isoText text timeNs type v) ↔ type.Separable v) :=
  ⟨emitValue_encoded type v out, encoded_iff h type hv⟩

end TimestampType

/-! ## A calendar -/

namespace Civil

/-- Decimal digits behind zeros, to a width. -/
def pad (width n : Nat) : Bytes :=
  List.replicate (width - (decNat n).length) 0x30 ++ decNat n

/-- Year, month and day; years and eras start in March. -/
def fromDays (d : Int) : Int × Nat × Nat :=
  let era := (d + 719468) / 146097
  let dayOfEra := ((d + 719468) % 146097).toNat
  let yearOfEra :=
    (dayOfEra - dayOfEra / 1460 + dayOfEra / 36524 - dayOfEra / 146096) / 365
  let dayOfYear := dayOfEra - (365 * yearOfEra + yearOfEra / 4 - yearOfEra / 100)
  let month := (5 * dayOfYear + 2) / 153
  (era * 400 + yearOfEra + (if month < 10 then 0 else 1),
    if month < 10 then month + 3 else month - 9, dayOfYear - (153 * month + 2) / 5 + 1)

/-- `YYYY-MM-DD`, with the year that is written out. -/
def digits (year : Int) (month day : Nat) : Bytes :=
  pad 4 year.toNat ++ 0x2D :: (pad 2 month ++ 0x2D :: pad 2 day)

/-- `Date::ToString`. -/
def dateToString (d : Int) : Bytes :=
  let (year, month, day) := fromDays d
  if d < firstDayAD then digits (1 - year) month day ++ lit " (BC)" else digits year month day

/-- `HH:MM:SS`, and the fraction without the zeros at its end. -/
def timeToString (width : Nat) (ticks : Int) : Bytes :=
  let second := (ticks / 10 ^ width).toNat
  let fraction := ((pad width (ticks % 10 ^ width).toNat).reverse.dropWhile (· == 0x30)).reverse
  pad 2 (second / 3600) ++ 0x3A :: (pad 2 (second / 60 % 60) ++ 0x3A :: pad 2 (second % 60)) ++
    (if fraction = [] then [] else 0x2E :: fraction)

/-- The text of a finite or infinite timestamp of so many ticks a day. -/
def timestampToString (perDay : Int) (time : Int → Bytes) (ts : Int) : Bytes :=
  if ts = timestampInfinity then lit "infinity"
  else if ts = -timestampInfinity then lit "-infinity"
  else dateToString (ts / perDay) ++ 0x20 :: time (ts % perDay)

end Civil

/-- The texts of dates and times, and numerals for everything else. -/
def DuckText.civil : DuckText :=
  { DuckText.numerals with
    dateToString := Civil.dateToString
    timeToString := Civil.timeToString 6
    timestampToString := Civil.timestampToString 86400000000 (Civil.timeToString 6)
    timestampNsToString := Civil.timestampToString 86400000000000 (Civil.timeToString 9) }

namespace Civil

theorem notMem_pad {b : UInt8} (hdigit : isDigit b = false) (width n : Nat) : b ∉ pad width n := by
  rw [pad, List.mem_append, not_or]
  constructor
  · intro hb
    rw [(List.mem_replicate.mp hb).2] at hdigit
    cases hdigit
  · intro hb
    rw [isDigit_of_mem_decNat b hb] at hdigit
    cases hdigit

theorem notMem_digits {b : UInt8} (hdigit : isDigit b = false) (hdash : b ≠ 0x2D) (year : Int)
    (month day : Nat) : b ∉ digits year month day := by
  simp only [digits, List.mem_append, List.mem_cons, not_or]
  exact ⟨notMem_pad hdigit _ _, hdash, notMem_pad hdigit _ _, hdash, notMem_pad hdigit _ _⟩

theorem timestampToString_finite {perDay : Int} {time : Int → Bytes} {ts : Int}
    (hinf : ts ≠ timestampInfinity) (hninf : ts ≠ -timestampInfinity) :
    timestampToString perDay time ts = dateToString (ts / perDay) ++ 0x20 :: time (ts % perDay) := by
  rw [timestampToString, if_neg hinf, if_neg hninf]

theorem calendar : DuckText.civil.Calendar (timeToString 9) where
  timestamp_finite _ _ hinf hninf := timestampToString_finite hinf hninf
  timestamp_infinity := rfl
  timestamp_ninfinity := rfl
  timestampNs_finite _ _ hinf hninf := timestampToString_finite hinf hninf
  timestampNs_infinity := rfl
  timestampNs_ninfinity := rfl
  date_ad d hd := by
    have hdate : dateToString d = digits (fromDays d).1 (fromDays d).2.1 (fromDays d).2.2 :=
      if_neg (not_lt.mpr hd)
    show _ ∉ dateToString d ∧ _ ∉ dateToString d
    rw [hdate]
    exact ⟨notMem_digits rfl (by decide) _ _ _, notMem_digits rfl (by decide) _ _ _⟩
  date_bc d hd := by
    have hdate : dateToString d =
        digits (1 - (fromDays d).1) (fromDays d).2.1 (fromDays d).2.2 ++ lit " (BC)" := if_pos hd
    exact ⟨_, hdate, notMem_digits rfl (by decide) _ _ _, notMem_digits rfl (by decide) _ _ _⟩

example : DuckText.civil.timestampToString 1778683496789000 = lit "2026-05-13 14:44:56.789" := by
  rfl

end Civil

namespace TimestampType

/-- An afternoon, with a millisecond. -/
theorem timestamp_text_iff_afternoon :
    emitValue .civil (.scalar .timestampMs) (.leaf (.scalar .timestampMs) (.int 1778683496789)) .new =
        (encoded .civil timestampMs 1778683496789).map JsonWriter.new.string ∧
      (encoded .civil timestampMs 1778683496789 =
          .ok (isoText .civil (Civil.timeToString 9) timestampMs 1778683496789) ↔
        timestampMs.Separable 1778683496789) :=
  timestamp_text_iff Civil.calendar timestampMs (by decide) .new

/-- Noon of a day before the year 1, infinity with a time zone, and infinite seconds. -/
theorem timestamps_misread :
    (encoded .civil timestamp (-63517780800000000) = .ok (lit "0044-03-15T(BC) 12:00:00") ∧
      encoded .civil timestamp (-63517780800000000) ≠
        .ok (isoText .civil (Civil.timeToString 9) timestamp (-63517780800000000))) ∧
    (encoded .civil timestampTz timestampInfinity = .ok (lit "infinityZ") ∧
      encoded .civil timestampTz timestampInfinity ≠
        .ok (isoText .civil (Civil.timeToString 9) timestampTz timestampInfinity)) ∧
    encoded .civil timestampSec timestampInfinity =
      .error (lit "Could not convert Timestamp(S) to Timestamp(US)") := by
  refine ⟨⟨?_, ?_⟩, ⟨?_, ?_⟩, ?_⟩
  all_goals decide

end TimestampType

end Harbor
