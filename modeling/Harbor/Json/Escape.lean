import Harbor.Lib.Json

set_option autoImplicit false

/-! # Escaping of strings

`WriteEscapedString` of the JSON writer: the scan over the bytes, the check of each UTF-8
sequence, the short escapes, the `\u00XX` form of the other control characters, and U+FFFD for
every byte that starts no valid sequence. A reader gets back the string with exactly those bytes
replaced (`readString_escaped`), which is the string itself when it was UTF-8
(`sanitize_of_isUtf8`), and the escaped form has no line feed (`newline_notMem_escaped`).
-/

namespace Harbor.Json

open Bytes

/-! ## The writer's scan -/

/-- `ValidateUtf8`, two-byte sequence: 110xxxxx 10xxxxxx. -/
def validateTwo (byte : UInt8) : Bytes → Nat
  | b1 :: _ =>
      if b1 &&& 0xC0 ≠ 0x80 then 0
      else if byte < 0xC2 then 0
      else 2
  | _ => 0

/-- `ValidateUtf8`, three-byte sequence: neither overlong nor a surrogate. -/
def validateThree (byte : UInt8) : Bytes → Nat
  | b1 :: b2 :: _ =>
      if b1 &&& 0xC0 ≠ 0x80 ∨ b2 &&& 0xC0 ≠ 0x80 then 0
      else if byte = 0xE0 ∧ b1 < 0xA0 then 0
      else if byte = 0xED ∧ b1 ≥ 0xA0 then 0
      else 3
  | _ => 0

/-- `ValidateUtf8`, four-byte sequence: neither overlong nor above U+10FFFF. -/
def validateFour (byte : UInt8) : Bytes → Nat
  | b1 :: b2 :: b3 :: _ =>
      if b1 &&& 0xC0 ≠ 0x80 ∨ b2 &&& 0xC0 ≠ 0x80 ∨ b3 &&& 0xC0 ≠ 0x80 then 0
      else if byte = 0xF0 ∧ b1 < 0x90 then 0
      else if byte = 0xF4 ∧ b1 ≥ 0x90 then 0
      else if byte > 0xF4 then 0
      else 4
  | _ => 0

/-- `ValidateUtf8` at the byte `byte` in front of the bytes `s`: how many bytes the sequence
takes, `0` for an invalid one. -/
def validateUtf8 (byte : UInt8) (s : Bytes) : Nat :=
  if byte < 0x80 then 1
  else if byte &&& 0xE0 = 0xC0 then validateTwo byte s
  else if byte &&& 0xF0 = 0xE0 then validateThree byte s
  else if byte &&& 0xF8 = 0xF0 then validateFour byte s
  else 0

/-- `EmitReplacement`: U+FFFD. -/
def replacement : Bytes := [0xEF, 0xBF, 0xBD]

/-- `kHex`. -/
def kHex (n : UInt8) : UInt8 := if n < 10 then 0x30 + n else 0x57 + n

/-- The short escapes of RFC 8259, by the character behind the backslash. -/
def shortEscape (byte : UInt8) : Option UInt8 :=
  if byte = 0x22 then some 0x22
  else if byte = 0x5C then some 0x5C
  else if byte = 0x08 then some 0x62
  else if byte = 0x0C then some 0x66
  else if byte = 0x0A then some 0x6E
  else if byte = 0x0D then some 0x72
  else if byte = 0x09 then some 0x74
  else none

/-- The loop of `WriteEscapedString`; the number counts the bytes of a validated sequence that
are still to be copied. -/
def escapeFrom : Nat → Bytes → Bytes
  | _, [] => []
  | n + 1, byte :: s => byte :: escapeFrom n s
  | 0, byte :: s =>
      if 0x20 ≤ byte ∧ byte < 0x80 ∧ byte ≠ 0x22 ∧ byte ≠ 0x5C then byte :: escapeFrom 0 s
      else
        match shortEscape byte with
        | some c => 0x5C :: c :: escapeFrom 0 s
        | none =>
            if byte < 0x20 then
              0x5C :: 0x75 :: 0x30 :: 0x30 :: kHex ((byte >>> 4) &&& 0x0F) ::
                kHex (byte &&& 0x0F) :: escapeFrom 0 s
            else if validateUtf8 byte s = 0 then replacement ++ escapeFrom 0 s
            else byte :: escapeFrom (validateUtf8 byte s - 1) s

/-- `WriteEscapedString`: what it appends to the buffer. -/
def writeEscapedString (s : Bytes) : Bytes := 0x22 :: escapeFrom 0 s ++ [0x22]

/-- The four ways a byte is written. -/
theorem byte_cases (b : UInt8) :
    (0x20 ≤ b ∧ b < 0x80 ∧ b ≠ 0x22 ∧ b ≠ 0x5C) ∨
      (¬ (0x20 ≤ b ∧ b < 0x80 ∧ b ≠ 0x22 ∧ b ≠ 0x5C) ∧ b < 0x80 ∧ (shortEscape b).isSome) ∨
      (b < 0x20 ∧ shortEscape b = none) ∨ (0x80 ≤ b ∧ shortEscape b = none) := by
  unfold shortEscape
  split_ifs <;> grind

theorem escapeFrom_plain {b : UInt8} (h : 0x20 ≤ b ∧ b < 0x80 ∧ b ≠ 0x22 ∧ b ≠ 0x5C) (s : Bytes) :
    escapeFrom 0 (b :: s) = b :: escapeFrom 0 s := by
  rw [escapeFrom, if_pos h]

theorem escapeFrom_short {b c : UInt8} (h : ¬ (0x20 ≤ b ∧ b < 0x80 ∧ b ≠ 0x22 ∧ b ≠ 0x5C))
    (hc : shortEscape b = some c) (s : Bytes) :
    escapeFrom 0 (b :: s) = 0x5C :: c :: escapeFrom 0 s := by
  rw [escapeFrom, if_neg h, hc]

theorem escapeFrom_control {b : UInt8} (h : b < 0x20) (hc : shortEscape b = none) (s : Bytes) :
    escapeFrom 0 (b :: s) = 0x5C :: 0x75 :: 0x30 :: 0x30 :: kHex ((b >>> 4) &&& 0x0F) ::
      kHex (b &&& 0x0F) :: escapeFrom 0 s := by
  rw [escapeFrom, if_neg fun hp => UInt8.not_lt.mpr hp.1 h, hc]
  exact if_pos h

theorem escapeFrom_high {b : UInt8} (h : 0x80 ≤ b) (hc : shortEscape b = none) (s : Bytes) :
    escapeFrom 0 (b :: s) =
      if validateUtf8 b s = 0 then replacement ++ escapeFrom 0 s
      else b :: escapeFrom (validateUtf8 b s - 1) s := by
  rw [escapeFrom, if_neg fun hp => UInt8.not_lt.mpr h hp.2.1, hc]
  exact if_neg fun hlt => UInt8.not_lt.mpr h (UInt8.lt_trans hlt (by decide))

/-! ## What a reader gets back -/

/-- The same scan without the escapes: the string with U+FFFD for the bytes that start no valid
sequence. -/
def sanitizeFrom : Nat → Bytes → Bytes
  | _, [] => []
  | n + 1, byte :: s => byte :: sanitizeFrom n s
  | 0, byte :: s =>
      if byte < 0x80 then byte :: sanitizeFrom 0 s
      else if validateUtf8 byte s = 0 then replacement ++ sanitizeFrom 0 s
      else byte :: sanitizeFrom (validateUtf8 byte s - 1) s

def sanitize (s : Bytes) : Bytes := sanitizeFrom 0 s

theorem sanitizeFrom_ascii {b : UInt8} (h : b < 0x80) (s : Bytes) :
    sanitizeFrom 0 (b :: s) = b :: sanitizeFrom 0 s := by
  rw [sanitizeFrom, if_pos h]

theorem sanitizeFrom_high {b : UInt8} (h : 0x80 ≤ b) (s : Bytes) :
    sanitizeFrom 0 (b :: s) =
      if validateUtf8 b s = 0 then replacement ++ sanitizeFrom 0 s
      else b :: sanitizeFrom (validateUtf8 b s - 1) s := by
  rw [sanitizeFrom, if_neg (UInt8.not_lt.mpr h)]

/-- The bytes of a validated sequence that are still to be copied are there, and none of them
is ASCII. -/
def Continued (n : Nat) (s : Bytes) : Prop := n ≤ s.length ∧ ∀ b ∈ s.take n, 0x80 ≤ b

theorem continued_zero (s : Bytes) : Continued 0 s := ⟨Nat.zero_le _, by simp⟩

theorem Continued.tail {n : Nat} {b : UInt8} {s : Bytes} (h : Continued (n + 1) (b :: s)) :
    0x80 ≤ b ∧ Continued n s := by
  obtain ⟨hlen, hall⟩ := h
  refine ⟨hall b (by simp), by simpa using hlen, fun c hc => hall c ?_⟩
  rw [List.take_succ_cons]
  exact List.mem_cons_of_mem _ hc

/-- A continuation byte is not ASCII. -/
theorem le_of_continuation (b : UInt8) : b &&& 0xC0 = 0x80 → 0x80 ≤ b :=
  fun h => h ▸ UInt8.and_le_left

theorem continued_validateTwo (byte : UInt8) (s : Bytes) :
    Continued (validateTwo byte s - 1) s := by
  match s with
  | [] => exact continued_zero _
  | b1 :: s =>
      rw [validateTwo]
      split_ifs with h1
      · exact continued_zero _
      · exact continued_zero _
      · exact ⟨by simp, by simpa using le_of_continuation b1 (not_not.mp h1)⟩

theorem continued_validateThree (byte : UInt8) (s : Bytes) :
    Continued (validateThree byte s - 1) s := by
  match s with
  | [] => exact continued_zero _
  | [_] => exact continued_zero _
  | b1 :: b2 :: s =>
      rw [validateThree]
      split_ifs with h1
      · exact continued_zero _
      · exact continued_zero _
      · exact continued_zero _
      · simp only [not_or, not_not] at h1
        refine ⟨by simp, ?_⟩
        simpa using ⟨le_of_continuation b1 h1.1, le_of_continuation b2 h1.2⟩

theorem continued_validateFour (byte : UInt8) (s : Bytes) :
    Continued (validateFour byte s - 1) s := by
  match s with
  | [] => exact continued_zero _
  | [_] => exact continued_zero _
  | [_, _] => exact continued_zero _
  | b1 :: b2 :: b3 :: s =>
      rw [validateFour]
      split_ifs with h1
      · exact continued_zero _
      · exact continued_zero _
      · exact continued_zero _
      · exact continued_zero _
      · simp only [not_or, not_not] at h1
        refine ⟨by simp, ?_⟩
        simpa using ⟨le_of_continuation b1 h1.1, le_of_continuation b2 h1.2.1,
          le_of_continuation b3 h1.2.2⟩

/-- The bytes a validated sequence takes are there, and none of them is ASCII. -/
theorem continued_validateUtf8 (byte : UInt8) (s : Bytes) :
    Continued (validateUtf8 byte s - 1) s := by
  rw [validateUtf8]
  split_ifs
  · exact continued_zero _
  · exact continued_validateTwo byte s
  · exact continued_validateThree byte s
  · exact continued_validateFour byte s
  · exact continued_zero _

/-- **Induction over the scan.** The escaped form beside what a reader gets back: a byte that stands
for itself, a short escape, a `\u00XX`. Inside a validated sequence the bytes still to come are not
ASCII, so they stand for themselves, as U+FFFD does. -/
theorem escaped_induction {P : Bytes → Bytes → Prop} (nil : P [] [])
    (plain : ∀ b e t, 0x20 ≤ b → b ≠ 0x22 → b ≠ 0x5C → P e t → P (b :: e) (b :: t))
    (short : ∀ b c e t, shortEscape b = some c → P e t → P (0x5C :: c :: e) (b :: t))
    (control : ∀ (b : UInt8) (e t : Bytes), b < 0x20 → P e t → P (0x5C :: 0x75 :: 0x30 :: 0x30 ::
      kHex ((b >>> 4) &&& 0x0F) :: kHex (b &&& 0x0F) :: e) (b :: t)) (s : Bytes) :
    P (escapeFrom 0 s) (sanitize s) := by
  have high : ∀ b e t, 0x80 ≤ b → P e t → P (b :: e) (b :: t) := by
    intro b e t hb
    refine plain b e t (UInt8.le_trans (by decide) hb) ?_ ?_
    · rintro rfl
      exact absurd hb (by decide)
    · rintro rfl
      exact absurd hb (by decide)
  -- inside of a sequence the validator accepted, `n` continuation bytes are copied unseen
  have hmain : ∀ n s, Continued n s → P (escapeFrom n s) (sanitizeFrom n s) := by
    intro n s h
    induction s generalizing n with
    | nil => cases n <;> exact nil
    | cons b s ih =>
        cases n with
        | succ n =>
            obtain ⟨hb, htail⟩ := h.tail
            exact high b _ _ hb (ih n htail)
        | zero =>
            have ihz := ih 0 (continued_zero s)
            rcases byte_cases b with hplain | ⟨hplain, hascii, hshort⟩ | ⟨hctl, hshort⟩ | ⟨hhigh, hshort⟩
            · rw [escapeFrom_plain hplain, sanitizeFrom_ascii hplain.2.1]
              exact plain b _ _ hplain.1 hplain.2.2.1 hplain.2.2.2 ihz
            · obtain ⟨c, hc⟩ := Option.isSome_iff_exists.mp hshort
              rw [escapeFrom_short hplain hc, sanitizeFrom_ascii hascii]
              exact short b c _ _ hc ihz
            · rw [escapeFrom_control hctl hshort,
                sanitizeFrom_ascii (UInt8.lt_trans hctl (by decide))]
              exact control b _ _ hctl ihz
            · rw [escapeFrom_high hhigh hshort, sanitizeFrom_high hhigh]
              -- U+FFFD in place of the byte, or the start of a sequence
              split_ifs with hinvalid
              · exact high _ _ _ (by decide) (high _ _ _ (by decide) (high _ _ _ (by decide) ihz))
              · exact high b _ _ hhigh (ih _ (continued_validateUtf8 b s))
  exact hmain 0 s (continued_zero s)

/-! ## Reading an escaped string -/

/-- A short escape stands for its byte. -/
theorem unescape_shortEscape {b c : UInt8} (hc : shortEscape b = some c) : unescape c = some b := by
  unfold shortEscape at hc
  split_ifs at hc
  all_goals
    cases hc
    subst b
    decide

/-- `\u00XX` stands for the control character it was written for. -/
theorem hexUnit_control (b : UInt8) : b < 0x20 →
    hexUnit 0x30 0x30 (kHex ((b >>> 4) &&& 0x0F)) (kHex (b &&& 0x0F)) = some b.toNat := by
  intro h
  have hall : ∀ n < 0x20, hexUnit 0x30 0x30 (kHex ((UInt8.ofNat n >>> 4) &&& 0x0F))
      (kHex (UInt8.ofNat n &&& 0x0F)) = some n := by
    decide
  simpa using hall b.toNat h

theorem readString_control {b : UInt8} (h : b < 0x20) (s : Bytes) :
    readString none (0x5C :: 0x75 :: 0x30 :: 0x30 :: kHex ((b >>> 4) &&& 0x0F) ::
      kHex (b &&& 0x0F) :: s) = (readString none s).map fun r => (b :: r.1, r.2) := by
  have hb : b.toNat < 32 := by simpa using UInt8.lt_iff_toNat_lt.mp h
  have hjoin : joinUnit none b.toNat = some ([b], none) := by
    rw [joinUnit, if_neg (by omega), if_neg (by omega),
      utf8EncodeChar_ascii (UInt8.lt_trans h (by decide))]
  rw [readString.eq_def]
  simp only [if_true, hexUnit_control b h, hjoin, Option.bind_eq_bind, Option.bind_some]
  cases readString none s <;> rfl

/-- **A reader gets the sanitized string back.** -/
theorem readString_escaped (s rest : Bytes) :
    readString none (escapeFrom 0 s ++ 0x22 :: rest) = some (sanitize s, rest) := by
  refine escaped_induction (P := fun e t => readString none (e ++ 0x22 :: rest) = some (t, rest))
    (readString_quote rest) ?_ ?_ ?_ s
  · intro b e t hb hquote hslash ih
    rw [List.cons_append, readString_plain hb hquote hslash, ih]
    rfl
  · intro b c e t hc ih
    rw [List.cons_append, List.cons_append, readString_escape (unescape_shortEscape hc), ih]
    rfl
  · intro b e t hb ih
    simp only [List.cons_append]
    rw [readString_control hb, ih]
    rfl

/-! ## UTF-8 strings come back as they were -/

/-- A validated sequence is copied. -/
theorem sanitizeFrom_take (n : Nat) (s : Bytes) (h : n ≤ s.length) :
    sanitizeFrom n s = s.take n ++ sanitizeFrom 0 (s.drop n) := by
  induction s generalizing n with
  | nil =>
      obtain rfl : n = 0 := by simpa using h
      rfl
  | cons b s ih =>
      cases n with
      | zero => rfl
      | succ n =>
          rw [sanitizeFrom, ih n (by simpa using h)]
          rfl

theorem continuation_byte : ∀ k < 64, UInt8.ofNat (k + 0x80) &&& 0xC0 = 0x80 ∧
    (UInt8.ofNat (k + 0x80) < 0xA0 ↔ k < 32) ∧ (UInt8.ofNat (k + 0x80) < 0x90 ↔ k < 16) := by
  decide

theorem lead_two : ∀ k < 32, ¬ UInt8.ofNat (k + 0xC0) < 0x80 ∧
    UInt8.ofNat (k + 0xC0) &&& 0xE0 = 0xC0 ∧ (UInt8.ofNat (k + 0xC0) < 0xC2 ↔ k < 2) := by
  decide

theorem lead_three : ∀ k < 16, ¬ UInt8.ofNat (k + 0xE0) < 0x80 ∧
    UInt8.ofNat (k + 0xE0) &&& 0xE0 ≠ 0xC0 ∧ UInt8.ofNat (k + 0xE0) &&& 0xF0 = 0xE0 ∧
    (UInt8.ofNat (k + 0xE0) = 0xE0 ↔ k = 0) ∧ (UInt8.ofNat (k + 0xE0) = 0xED ↔ k = 13) := by
  decide

theorem lead_four : ∀ k < 8, ¬ UInt8.ofNat (k + 0xF0) < 0x80 ∧
    UInt8.ofNat (k + 0xF0) &&& 0xE0 ≠ 0xC0 ∧ UInt8.ofNat (k + 0xF0) &&& 0xF0 ≠ 0xE0 ∧
    UInt8.ofNat (k + 0xF0) &&& 0xF8 = 0xF0 ∧ (UInt8.ofNat (k + 0xF0) = 0xF0 ↔ k = 0) ∧
    (UInt8.ofNat (k + 0xF0) = 0xF4 ↔ k = 4) ∧ (UInt8.ofNat (k + 0xF0) > 0xF4 ↔ k > 4) := by
  decide

/-- `ValidateUtf8` accepts the encoding of a character that is not ASCII, whatever follows it. -/
theorem validateUtf8_encode {c : Char} (hc : 0x7F < c.val.toNat) (s : Bytes) :
    ∃ b t, String.utf8EncodeChar c = b :: t ∧ 0x80 ≤ b ∧ validateUtf8 b (t ++ s) = t.length + 1 := by
  have hvalid : c.val.toNat < 0xD800 ∨ (0xDFFF < c.val.toNat ∧ c.val.toNat < 0x110000) := c.valid
  rw [String.utf8EncodeChar]
  generalize c.val.toNat = v at hc hvalid
  rw [if_neg (by omega)]
  split_ifs with h2 h3
  · obtain ⟨hb, hlead, hover⟩ := lead_two (v / 64 % 32) (by omega)
    obtain ⟨h1, -, -⟩ := continuation_byte (v % 64) (by omega)
    refine ⟨_, _, rfl, UInt8.not_lt.mp hb, ?_⟩
    rw [validateUtf8, if_neg hb, if_pos hlead]
    simp only [List.cons_append, validateTwo, h1, ne_eq, not_true_eq_false, if_false]
    rw [if_neg (by rw [hover]; omega)]
    rfl
  · obtain ⟨hb, hl2, hlead, hE0, hED⟩ := lead_three (v / 4096 % 16) (by omega)
    obtain ⟨h1, hA0, -⟩ := continuation_byte (v / 64 % 64) (by omega)
    obtain ⟨h1', -, -⟩ := continuation_byte (v % 64) (by omega)
    refine ⟨_, _, rfl, UInt8.not_lt.mp hb, ?_⟩
    rw [validateUtf8, if_neg hb, if_neg hl2, if_pos hlead]
    simp only [List.cons_append, validateThree, h1, h1', ne_eq, not_true_eq_false, or_self, if_false]
    rw [if_neg (by rw [hE0, hA0]; omega), if_neg (by rw [hED, ge_iff_le, ← UInt8.not_lt, hA0]; omega)]
    rfl
  · obtain ⟨hb, hl2, hl3, hlead, hF0, hF4, hgt⟩ := lead_four (v / 262144 % 8) (by omega)
    obtain ⟨h1, -, h90⟩ := continuation_byte (v / 4096 % 64) (by omega)
    obtain ⟨h1', -, -⟩ := continuation_byte (v / 64 % 64) (by omega)
    obtain ⟨h1'', -, -⟩ := continuation_byte (v % 64) (by omega)
    refine ⟨_, _, rfl, UInt8.not_lt.mp hb, ?_⟩
    rw [validateUtf8, if_neg hb, if_neg hl2, if_neg hl3, if_pos hlead]
    simp only [List.cons_append, validateFour, h1, h1', h1'', ne_eq, not_true_eq_false, or_self,
      if_false]
    rw [if_neg (by rw [hF0, h90]; omega),
      if_neg (by rw [hF4, ge_iff_le, ← UInt8.not_lt, h90]; omega), if_neg (by rw [hgt]; omega)]
    rfl

theorem sanitize_encode (c : Char) (s : Bytes) :
    sanitize (String.utf8EncodeChar c ++ s) = String.utf8EncodeChar c ++ sanitize s := by
  rw [sanitize, sanitize]
  by_cases hc : c.val.toNat ≤ 0x7F
  · have hb : UInt8.ofNat c.val.toNat < 0x80 := by
      rw [UInt8.lt_iff_toNat_lt]
      simp only [UInt8.toNat_ofNat', UInt8.reduceToNat]
      omega
    rw [String.utf8EncodeChar, if_pos hc, List.singleton_append, sanitizeFrom_ascii hb]
    rfl
  · obtain ⟨b, t, hbt, hhigh, hvalid⟩ := validateUtf8_encode (c := c) (by omega) s
    rw [hbt, List.cons_append, sanitizeFrom_high hhigh, hvalid, if_neg (by omega),
      Nat.add_sub_cancel, sanitizeFrom_take _ _ (by simp)]
    simp

theorem sanitize_of_isUtf8 {s : Bytes} (h : IsUtf8 s) : sanitize s = s :=
  IsUtf8.rec_chars (P := fun s => sanitize s = s) rfl (fun c s _ ih => by rw [sanitize_encode, ih]) h

theorem sanitize_ascii {s : Bytes} (h : ∀ b ∈ s, b < 0x80) : sanitize s = s :=
  sanitize_of_isUtf8 (isUtf8_of_ascii h)

/-! ## No line feed -/

theorem shortEscape_ne_newline (b : UInt8) : shortEscape b ≠ some 0x0A := by
  grind [shortEscape]

theorem kHex_ne_newline (b : UInt8) : kHex (b &&& 0x0F) ≠ 0x0A := by
  have hnibble : b &&& 0x0F ≤ 0x0F := UInt8.and_le_right
  grind [kHex]

theorem newline_notMem_escaped (s : Bytes) : 0x0A ∉ escapeFrom 0 s := by
  refine escaped_induction (P := fun e _ => 0x0A ∉ e) (List.not_mem_nil) ?_ ?_ ?_ s
  · intro b e t hb hquote hslash ih
    rw [List.mem_cons, not_or]
    exact ⟨by rintro rfl; exact absurd hb (by decide), ih⟩
  · intro b c e t hc ih
    have hnl : c ≠ 0x0A := by
      rintro rfl
      exact shortEscape_ne_newline b hc
    simp [ih, hnl.symm]
  · intro b e t hb ih
    simp [ih, (kHex_ne_newline _).symm]

end Harbor.Json
