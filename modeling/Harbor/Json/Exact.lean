import Harbor.Json.Writer
import Harbor.Lib.Utf8

set_option autoImplicit false

/-! # Escaping is exact

`ValidateUtf8` accepts the encodings of the characters and nothing else, so the scan of
`WriteEscapedString` replaces exactly the bytes that are part of no well-formed sequence, and what it
writes is UTF-8.
-/

namespace Harbor.Json

open Bytes

/-! ## The validator -/

/-- The masks of `ValidateUtf8` as ranges. -/
theorem mask_iff (b : UInt8) :
    (b &&& 0xC0 = 0x80 ↔ IsContinuation b) ∧
      (b &&& 0xE0 = 0xC0 ↔ 0xC0 ≤ b.toNat ∧ b.toNat < 0xE0) ∧
      (b &&& 0xF0 = 0xE0 ↔ 0xE0 ≤ b.toNat ∧ b.toNat < 0xF0) ∧
      (b &&& 0xF8 = 0xF0 ↔ 0xF0 ≤ b.toNat ∧ b.toNat < 0xF8) := by
  revert b
  refine forall_byte fun n => ?_
  revert n
  simp only [IsContinuation]
  decide +kernel

theorem exists_of_validateTwo {b : UInt8} {s : Bytes} (hb : 0xC0 ≤ b.toNat ∧ b.toNat < 0xE0)
    (h : validateTwo b s ≠ 0) : ∃ c, String.utf8EncodeChar c <+: b :: s := by
  match s with
  | [] => exact absurd rfl h
  | x :: s =>
      rw [validateTwo] at h
      split_ifs at h with hx hover
      · exact absurd rfl h
      · exact absurd rfl h
      · have hlow : 0xC2 ≤ b.toNat := UInt8.le_iff_toNat_le.mp (UInt8.not_lt.mp hover)
        obtain ⟨c, hc⟩ := exists_two ⟨hlow, hb.2⟩ ((mask_iff x).1.mp (not_not.mp hx))
        exact ⟨c, s, by rw [hc]; rfl⟩

theorem exists_of_validateThree {b : UInt8} {s : Bytes} (hb : 0xE0 ≤ b.toNat ∧ b.toNat < 0xF0)
    (h : validateThree b s ≠ 0) : ∃ c, String.utf8EncodeChar c <+: b :: s := by
  match s with
  | [] => exact absurd rfl h
  | [_] => exact absurd rfl h
  | x :: y :: s =>
      rw [validateThree] at h
      split_ifs at h with hxy hlow hsurrogate
      · exact absurd rfl h
      · exact absurd rfl h
      · exact absurd rfl h
      · simp only [not_or, not_not] at hxy
        have hlow' : b.toNat = 0xE0 → 0xA0 ≤ x.toNat := by
          intro hE0
          by_contra hA0
          exact hlow ⟨UInt8.toNat_inj.mp hE0, UInt8.lt_iff_toNat_lt.mpr (by simpa using hA0)⟩
        have hsurrogate' : b.toNat = 0xED → x.toNat < 0xA0 := by
          intro hED
          by_contra hA0
          exact hsurrogate ⟨UInt8.toNat_inj.mp hED, UInt8.le_iff_toNat_le.mpr (by simpa using hA0)⟩
        obtain ⟨c, hc⟩ := exists_three hb ((mask_iff x).1.mp hxy.1) ((mask_iff y).1.mp hxy.2)
          hlow' hsurrogate'
        exact ⟨c, s, by rw [hc]; rfl⟩

theorem exists_of_validateFour {b : UInt8} {s : Bytes} (hb : 0xF0 ≤ b.toNat ∧ b.toNat < 0xF8)
    (h : validateFour b s ≠ 0) : ∃ c, String.utf8EncodeChar c <+: b :: s := by
  match s with
  | [] => exact absurd rfl h
  | [_] => exact absurd rfl h
  | [_, _] => exact absurd rfl h
  | x :: y :: z :: s =>
      rw [validateFour] at h
      split_ifs at h with hxyz hlow hhigh hrange
      · exact absurd rfl h
      · exact absurd rfl h
      · exact absurd rfl h
      · exact absurd rfl h
      · simp only [not_or, not_not] at hxyz
        have hlow' : b.toNat = 0xF0 → 0x90 ≤ x.toNat := by
          intro hF0
          by_contra h90
          exact hlow ⟨UInt8.toNat_inj.mp hF0, UInt8.lt_iff_toNat_lt.mpr (by simpa using h90)⟩
        have hhigh' : b.toNat = 0xF4 → x.toNat < 0x90 := by
          intro hF4
          by_contra h90
          exact hhigh ⟨UInt8.toNat_inj.mp hF4, UInt8.le_iff_toNat_le.mpr (by simpa using h90)⟩
        have hrange' : b.toNat ≤ 0xF4 := UInt8.le_iff_toNat_le.mp (UInt8.not_lt.mp hrange)
        obtain ⟨c, hc⟩ := exists_four ⟨hb.1, by omega⟩ ((mask_iff x).1.mp hxyz.1)
          ((mask_iff y).1.mp hxyz.2.1) ((mask_iff z).1.mp hxyz.2.2) hlow' hhigh'
        exact ⟨c, s, by rw [hc]; rfl⟩

/-- What `ValidateUtf8` accepts at a byte that is not ASCII starts with a character. -/
theorem exists_of_validateUtf8 {b : UInt8} {s : Bytes} (hb : 0x80 ≤ b) (h : validateUtf8 b s ≠ 0) :
    ∃ c, String.utf8EncodeChar c <+: b :: s := by
  obtain ⟨-, htwo, hthree, hfour⟩ := mask_iff b
  rw [validateUtf8, if_neg (UInt8.not_lt.mpr hb)] at h
  split_ifs at h with h2 h3 h4
  · exact exists_of_validateTwo (htwo.mp h2) h
  · exact exists_of_validateThree (hthree.mp h3) h
  · exact exists_of_validateFour (hfour.mp h4) h
  · exact absurd rfl h

/-- A character other than an ASCII one starts with a byte from 0x80 on. -/
theorem encode_cases (c : Char) :
    (∃ b, b < 0x80 ∧ String.utf8EncodeChar c = [b]) ∨
      (∃ b t, 0x80 ≤ b ∧ String.utf8EncodeChar c = b :: t ∧
        ∀ s, validateUtf8 b (t ++ s) = t.length + 1) := by
  by_cases hc : c.val.toNat ≤ 0x7F
  · left
    refine ⟨UInt8.ofNat c.val.toNat, ?_, by rw [String.utf8EncodeChar, if_pos hc]⟩
    rw [UInt8.lt_iff_toNat_lt]
    simp only [UInt8.toNat_ofNat', UInt8.reduceToNat]
    omega
  · right
    obtain ⟨b, t, hbt, hhigh, -⟩ := validateUtf8_encode (c := c) (by omega) []
    refine ⟨b, t, hhigh, hbt, fun s => ?_⟩
    obtain ⟨b', t', hbt', -, hvalid⟩ := validateUtf8_encode (c := c) (by omega) s
    obtain ⟨rfl, rfl⟩ := List.cons.inj (hbt.symm.trans hbt')
    exact hvalid

/-- **Induction over the scan**: an ASCII byte, a character, or a byte where none starts. -/
theorem scan_induction {P : Bytes → Prop} (nil : P []) (ascii : ∀ b s, b < 0x80 → P s → P (b :: s))
    (char : ∀ b t s, 0x80 ≤ b → (∃ c, String.utf8EncodeChar c = b :: t) →
      validateUtf8 b (t ++ s) = t.length + 1 → P s → P (b :: t ++ s))
    (bad : ∀ b s, 0x80 ≤ b → validateUtf8 b s = 0 → P s → P (b :: s)) (s : Bytes) : P s := by
  induction hn : s.length using Nat.strong_induction_on generalizing s with
  | _ n ih =>
      cases s with
      | nil => exact nil
      | cons b s =>
          rw [List.length_cons] at hn
          by_cases hb : b < 0x80
          · exact ascii b s hb (ih s.length (by omega) s rfl)
          · have hhigh : 0x80 ≤ b := UInt8.not_lt.mp hb
            by_cases hvalid : validateUtf8 b s = 0
            · exact bad b s hhigh hvalid (ih s.length (by omega) s rfl)
            · obtain ⟨c, rest, hc⟩ := exists_of_validateUtf8 hhigh hvalid
              rcases encode_cases c with ⟨b', hlow, hbt⟩ | ⟨b', t, -, hbt, hlen⟩
              · rw [hbt] at hc
                exact absurd ((List.cons.inj hc).1 ▸ hlow) hb
              · rw [hbt, List.cons_append] at hc
                obtain ⟨rfl, rfl⟩ := List.cons.inj hc
                rw [List.length_append] at hn
                exact char b' t rest hhigh ⟨c, hbt⟩ (hlen rest) (ih rest.length (by omega) rest rfl)

/-! ## The replaced bytes -/

/-- The writer's scan replaces exactly the bytes that are part of no well-formed sequence. -/
theorem sanitize_eq (s : Bytes) : sanitize s = replaceIllFormed s := by
  refine eq_replaceIllFormed rfl sanitize_encode (fun b s hno => ?_) s
  -- an ASCII byte is a character, and so is the start of what the validator accepts
  have hb : 0x80 ≤ b := by
    by_contra hlow
    exact hno (Char.ofNat b.toNat) ⟨s, by rw [utf8EncodeChar_ascii (UInt8.not_le.mp hlow)]; rfl⟩
  have hbad : validateUtf8 b s = 0 := by
    by_contra hvalid
    obtain ⟨c, hc⟩ := exists_of_validateUtf8 hb hvalid
    exact hno c hc
  rw [sanitize, sanitizeFrom_high hb, if_pos hbad]
  rfl

/-! ## The written bytes -/

theorem escapeFrom_take (n : Nat) (s : Bytes) (h : n ≤ s.length) :
    escapeFrom n s = s.take n ++ escapeFrom 0 (s.drop n) := by
  induction s generalizing n with
  | nil =>
      obtain rfl : n = 0 := by simpa using h
      rfl
  | cons b s ih =>
      cases n with
      | zero => rfl
      | succ n =>
          rw [escapeFrom, ih n (by simpa using h)]
          rfl

theorem shortEscape_printable (b : UInt8) :
    ∀ c, shortEscape b = some c → 0x20 ≤ c ∧ c < 0x80 := by
  grind [shortEscape]

theorem kHex_printable (b : UInt8) : 0x20 ≤ kHex (b &&& 0x0F) ∧ kHex (b &&& 0x0F) < 0x80 := by
  have hnibble : b &&& 0x0F ≤ 0x0F := UInt8.and_le_right
  grind [kHex]

/-- UTF-8 without a control character. -/
def Printable (s : Bytes) : Prop := IsUtf8 s ∧ ∀ b ∈ s, 0x20 ≤ b

theorem Printable.append {s t : Bytes} (hs : Printable s) (ht : Printable t) : Printable (s ++ t) :=
  ⟨hs.1.append ht.1, List.forall_mem_append.mpr ⟨hs.2, ht.2⟩⟩

theorem printable_ascii {s : Bytes} (h : ∀ b ∈ s, 0x20 ≤ b ∧ b < 0x80) : Printable s :=
  ⟨isUtf8_of_ascii fun b hb => (h b hb).2, fun b hb => (h b hb).1⟩

/-- What an ASCII byte is written as. -/
theorem escapeFrom_ascii {b : UInt8} (hb : b < 0x80) :
    ∃ p, Printable p ∧ ∀ s, escapeFrom 0 (b :: s) = p ++ escapeFrom 0 s := by
  rcases byte_cases b with h | ⟨h, -, hc⟩ | ⟨h, hc⟩ | ⟨h, -⟩
  · refine ⟨[b], printable_ascii (by simpa using ⟨h.1, h.2.1⟩), fun s => ?_⟩
    rw [escapeFrom_plain h]
    rfl
  · obtain ⟨c, hc⟩ := Option.isSome_iff_exists.mp hc
    refine ⟨[0x5C, c], printable_ascii ?_, fun s => ?_⟩
    · simpa using shortEscape_printable b c hc
    · rw [escapeFrom_short h hc]
      rfl
  · refine ⟨[0x5C, 0x75, 0x30, 0x30, kHex ((b >>> 4) &&& 0x0F), kHex (b &&& 0x0F)],
      printable_ascii ?_, fun s => ?_⟩
    · simpa using ⟨kHex_printable (b >>> 4), kHex_printable b⟩
    · rw [escapeFrom_control h hc]
      rfl
  · exact absurd hb (UInt8.not_lt.mpr h)

theorem shortEscape_high {b : UInt8} (hb : 0x80 ≤ b) : shortEscape b = none := by
  grind [shortEscape]

/-- A validated sequence stands for itself. -/
theorem escapeFrom_sequence {b : UInt8} {t s : Bytes} (hb : 0x80 ≤ b)
    (hvalid : validateUtf8 b (t ++ s) = t.length + 1) :
    escapeFrom 0 (b :: t ++ s) = b :: t ++ escapeFrom 0 s := by
  rw [List.cons_append, escapeFrom_high hb (shortEscape_high hb), hvalid, if_neg (Nat.succ_ne_zero _),
    Nat.add_sub_cancel, escapeFrom_take _ _ (by simp), List.take_left, List.drop_left,
    List.cons_append]

theorem escapeFrom_bad {b : UInt8} {s : Bytes} (hb : 0x80 ≤ b) (h : validateUtf8 b s = 0) :
    escapeFrom 0 (b :: s) = replacement ++ escapeFrom 0 s := by
  rw [escapeFrom_high hb (shortEscape_high hb), if_pos h]

theorem printable_escapeFrom (s : Bytes) : Printable (escapeFrom 0 s) := by
  induction s using scan_induction with
  | nil => exact printable_ascii (by simp [escapeFrom])
  | ascii b s hb ih =>
      obtain ⟨p, hp, hwrite⟩ := escapeFrom_ascii hb
      rw [hwrite]
      exact hp.append ih
  | char b t s hb hc hvalid ih =>
      obtain ⟨c, hc⟩ := hc
      have hplain : ∀ x ∈ b :: t, 0x20 ≤ x := by
        have hcontinued := continued_validateUtf8 b (t ++ s)
        rw [hvalid, Nat.add_sub_cancel] at hcontinued
        intro x hx
        have hx80 : 0x80 ≤ x := by
          rcases List.mem_cons.mp hx with rfl | hx
          · exact hb
          · exact hcontinued.2 x (by simpa using hx)
        exact UInt8.le_trans (by decide) hx80
      rw [escapeFrom_sequence hb hvalid, ← hc]
      exact Printable.append ⟨isUtf8_encode c, hc ▸ hplain⟩ ih
  | bad b s hb hvalid ih =>
      rw [escapeFrom_bad hb hvalid]
      exact Printable.append ⟨isUtf8_encode (Char.ofNat 0xFFFD), by decide⟩ ih

/-- **What `WriteEscapedString` writes for any bytes is a JSON string in UTF-8 without a control
character, and a reader gets the bytes with one U+FFFD for each that is part of no well-formed
sequence.** -/
theorem writeEscapedString_exact (s : Bytes) :
    IsUtf8 (writeEscapedString s) ∧ (∀ b ∈ writeEscapedString s, 0x20 ≤ b) ∧
      parse (writeEscapedString s) = some (.str (replaceIllFormed s)) ∧
      (IsUtf8 s → parse (writeEscapedString s) = some (.str s)) := by
  have hquote : Printable [0x22] := printable_ascii (by decide)
  have hprintable : Printable (writeEscapedString s) :=
    (hquote.append (printable_escapeFrom s)).append hquote
  have hread : parse (writeEscapedString s) = some (.str (sanitize s)) :=
    parse_text (numbersOk_str s)
  refine ⟨hprintable.1, hprintable.2, ?_, fun hs => ?_⟩
  · rw [hread, sanitize_eq]
  · rw [hread, sanitize_of_isUtf8 hs]

/-- Each byte of a truncated sequence is replaced. -/
example : parse (writeEscapedString [0x61, 0xE2, 0x82]) =
    some (.str [0x61, 0xEF, 0xBF, 0xBD, 0xEF, 0xBF, 0xBD]) := rfl

end Harbor.Json
