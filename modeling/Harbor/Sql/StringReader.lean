import Harbor.Sql.ParamReader
import Harbor.Lib.JsonText
import Harbor.Json.Escape

set_option autoImplicit false

/-! # Strings, as the parameter decoder reads them

`ParseString` decodes a string and `ParseRawValue` only looks for its closing quote. On what the writer
writes they are its inverse (`parseString_writeEscapedString`); on any literal of RFC 8259 `ParseString`
decodes each character on its own (`parseString_quoted`), which is right for all literals without
surrogates.
-/

namespace Harbor

namespace Cursor

theorem advance_append (p : Nat) (t rest : Bytes) :
    (⟨p, t ++ rest⟩ : Cursor).advance t.length = ⟨p + t.length, rest⟩ := by
  simp [advance]

theorem goto_append (p : Nat) (t rest : Bytes) :
    (⟨p, t ++ rest⟩ : Cursor).goto rest = ⟨p + t.length, rest⟩ := by
  simp [goto]

end Cursor

namespace ParamDecoder

open Json

theorem skipWhitespace_cons {b : UInt8} (hb : isWs b = false) (p : Nat) (s : Bytes) :
    skipWhitespace ⟨p, b :: s⟩ = ⟨p, b :: s⟩ := by
  simp [skipWhitespace, skipWs_cons hb, Cursor.goto]

/-! ## The closing quote -/

/-- What may stand between two quotes, for a scan that only knows the backslash. -/
inductive Body : Bytes → Prop where
  | nil : Body []
  | plain {b : UInt8} {e : Bytes} (hquote : b ≠ 0x22) (hslash : b ≠ 0x5C) (he : Body e) : Body (b :: e)
  | escape (b : UInt8) {e : Bytes} (he : Body e) : Body (0x5C :: b :: e)

theorem Body.append_plain {t e : Bytes} (ht : ∀ b ∈ t, b ≠ 0x22 ∧ b ≠ 0x5C) (he : Body e) :
    Body (t ++ e) := by
  induction t with
  | nil => exact he
  | cons b t ih =>
      obtain ⟨hquote, hslash⟩ := ht b (by simp)
      exact Body.plain hquote hslash (ih fun c hc => ht c (by simp [hc]))

theorem kHex_plain (b : UInt8) : kHex (b &&& 0x0F) ≠ 0x22 ∧ kHex (b &&& 0x0F) ≠ 0x5C := by
  have hnibble : b &&& 0x0F ≤ 0x0F := UInt8.and_le_right
  grind [kHex]

theorem body_escaped (s : Bytes) : Body (escapeFrom 0 s) := by
  refine escaped_induction (P := fun e _ => Body e) Body.nil ?_ ?_ ?_ s
  · intro b e t _ hquote hslash ih
    exact Body.plain hquote hslash ih
  · intro b c e t _ ih
    exact Body.escape c ih
  · intro b e t _ ih
    refine Body.escape 0x75 (Body.plain (by decide) (by decide) (Body.plain (by decide) (by decide) ?_))
    exact Body.plain (kHex_plain _).1 (kHex_plain _).2 (Body.plain (kHex_plain _).1 (kHex_plain _).2 ih)

theorem body_spell {ps : List Piece} (hps : ∀ p ∈ ps, p.Ok) : Body (spell ps) := by
  induction ps with
  | nil => exact Body.nil
  | cons p ps ih =>
      have htail := ih fun q hq => hps q (by simp [hq])
      have hp := hps p (by simp)
      rw [spell_cons]
      cases p with
      | char c => exact Body.append_plain (fun b hb => (plain_of_mem_chars hp hb).2) htail
      | short b => exact Body.escape b htail
      | unicode a b c d =>
          exact Body.escape 0x75 (Body.append_plain (t := [a, b, c, d]) (hexUnit_plain hp) htail)

theorem scanString_plain {b : UInt8} (hquote : b ≠ 0x22) (hslash : b ≠ 0x5C) (s : Bytes) :
    scanString (b :: s) = scanString s := by
  cases s with
  | nil => simp [scanString, hquote]
  | cons c s => rw [scanString, if_neg hslash, if_neg hquote]

/-- The scan finds the closing quote. -/
theorem scanString_body {e : Bytes} (he : Body e) (rest : Bytes) :
    scanString (e ++ 0x22 :: rest) = some rest := by
  induction he with
  | nil => cases rest <;> rfl
  | plain hquote hslash _ ih => rw [List.cons_append, scanString_plain hquote hslash, ih]
  | escape b _ ih => rw [List.cons_append, List.cons_append, scanString, if_pos rfl, ih]

/-- The text of a value, where the scan for its end is known. -/
theorem parseRawValue_of_scan {b : UInt8} {s rest : Bytes} (hb : isWs b = false)
    (hscan : scanValue (b :: s ++ rest) = .ok rest) (p : Nat) :
    parseRawValue ⟨p, b :: s ++ rest⟩ = .ok (b :: s, ⟨p + (b :: s).length, rest⟩) := by
  have htake : (b :: s ++ rest).take ((b :: s ++ rest).length - rest.length) = b :: s := by
    rw [List.length_append, Nat.add_sub_cancel, List.take_left]
  have hgoto := Cursor.goto_append p (b :: s) rest
  rw [List.cons_append] at hscan htake hgoto ⊢
  rw [parseRawValue, skipWhitespace_cons hb]
  exact bind_eq_ok.mpr ⟨rest, hscan, by rw [htake, hgoto]⟩

theorem parseRawValue_string {e : Bytes} (he : Body e) (p : Nat) (rest : Bytes) :
    parseRawValue ⟨p, 0x22 :: e ++ [0x22] ++ rest⟩ =
      .ok (0x22 :: e ++ [0x22], ⟨p + (0x22 :: e ++ [0x22]).length, rest⟩) := by
  refine parseRawValue_of_scan (b := 0x22) (s := e ++ [0x22]) (by decide) ?_ p
  rw [List.cons_append, List.append_assoc, scanValue, if_pos rfl]
  simp only [List.singleton_append, scanString_body he]

/-! ## Decoding -/

theorem readChars_quote (rest : Bytes) : readChars (0x22 :: rest) = .ok ([], rest) := by
  rw [readChars.eq_def]
  cases rest <;> rfl

theorem readChars_plain {b : UInt8} (hquote : b ≠ 0x22) (hslash : b ≠ 0x5C) (s : Bytes) :
    readChars (b :: s) = (readChars s).map fun r => (b :: r.1, r.2) := by
  cases s with
  | nil => simp [readChars, hquote, hslash, Except.map]
  | cons c s =>
      rw [readChars.eq_def]
      simp only [if_neg hquote, if_neg hslash]
      cases readChars (c :: s) <;> rfl

theorem readChars_plains {t : Bytes} (ht : ∀ b ∈ t, b ≠ 0x22 ∧ b ≠ 0x5C) (s : Bytes) :
    readChars (t ++ s) = (readChars s).map fun r => (t ++ r.1, r.2) := by
  induction t with
  | nil => cases h : readChars s <;> simp [Except.map, h]
  | cons b t ih =>
      obtain ⟨hquote, hslash⟩ := ht b (by simp)
      rw [List.cons_append, readChars_plain hquote hslash, ih fun c hc => ht c (by simp [hc])]
      cases readChars s <;> rfl

/-- The escapes that the reader knows are those of the grammar. -/
theorem simpleEscape_eq (c : UInt8) : simpleEscape c = unescape c := by
  unfold simpleEscape unescape
  split_ifs <;> simp_all

theorem readChars_escape {b c : UInt8} (h : unescape c = some b) (s : Bytes) :
    readChars (0x5C :: c :: s) = (readChars s).map fun r => (b :: r.1, r.2) := by
  rw [readChars.eq_def]
  simp only [if_neg (show ¬ (0x5C : UInt8) = 0x22 by decide), if_true, if_neg (ne_u_of_unescape h),
    simpleEscape_eq, h]
  cases readChars s <;> rfl

theorem readChars_unicode {a b c d : UInt8} {u : Nat} (h : hexUnit a b c d = some u) (s : Bytes) :
    readChars (0x5C :: 0x75 :: a :: b :: c :: d :: s) =
      (readChars s).map fun r => (encodeUtf8 u ++ r.1, r.2) := by
  rw [readChars.eq_def]
  simp only [if_neg (show ¬ (0x5C : UInt8) = 0x22 by decide), if_true, h]
  cases readChars s <;> rfl

/-- A string whose body decodes to `t`. -/
theorem parseString_body {e t : Bytes} {rest : Bytes}
    (h : readChars (e ++ 0x22 :: rest) = .ok (t, rest)) (p : Nat) :
    parseString ⟨p, 0x22 :: e ++ [0x22] ++ rest⟩ =
      .ok (t, ⟨p + (0x22 :: e ++ [0x22]).length, rest⟩) := by
  have hshape : 0x22 :: e ++ [0x22] ++ rest = 0x22 :: (e ++ 0x22 :: rest) := by simp
  rw [parseString, hshape, skipWhitespace_cons (by decide)]
  simp only [if_true]
  rw [h, ← hshape]
  exact congrArg (fun c => Except.ok (t, c)) (Cursor.goto_append p _ rest)

/-! ## What the writer writes -/

theorem readChars_escaped (s rest : Bytes) :
    readChars (escapeFrom 0 s ++ 0x22 :: rest) = .ok (sanitize s, rest) := by
  refine escaped_induction (P := fun e t => readChars (e ++ 0x22 :: rest) = .ok (t, rest))
    (readChars_quote rest) ?_ ?_ ?_ s
  · intro b e t _ hquote hslash ih
    rw [List.cons_append, readChars_plain hquote hslash, ih]
    rfl
  · intro b c e t hc ih
    rw [List.cons_append, List.cons_append, readChars_escape (unescape_shortEscape hc), ih]
    rfl
  · intro b e t hb ih
    have hlt : b.toNat < 0x80 := by
      have hnat : b.toNat < 0x20 := UInt8.lt_iff_toNat_lt.mp hb
      omega
    simp only [List.cons_append]
    rw [readChars_unicode (hexUnit_control b hb), ih, encodeUtf8, if_pos hlt, UInt8.ofNat_toNat]
    rfl

/-- `ParseString` gets the string back, with U+FFFD for what was not UTF-8. -/
theorem parseString_escaped (p : Nat) (s rest : Bytes) :
    parseString ⟨p, writeEscapedString s ++ rest⟩ =
      .ok (sanitize s, ⟨p + (writeEscapedString s).length, rest⟩) :=
  parseString_body (readChars_escaped s rest) p

/-- **The string reader inverts the string writer**, and the scan for the end of a value takes exactly
what was written. -/
theorem parseString_writeEscapedString (s : Bytes) (hs : Bytes.IsUtf8 s) (p : Nat) (t : Bytes) :
    parseString ⟨p, writeEscapedString s ++ t⟩ = .ok (s, ⟨p + (writeEscapedString s).length, t⟩) ∧
      parseRawValue ⟨p, writeEscapedString s ++ t⟩ =
        .ok (writeEscapedString s, ⟨p + (writeEscapedString s).length, t⟩) := by
  have hread := parseString_escaped p s t
  rw [sanitize_of_isUtf8 hs] at hread
  exact ⟨hread, parseRawValue_string (body_escaped s) p t⟩

theorem parseString_writeEscapedString_quote :
    parseString ⟨0, writeEscapedString [0x22, 0x5C, 0x0A] ++ [0x22]⟩ =
        .ok ([0x22, 0x5C, 0x0A], ⟨8, [0x22]⟩) ∧
      parseRawValue ⟨0, writeEscapedString [0x22, 0x5C, 0x0A] ++ [0x22]⟩ =
        .ok (writeEscapedString [0x22, 0x5C, 0x0A], ⟨8, [0x22]⟩) :=
  parseString_writeEscapedString [0x22, 0x5C, 0x0A] (Bytes.isUtf8_of_ascii (by decide)) 0 [0x22]

/-! ## Any literal -/

/-- What `ParseString` makes of a character: an escape `\uXXXX` is encoded on its own. -/
def decodePiece : Piece → Bytes
  | .unicode a b c d => encodeUtf8 ((hexUnit a b c d).getD 0)
  | p => p.chars

theorem readChars_spell {ps : List Piece} (hps : ∀ p ∈ ps, p.Ok) (rest : Bytes) :
    readChars (spell ps ++ 0x22 :: rest) = .ok (ps.flatMap decodePiece, rest) := by
  induction ps with
  | nil => exact readChars_quote rest
  | cons p ps ih =>
      have htail := ih fun q hq => hps q (by simp [hq])
      have hp := hps p (by simp)
      rw [spell_cons, List.append_assoc, List.flatMap_cons]
      cases p with
      | char c =>
          rw [Piece.text, readChars_plains fun b hb => (plain_of_mem_chars hp hb).2, htail]
          rfl
      | short b =>
          obtain ⟨x, hx⟩ := Option.isSome_iff_exists.mp hp
          have hshort := readChars_escape hx (spell ps ++ 0x22 :: rest)
          rw [htail] at hshort
          rw [show decodePiece (.short b) = [x] by simp [decodePiece, Piece.chars, hx]]
          exact hshort
      | unicode a b c d =>
          obtain ⟨u, hu⟩ := Option.isSome_iff_exists.mp hp
          have hread := readChars_unicode hu (spell ps ++ 0x22 :: rest)
          rw [htail] at hread
          rw [decodePiece, hu]
          exact hread

theorem hexValue_lt {b : UInt8} {v : Nat} (h : hexValue b = some v) : v < 16 :=
  forall_byte (P := fun b => ∀ v ∈ hexValue b, v < 16) (by decide +kernel) b v h

theorem hexUnit_lt {a b c d : UInt8} {u : Nat} (h : hexUnit a b c d = some u) : u < 0x10000 := by
  simp only [hexUnit, Option.bind_eq_bind, Option.bind_eq_some_iff, Option.some.injEq] at h
  obtain ⟨va, ha, vb, hb, vc, hc, vd, hd, rfl⟩ := h
  have hva := hexValue_lt ha
  have hvb := hexValue_lt hb
  have hvc := hexValue_lt hc
  have hvd := hexValue_lt hd
  omega

/-- What `EncodeUtf8` writes below U+10000. -/
theorem encodeUtf8_eq {u : Nat} (hu : u < 0x10000) : encodeUtf8 u =
    if u ≤ 0x7F then [UInt8.ofNat u]
    else if u ≤ 0x7FF then [UInt8.ofNat (u / 64 % 32 + 192), UInt8.ofNat (u % 64 + 128)]
    else [UInt8.ofNat (u / 4096 % 16 + 224), UInt8.ofNat (u / 64 % 64 + 128),
      UInt8.ofNat (u % 64 + 128)] := by
  have hlead2 : ∀ k < 32, 0xC0 ||| k = k + 192 := by decide
  have hlead3 : ∀ k < 16, 0xE0 ||| k = k + 224 := by decide
  have hmore : ∀ k < 64, 0x80 ||| k = k + 128 := by decide
  have hmask : ∀ n, n &&& 0x3F = n % 64 := fun n => Nat.and_two_pow_sub_one_eq_mod n 6
  have hcont : ∀ n, 0x80 ||| n &&& 0x3F = n % 64 + 128 := by
    intro n
    rw [hmask]
    exact hmore _ (Nat.mod_lt n (by decide))
  unfold encodeUtf8
  by_cases h1 : u < 0x80
  · rw [if_pos h1, if_pos (show u ≤ 0x7F by omega)]
  · rw [if_neg h1, if_neg (show ¬ u ≤ 0x7F by omega)]
    by_cases h2 : u < 0x800
    · rw [if_pos h2, if_pos (show u ≤ 0x7FF by omega), hcont, Nat.shiftRight_eq_div_pow,
        hlead2 _ (by omega), Nat.mod_eq_of_lt (show u / 64 < 32 by omega)]
    · rw [if_neg h2, if_neg (show ¬ u ≤ 0x7FF by omega), if_pos hu, hcont, hcont,
        Nat.shiftRight_eq_div_pow, Nat.shiftRight_eq_div_pow, hlead3 _ (by omega),
        Nat.mod_eq_of_lt (show u / 4096 < 16 by omega)]

theorem decodePiece_eq {p : Piece} (hp : p.Ok) (hsur : p.isSurrogate = false) :
    decodePiece p = p.chars := by
  cases p with
  | char c => rfl
  | short b => rfl
  | unicode a b c d =>
      obtain ⟨u, hu⟩ := Option.isSome_iff_exists.mp hp
      have hlt := hexUnit_lt hu
      have hunit : ¬ (0xD800 ≤ u ∧ u < 0xE000) := by simpa [Piece.isSurrogate, hu] using hsur
      have hval : (Char.ofNat u).val.toNat = u := Bytes.toNat_charOfNat (by omega)
      rw [decodePiece, Piece.chars, hu, Option.getD_some, encodeUtf8_eq hlt, String.utf8EncodeChar,
        hval, if_pos (show u ≤ 0xFFFF by omega)]

/-- Half of a surrogate pair is not the start of a UTF-8 string. -/
theorem not_isUtf8_surrogate {u : Nat} (hu : 0xD800 ≤ u ∧ u < 0xE000) (s : Bytes) :
    ¬ Bytes.IsUtf8 (encodeUtf8 u ++ s) := by
  rintro ⟨cs, hcs⟩
  rw [encodeUtf8_eq (by omega), if_neg (by omega), if_neg (by omega)] at hcs
  cases cs with
  | nil => exact absurd hcs (by simp)
  | cons c cs =>
      have hvalid : c.val.toNat < 0xD800 ∨ (0xDFFF < c.val.toNat ∧ c.val.toNat < 0x110000) := c.valid
      rw [List.flatMap_cons, String.utf8EncodeChar] at hcs
      -- the first two bytes fix the upper ten bits
      split_ifs at hcs with h1 h2 h3
      all_goals
        simp only [List.cons_append, List.cons.injEq] at hcs
        have hfirst := congrArg UInt8.toNat hcs.1
        simp only [UInt8.toNat_ofNat'] at hfirst
        try omega
      have hsecond := congrArg UInt8.toNat hcs.2.1
      simp only [UInt8.toNat_ofNat'] at hsecond
      omega

/-- What is read is UTF-8 exactly if no escape is one for a surrogate. -/
theorem isUtf8_decodePieces {ps : List Piece} (hps : ∀ p ∈ ps, p.Ok) :
    Bytes.IsUtf8 (ps.flatMap decodePiece) ↔ ∀ p ∈ ps, p.isSurrogate = false := by
  induction ps with
  | nil => exact iff_of_true ⟨[], rfl⟩ (by simp)
  | cons p ps ih =>
      have hp := hps p (by simp)
      have htail := ih fun q hq => hps q (by simp [hq])
      rw [List.flatMap_cons, List.forall_mem_cons]
      cases hsur : p.isSurrogate with
      | false =>
          obtain ⟨c, hc⟩ := hp.exists_char hsur
          rw [decodePiece_eq hp hsur, hc, ← htail]
          constructor
          · exact fun h => ⟨rfl, h.of_append_char⟩
          · rintro ⟨-, cs, hcs⟩
            exact ⟨c :: cs, by rw [hcs, List.flatMap_cons]⟩
      | true =>
          refine iff_of_false ?_ (by simp)
          cases p with
          | char c => cases hsur
          | short b => cases hsur
          | unicode a b c d =>
              obtain ⟨u, hu⟩ := Option.isSome_iff_exists.mp hp
              have hunit : 0xD800 ≤ u ∧ u < 0xE000 := by simpa [Piece.isSurrogate, hu] using hsur
              rw [decodePiece, hu]
              exact not_isUtf8_surrogate hunit _

theorem flatMap_decodePiece {ps : List Piece} (hps : ∀ p ∈ ps, p.Ok)
    (hsur : ∀ p ∈ ps, p.isSurrogate = false) : ps.flatMap decodePiece = ps.flatMap Piece.chars :=
  List.flatMap_congr fun p hp => decodePiece_eq (hps p hp) (hsur p hp)

theorem parseString_spell {ps : List Piece} (hps : ∀ p ∈ ps, p.Ok) (p : Nat) (rest : Bytes) :
    parseString ⟨p, quoted ps ++ rest⟩ =
      .ok (ps.flatMap decodePiece, ⟨p + (quoted ps).length, rest⟩) :=
  parseString_body (readChars_spell hps rest) p

/-- **Every literal is accepted, and each of its characters decoded on its own**: the result is UTF-8
exactly if no escape is one for a surrogate, and then it is the string that the literal stands for. -/
theorem parseString_quoted (ps : List Piece) (hps : ∀ p ∈ ps, p.Ok) (p : Nat) (rest : Bytes) :
    parseString ⟨p, quoted ps ++ rest⟩ =
        .ok (ps.flatMap decodePiece, ⟨p + (quoted ps).length, rest⟩) ∧
      (Bytes.IsUtf8 (ps.flatMap decodePiece) ↔ ∀ q ∈ ps, q.isSurrogate = false) ∧
      ((∀ q ∈ ps, q.isSurrogate = false) →
        readString none (spell ps ++ 0x22 :: rest) = some (ps.flatMap decodePiece, rest)) := by
  refine ⟨parseString_spell hps p rest, isUtf8_decodePieces hps, fun hsur => ?_⟩
  rw [flatMap_decodePiece hps hsur]
  exact readString_spell hps hsur rest

/-- The literal of the two halves of U+1F600. -/
def pairLiteral : List Piece :=
  [.unicode 0x44 0x38 0x33 0x44, .unicode 0x44 0x45 0x30 0x30]

theorem parseString_quoted_pair :
    parseString ⟨0, quoted pairLiteral ++ []⟩ =
        .ok (pairLiteral.flatMap decodePiece, ⟨0 + (quoted pairLiteral).length, []⟩) ∧
      (Bytes.IsUtf8 (pairLiteral.flatMap decodePiece) ↔ ∀ q ∈ pairLiteral, q.isSurrogate = false) ∧
      ((∀ q ∈ pairLiteral, q.isSurrogate = false) →
        readString none (spell pairLiteral ++ 0x22 :: []) =
          some (pairLiteral.flatMap decodePiece, [])) :=
  parseString_quoted pairLiteral (by decide) 0 []

/-- Reading it gives two sequences of three bytes that no UTF-8 has, not the four of the character. -/
theorem parseString_pair_illFormed :
    ¬ ∀ (ps : List Piece), (∀ p ∈ ps, p.Ok) → ∀ rest : Bytes,
      (∀ s, readString none (spell ps ++ 0x22 :: rest) = some (s, rest) →
        ∃ c, parseString ⟨0, quoted ps ++ rest⟩ = .ok (s, c)) ∧
      ∀ s c, parseString ⟨0, quoted ps ++ rest⟩ = .ok (s, c) → Bytes.IsUtf8 s := by
  intro h
  have hread := (h pairLiteral (by decide) []).1 [0xF0, 0x9F, 0x98, 0x80] (by decide)
  obtain ⟨c, hc⟩ := hread
  have hout : (parseString ⟨0, quoted pairLiteral ++ []⟩).toOption.map Prod.fst =
      some [0xED, 0xA0, 0xBD, 0xED, 0xB8, 0x80] := by
    decide
  rw [hc] at hout
  have hsame : [0xF0, 0x9F, 0x98, 0x80] = ([0xED, 0xA0, 0xBD, 0xED, 0xB8, 0x80] : Bytes) :=
    Option.some.inj hout
  exact absurd hsame (by decide)

end ParamDecoder

end Harbor
