import Harbor.Lib.Base64Url

set_option autoImplicit false

/-! # The codec of the cookie segments

`Base64UrlEncode` and `Base64UrlDecode` of `harbor_crypto`, on the 32-bit words and with the tables of the
source. They are the codec of `Lib/Base64Url` (`base64UrlEncode_eq`, `base64UrlDecode_eq`), and the word
that the decoder shifts without masking it gives the bytes that a number of any size would
(`base64Url_codec`).
-/

namespace Harbor.Auth

/-! ## The tables -/

def kB64UrlChars : Bytes := lit "ABCDEFGHIJKLMNOPQRSTUVWXYZabcdefghijklmnopqrstuvwxyz0123456789-_"

/-- The character of the low six bits. -/
def b64UrlChar (v : UInt32) : UInt8 := kB64UrlChars.getD (v &&& 0x3F).toNat 0

/-- `BuildB64UrlReverseMap`. -/
def kB64UrlReverse : List UInt8 :=
  (List.range 64).foldl (fun map i => map.set (kB64UrlChars.getD i 0).toNat (UInt8.ofNat i))
    (List.replicate 256 0xFF)

/-! ## The functions -/

/-- `Base64UrlEncode`: blocks of three bytes and what is left of one. -/
def base64UrlEncode : Bytes → Bytes
  | [] => []
  | [a] =>
      let v : UInt32 := a.toUInt32 <<< 16
      [b64UrlChar (v >>> 18), b64UrlChar (v >>> 12)]
  | [a, b] =>
      let v : UInt32 := a.toUInt32 <<< 16 ||| b.toUInt32 <<< 8
      [b64UrlChar (v >>> 18), b64UrlChar (v >>> 12), b64UrlChar (v >>> 6)]
  | a :: b :: c :: bytes =>
      let v : UInt32 := a.toUInt32 <<< 16 ||| b.toUInt32 <<< 8 ||| c.toUInt32
      b64UrlChar (v >>> 18) :: b64UrlChar (v >>> 12) :: b64UrlChar (v >>> 6) :: b64UrlChar v ::
        base64UrlEncode bytes

/-- The loop of `Base64UrlDecode`. -/
def base64UrlDecodeLoop (buffer : UInt32) (bits : Nat) : Bytes → Except Bytes Bytes
  | [] => return []
  | c :: encoded =>
      let v := kB64UrlReverse.getD c.toNat 0
      if v = 0xFF then throw (lit "base64url: invalid character")
      else
        let buffer := buffer <<< 6 ||| v.toUInt32
        if 8 ≤ bits + 6 then do
          let out ← base64UrlDecodeLoop buffer (bits + 6 - 8) encoded
          return (buffer >>> UInt32.ofNat (bits + 6 - 8) &&& 0xFF).toUInt8 :: out
        else base64UrlDecodeLoop buffer (bits + 6) encoded

/-- `Base64UrlDecode`. -/
def base64UrlDecode (encoded : Bytes) : Except Bytes Bytes :=
  base64UrlDecodeLoop 0 0 (Base64Url.stripPadding encoded)

/-- The loop with a number that never wraps in place of the word. -/
def unboundedLoop (buffer bits : Nat) : Bytes → Except Bytes Bytes
  | [] => return []
  | c :: encoded =>
      let v := kB64UrlReverse.getD c.toNat 0
      if v = 0xFF then throw (lit "base64url: invalid character")
      else
        let buffer := buffer * 64 + v.toNat
        if 8 ≤ bits + 6 then do
          let out ← unboundedLoop buffer (bits + 6 - 8) encoded
          return UInt8.ofNat (buffer / 2 ^ (bits + 6 - 8)) :: out
        else unboundedLoop buffer (bits + 6) encoded

/-! ## The encoder -/

attribute [local simp] base64UrlEncode base64UrlDecodeLoop unboundedLoop

/-- The characters are those of the sextets in their order. -/
theorem kB64UrlChars_eq_map : kB64UrlChars = (List.range 64).map Base64Url.alphabet := by
  rfl

theorem kB64UrlChars_eq {n : Nat} (h : n < 64) : kB64UrlChars.getD n 0 = Base64Url.alphabet n := by
  have hlt : n < (List.range 64).length := by rwa [List.length_range]
  rw [kB64UrlChars_eq_map, List.getD_eq_getElem?_getD, List.getElem?_map, List.getElem?_eq_getElem hlt,
    List.getElem_range, Option.map_some, Option.getD_some]

theorem b64UrlChar_eq (v : UInt32) : b64UrlChar v = Base64Url.alphabet (v.toNat % 64) := by
  have hmask : (v &&& 0x3F).toNat = v.toNat % 64 := by
    rw [UInt32.toNat_and]
    exact Nat.and_two_pow_sub_one_eq_mod v.toNat 6
  rw [b64UrlChar, hmask]
  exact kB64UrlChars_eq (Nat.mod_lt _ (by decide))

/-- A part of a word in front of a part without the bits it occupies. -/
theorem shiftLeft_or {x y k : Nat} (hy : y < 2 ^ k) : x <<< k ||| y = x * 2 ^ k + y := by
  rw [← Nat.shiftLeft_add_eq_or_of_lt hy, Nat.shiftLeft_eq]

theorem toNat_first (a : UInt8) : (a.toUInt32 <<< 16).toNat = a.toNat * 65536 := by
  have ha := a.toNat_lt
  rw [UInt32.toNat_shiftLeft, UInt8.toNat_toUInt32, Nat.shiftLeft_eq]
  exact Nat.mod_eq_of_lt (by simp; omega)

theorem toNat_second (b : UInt8) : (b.toUInt32 <<< 8).toNat = b.toNat * 256 := by
  have hb := b.toNat_lt
  rw [UInt32.toNat_shiftLeft, UInt8.toNat_toUInt32, Nat.shiftLeft_eq]
  exact Nat.mod_eq_of_lt (by simp; omega)

theorem toNat_pair (a b : UInt8) : (a.toUInt32 <<< 16 ||| b.toUInt32 <<< 8).toNat =
    a.toNat * 65536 + b.toNat * 256 := by
  have hb := b.toNat_lt
  have hor := shiftLeft_or (x := a.toNat) (y := b.toNat * 256) (k := 16) (by omega)
  rw [Nat.shiftLeft_eq] at hor
  rw [UInt32.toNat_or, toNat_first, toNat_second]
  exact hor

/-- Three bytes side by side in a word. -/
theorem toNat_block (a b c : UInt8) : (a.toUInt32 <<< 16 ||| b.toUInt32 <<< 8 ||| c.toUInt32).toNat =
    a.toNat * 65536 + b.toNat * 256 + c.toNat := by
  have hc := c.toNat_lt
  have hor := shiftLeft_or (x := a.toNat * 256 + b.toNat) (y := c.toNat) (k := 8) (by omega)
  rw [Nat.shiftLeft_eq] at hor
  have hsum : a.toNat * 65536 + b.toNat * 256 = (a.toNat * 256 + b.toNat) * 2 ^ 8 := by omega
  rw [UInt32.toNat_or, toNat_pair, UInt8.toNat_toUInt32, hsum]
  exact hor

/-- **The encoder is that of the library.** -/
theorem base64UrlEncode_eq (bytes : Bytes) : base64UrlEncode bytes = Base64Url.encode bytes := by
  induction bytes using base64UrlEncode.induct with
  | case1 => rfl
  | case2 a =>
      have ha := a.toNat_lt
      simp only [base64UrlEncode, Base64Url.encode, b64UrlChar_eq, UInt32.toNat_shiftRight, toNat_first,
        Nat.shiftRight_eq_div_pow, UInt32.toNat_ofNat, Nat.reducePow, Nat.reduceMod,
        List.cons.injEq, and_true]
      exact ⟨congrArg _ (by omega), congrArg _ (by omega)⟩
  | case3 a b =>
      have ha := a.toNat_lt
      have hb := b.toNat_lt
      simp only [base64UrlEncode, Base64Url.encode, b64UrlChar_eq, UInt32.toNat_shiftRight, toNat_pair,
        Nat.shiftRight_eq_div_pow, UInt32.toNat_ofNat, Nat.reducePow, Nat.reduceMod,
        List.cons.injEq, and_true]
      exact ⟨congrArg _ (by omega), congrArg _ (by omega), congrArg _ (by omega)⟩
  | case4 a b c bytes ih =>
      have ha := a.toNat_lt
      have hb := b.toNat_lt
      have hc := c.toNat_lt
      simp only [base64UrlEncode, Base64Url.encode, b64UrlChar_eq, UInt32.toNat_shiftRight, toNat_block,
        Nat.shiftRight_eq_div_pow, UInt32.toNat_ofNat, Nat.reducePow, Nat.reduceMod,
        List.cons.injEq, ih, and_true]
      exact ⟨congrArg _ (by omega), congrArg _ (by omega), congrArg _ (by omega), congrArg _ (by omega)⟩

theorem length_base64UrlEncode (bytes : Bytes) :
    (base64UrlEncode bytes).length = (4 * bytes.length + 2) / 3 := by
  induction bytes using base64UrlEncode.induct with
  | case1 => rfl
  | case2 a => simp [base64UrlEncode]
  | case3 a b => simp [base64UrlEncode]
  | case4 a b c bytes ih =>
      simp only [base64UrlEncode, List.length_cons, ih]
      omega

/-! ## The decoder -/

/-- The reverse map has the sextet of each byte, and 0xFF where there is none. -/
theorem kB64UrlReverse_eq_map : kB64UrlReverse = (List.range 256).map fun n =>
    ((Base64Url.sextet? (UInt8.ofNat n)).map UInt8.ofNat).getD 0xFF := by
  decide +kernel

theorem kB64UrlReverse_eq (c : UInt8) :
    kB64UrlReverse.getD c.toNat 0 = ((Base64Url.sextet? c).map UInt8.ofNat).getD 0xFF := by
  have hlt : c.toNat < (List.range 256).length := by
    rw [List.length_range]
    exact c.toNat_lt
  rw [kB64UrlReverse_eq_map, List.getD_eq_getElem?_getD, List.getElem?_map, List.getElem?_eq_getElem hlt,
    List.getElem_range, Option.map_some, Option.getD_some, UInt8.ofNat_toNat]

theorem sextet?_lt {c : UInt8} {n : Nat} (h : Base64Url.sextet? c = some n) : n < 64 := by
  have hall : ∀ n ∈ Base64Url.sextet? c, n < 64 :=
    forall_byte (P := fun c => ∀ n ∈ Base64Url.sextet? c, n < 64) (by decide +kernel) c
  exact hall n h

theorem alphabet_of_sextet {c : UInt8} {n : Nat} (h : Base64Url.sextet? c = some n) :
    Base64Url.alphabet n = c := by
  have hall : ∀ n ∈ Base64Url.sextet? c, Base64Url.alphabet n = c :=
    forall_byte (P := fun c => ∀ n ∈ Base64Url.sextet? c, Base64Url.alphabet n = c) (by decide +kernel) c
  exact hall n h

/-- The characters of the alphabet are those with a sextet. -/
theorem mem_kB64UrlChars_iff (c : UInt8) : c ∈ kB64UrlChars ↔ (Base64Url.sextet? c).isSome := by
  rw [kB64UrlChars_eq_map, List.mem_map]
  constructor
  · rintro ⟨n, hn, rfl⟩
    rw [Base64Url.sextet?_alphabet n (List.mem_range.mp hn)]
    rfl
  · intro h
    obtain ⟨n, hn⟩ := Option.isSome_iff_exists.mp h
    exact ⟨n, List.mem_range.mpr (sextet?_lt hn), alphabet_of_sextet hn⟩

theorem reverse_of_sextet {c : UInt8} {n : Nat} (h : Base64Url.sextet? c = some n) :
    kB64UrlReverse.getD c.toNat 0 = UInt8.ofNat n := by
  rw [kB64UrlReverse_eq, h]
  rfl

theorem toNat_sextet {n : Nat} (h : n < 64) : (UInt8.ofNat n).toNat = n := by
  rw [UInt8.toNat_ofNat']
  omega

theorem sextet_ne {n : Nat} (h : n < 64) : UInt8.ofNat n ≠ 0xFF := by
  intro heq
  have hnat := congrArg UInt8.toNat heq
  rw [toNat_sextet h] at hnat
  have hff : (0xFF : UInt8).toNat = 255 := rfl
  omega

/-- A sextet is shifted into the word. -/
theorem toNat_push (buffer : UInt32) {n : Nat} (h : n < 64) :
    (buffer <<< 6 ||| (UInt8.ofNat n).toUInt32).toNat = (buffer.toNat * 64 + n) % 2 ^ 32 := by
  have hb := buffer.toNat_lt
  have hor := shiftLeft_or (x := buffer.toNat % 2 ^ 26) (y := n) (k := 6) h
  rw [Nat.shiftLeft_eq] at hor
  have hshift : (buffer <<< 6).toNat = buffer.toNat % 2 ^ 26 * 2 ^ 6 := by
    rw [UInt32.toNat_shiftLeft, Nat.shiftLeft_eq]
    simp only [UInt32.toNat_ofNat, Nat.reducePow, Nat.reduceMod]
    omega
  rw [UInt32.toNat_or, hshift, UInt8.toNat_toUInt32, toNat_sextet h, hor]
  omega

/-- The byte on top of the waiting bits. -/
theorem toUInt8_shift (buffer : UInt32) {k : Nat} (h : k < 32) :
    (buffer >>> UInt32.ofNat k &&& 0xFF).toUInt8 = UInt8.ofNat (buffer.toNat / 2 ^ k) := by
  have hk : (UInt32.ofNat k).toNat % 32 = k := by
    rw [UInt32.toNat_ofNat']
    omega
  apply UInt8.toNat_inj.mp
  rw [UInt32.toNat_toUInt8, UInt32.toNat_and, UInt32.toNat_shiftRight, hk, Nat.shiftRight_eq_div_pow,
    UInt8.toNat_ofNat']
  have hmask := Nat.and_two_pow_sub_one_eq_mod (buffer.toNat / 2 ^ k) 8
  have hff : (0xFF : UInt32).toNat = 2 ^ 8 - 1 := rfl
  rw [hff, hmask, Nat.mod_mod]

/-- A byte that lies below the bits that have been lost. -/
theorem mod_div_mod (x : Nat) {k : Nat} (h : k + 8 ≤ 32) :
    x % 2 ^ 32 / 2 ^ k % 2 ^ 8 = x / 2 ^ k % 2 ^ 8 := by
  have hdvd : 2 ^ k * 2 ^ 8 ∣ 2 ^ 32 := by
    rw [← pow_add]
    exact Nat.pow_dvd_pow 2 h
  rw [← Nat.mod_mul_right_div_self, ← Nat.mod_mul_right_div_self, Nat.mod_mod_of_dvd _ hdvd]

/-- **A loop whose word is the number up to wrapping gives the same bytes**, since no more than seven
bits wait in it. -/
theorem base64UrlDecodeLoop_eq (encoded : Bytes) : ∀ (buffer : UInt32) (wide bits : Nat),
    buffer.toNat = wide % 2 ^ 32 → bits < 8 →
      base64UrlDecodeLoop buffer bits encoded = unboundedLoop wide bits encoded := by
  induction encoded with
  | nil => exact fun _ _ _ _ _ => rfl
  | cons c encoded ih =>
      intro buffer wide bits hbuffer hbits
      rw [base64UrlDecodeLoop, unboundedLoop]
      dsimp only
      cases hc : Base64Url.sextet? c with
      | none =>
          have hff : kB64UrlReverse.getD c.toNat 0 = 0xFF := by
            rw [kB64UrlReverse_eq, hc]
            rfl
          rw [if_pos hff, if_pos hff]
      | some n =>
          have hn := sextet?_lt hc
          rw [reverse_of_sextet hc, if_neg (sextet_ne hn), if_neg (sextet_ne hn), toNat_sextet hn]
          -- the buffer overflows, but the bits it loses have been written out
          have hpush : (buffer <<< 6 ||| (UInt8.ofNat n).toUInt32).toNat = (wide * 64 + n) % 2 ^ 32 := by
            rw [toNat_push buffer hn, hbuffer]
            omega
          by_cases hfull : 8 ≤ bits + 6
          · rw [if_pos hfull, if_pos hfull, ih _ _ _ hpush (by omega), toUInt8_shift _ (by omega), hpush]
            have hbyte : UInt8.ofNat ((wide * 64 + n) % 2 ^ 32 / 2 ^ (bits + 6 - 8)) =
                UInt8.ofNat ((wide * 64 + n) / 2 ^ (bits + 6 - 8)) := by
              apply UInt8.toNat_inj.mp
              rw [UInt8.toNat_ofNat', UInt8.toNat_ofNat']
              exact mod_div_mod _ (by omega)
            rw [hbyte]
          · rw [if_neg hfull, if_neg hfull, ih _ _ _ hpush (by omega)]

/-- **The decoder is that of the library**, which has the same word as a number. -/
theorem base64UrlDecodeLoop_library (encoded : Bytes) : ∀ (buffer : UInt32) (bits : Nat), bits < 8 →
    (base64UrlDecodeLoop buffer bits encoded).toOption =
      Base64Url.decodeLoop buffer.toNat bits encoded := by
  induction encoded with
  | nil => exact fun _ _ _ => rfl
  | cons c encoded ih =>
      intro buffer bits hbits
      rw [base64UrlDecodeLoop, Base64Url.decodeLoop]
      dsimp only
      cases hc : Base64Url.sextet? c with
      | none =>
          have hff : kB64UrlReverse.getD c.toNat 0 = 0xFF := by
            rw [kB64UrlReverse_eq, hc]
            rfl
          rw [if_pos hff]
          rfl
      | some n =>
          have hn := sextet?_lt hc
          rw [reverse_of_sextet hc, if_neg (sextet_ne hn)]
          by_cases hfull : 8 ≤ bits + 6
          · have hbits' : bits + 6 - 8 = bits - 2 := by omega
            rw [if_pos hfull]
            dsimp only
            rw [if_pos hfull, ← toNat_push buffer hn, hbits', ← ih _ _ (by omega),
              toUInt8_shift _ (by omega)]
            cases base64UrlDecodeLoop (buffer <<< 6 ||| (UInt8.ofNat n).toUInt32) (bits - 2) encoded <;> rfl
          · rw [if_neg hfull]
            dsimp only
            rw [if_neg hfull, ← toNat_push buffer hn, ← ih _ _ (by omega)]

theorem base64UrlDecode_eq (encoded : Bytes) :
    (base64UrlDecode encoded).toOption = Base64Url.decode encoded :=
  base64UrlDecodeLoop_library _ 0 0 (by omega)

/-- The loop throws at the first character outside the alphabet, and there is none when it ends. -/
theorem unboundedLoop_error (encoded : Bytes) : ∀ wide bits : Nat,
    (∃ e, unboundedLoop wide bits encoded = .error e) ↔ ∃ c ∈ encoded, c ∉ kB64UrlChars := by
  induction encoded with
  | nil =>
      intro wide bits
      simp only [unboundedLoop, List.not_mem_nil, false_and, exists_false, iff_false, not_exists]
      exact fun e h => nomatch h
  | cons c encoded ih =>
      intro wide bits
      rw [unboundedLoop]
      dsimp only
      simp only [List.mem_cons, exists_eq_or_imp]
      cases hc : Base64Url.sextet? c with
      -- a byte outside of the alphabet, which the table marks with 0xFF
      | none =>
          have hff : kB64UrlReverse.getD c.toNat 0 = 0xFF := by
            rw [kB64UrlReverse_eq, hc]
            rfl
          rw [if_pos hff]
          refine iff_of_true ⟨_, rfl⟩ (Or.inl ?_)
          rw [mem_kB64UrlChars_iff, hc]
          simp
      | some n =>
          have hn := sextet?_lt hc
          have hmem : c ∈ kB64UrlChars := by rw [mem_kB64UrlChars_iff, hc]; rfl
          rw [reverse_of_sextet hc, if_neg (sextet_ne hn)]
          simp only [hmem, not_true_eq_false, false_or]
          by_cases hfull : 8 ≤ bits + 6
          · rw [if_pos hfull, ← ih (wide * 64 + (UInt8.ofNat n).toNat) (bits + 6 - 8)]
            cases unboundedLoop (wide * 64 + (UInt8.ofNat n).toNat) (bits + 6 - 8) encoded with
            | ok out => exact ⟨fun ⟨_, h⟩ => (nomatch h), fun ⟨_, h⟩ => (nomatch h)⟩
            | error e => exact ⟨fun _ => ⟨e, rfl⟩, fun _ => ⟨e, rfl⟩⟩
          · rw [if_neg hfull]
            exact ih _ _

/-- **The codec**: decoding undoes encoding, the text is url-safe and as short as it can be, the word of
the decoder loses nothing by wrapping, and only foreign characters in front of the padding are refused. -/
theorem base64Url_codec :
    (∀ bytes, base64UrlDecode (base64UrlEncode bytes) = .ok bytes) ∧
    ((∀ bytes, ∀ c ∈ base64UrlEncode bytes, c ∈ kB64UrlChars) ∧
      kB64UrlChars.length = 64 ∧ kB64UrlChars.Nodup ∧ 0x2E ∉ kB64UrlChars ∧ 0x3D ∉ kB64UrlChars) ∧
    (∀ bytes, (base64UrlEncode bytes).length = (4 * bytes.length + 2) / 3) ∧
    (∀ encoded, base64UrlDecode encoded = unboundedLoop 0 0 (Base64Url.stripPadding encoded)) ∧
    ∀ encoded, (∃ e, base64UrlDecode encoded = .error e) ↔
      ∃ c ∈ Base64Url.stripPadding encoded, c ∉ kB64UrlChars := by
  have hwide : ∀ encoded, base64UrlDecode encoded =
      unboundedLoop 0 0 (Base64Url.stripPadding encoded) := fun encoded =>
    base64UrlDecodeLoop_eq _ 0 0 0 rfl (by decide)
  refine ⟨fun bytes => ?_, ⟨fun bytes c hc => ?_, by decide, by decide, by decide, by decide⟩,
    length_base64UrlEncode, hwide, fun encoded => ?_⟩
  · have hlibrary := base64UrlDecode_eq (base64UrlEncode bytes)
    rw [base64UrlEncode_eq, Base64Url.decode_encode] at hlibrary
    rw [base64UrlEncode_eq]
    cases hdecoded : base64UrlDecode (Base64Url.encode bytes) with
    | ok out =>
        rw [hdecoded] at hlibrary
        rw [Option.some.inj hlibrary]
    | error e =>
        rw [hdecoded] at hlibrary
        cases hlibrary
  · rw [base64UrlEncode_eq] at hc
    obtain ⟨n, hn, rfl⟩ := Base64Url.mem_encode c hc
    rw [mem_kB64UrlChars_iff, Base64Url.sextet?_alphabet n hn]
    rfl
  · rw [hwide]
    exact unboundedLoop_error _ 0 0

end Harbor.Auth
