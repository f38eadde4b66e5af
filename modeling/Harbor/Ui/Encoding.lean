import Harbor.Lib.Base64

set_option autoImplicit false

/-! # The base64 of the UI

`DecodeBase64` reads the headers that carry names and parameter values to `/ddb/run`. Its table ends in
`"+_"`: neither the standard alphabet nor the URL-safe one, and a byte that is in neither place of the table
counts as 0. So a value in the standard encoding arrives with an `'A'` for every `'/'`
(`decodeBase64_encode`).
-/

namespace Harbor.Ui.Encoding

open Harbor.Base64 (alphabet encode pad)

/-! ## The function -/

def kEncodingTable : Bytes := lit "ABCDEFGHIJKLMNOPQRSTUVWXYZabcdefghijklmnopqrstuvwxyz0123456789+_"

/-- `BuildDecodingTable`: what `resize` puts there stays for the bytes that are not in the alphabet. -/
def kDecodingTable : List UInt8 :=
  (List.range 64).foldl (fun table i => table.set (kEncodingTable.getD i 0).toNat (UInt8.ofNat i))
    (List.replicate 256 0)

/-- One character of the input. -/
def sextet (b : UInt8) : UInt32 :=
  if b = pad then 0 else (kDecodingTable.getD b.toNat 0).toUInt32

/-- `decoded_data[j++] = …`, as long as `j < output_length`. -/
def put (outputLength : Nat) (decoded : Bytes) (v : UInt32) : Bytes :=
  if decoded.length < outputLength then decoded ++ [(v &&& 0xFF).toUInt8] else decoded

/-- The loop over the groups of four; `decoded` is what stands before `j`. -/
def decodeLoop (outputLength : Nat) (decoded : Bytes) : Bytes → Bytes
  | a :: b :: c :: d :: data =>
      let triple := (sextet a <<< 18) + (sextet b <<< 12) + (sextet c <<< 6) + sextet d
      let decoded := put outputLength decoded (triple >>> 16)
      let decoded := put outputLength decoded (triple >>> 8)
      let decoded := put outputLength decoded triple
      decodeLoop outputLength decoded data
  | _ => decoded

/-- `DecodeBase64`. -/
def decodeBase64 (data : Bytes) : Bytes :=
  if data.length < 4 ∨ data.length % 4 ≠ 0 then []
  else
    let outputLength := data.length / 4 * 3
    let outputLength :=
      if data[data.length - 1]? = some pad then outputLength - 1 else outputLength
    let outputLength :=
      if data[data.length - 2]? = some pad then outputLength - 1 else outputLength
    decodeLoop outputLength [] data

/-! ## The words -/

/-- The sextet as a number. -/
def value (b : UInt8) : Nat := (kDecodingTable.getD b.toNat 0).toNat

theorem lt_of_mem_kDecodingTable : ∀ v ∈ kDecodingTable, v.toNat < 64 := by
  decide +kernel

theorem value_lt (b : UInt8) : value b < 64 := by
  rw [value, List.getD_eq_getElem?_getD]
  rcases hget : kDecodingTable[b.toNat]? with _ | v
  · exact Nat.succ_pos 63
  · exact lt_of_mem_kDecodingTable v (List.mem_of_getElem? hget)

theorem sextet_toNat {b : UInt8} (hb : b ≠ pad) : (sextet b).toNat = value b := by
  rw [sextet, if_neg hb, UInt8.toNat_toUInt32, value]

theorem sextet_toNat_lt (b : UInt8) : (sextet b).toNat < 64 := by
  by_cases hb : b = pad
  · rw [sextet, if_pos hb]
    decide
  · rw [sextet_toNat hb]
    exact value_lt b

/-- The four sextets side by side in one word. -/
theorem triple_toNat (a b c d : UInt8) :
    ((sextet a <<< 18) + (sextet b <<< 12) + (sextet c <<< 6) + sextet d).toNat =
      (sextet a).toNat * 2 ^ 18 + (sextet b).toNat * 2 ^ 12 + (sextet c).toNat * 2 ^ 6 +
        (sextet d).toNat := by
  have ha := sextet_toNat_lt a
  have hb := sextet_toNat_lt b
  have hc := sextet_toNat_lt c
  have hd := sextet_toNat_lt d
  simp only [UInt32.toNat_add, UInt32.toNat_shiftLeft, Nat.shiftLeft_eq, UInt32.reduceToNat,
    Nat.reduceMod, Nat.reducePow]
  omega

theorem byte_toNat (v : UInt32) : (v &&& 0xFF).toUInt8.toNat = v.toNat % 256 := by
  have hand : v.toNat &&& 255 = v.toNat % 256 := Nat.and_two_pow_sub_one_eq_mod v.toNat 8
  simp only [UInt32.toNat_toUInt8, UInt32.toNat_and, UInt32.reduceToNat, hand]
  omega

/-! ## One group -/

/-- The bytes of three sextets and a fourth. -/
theorem group_bytes {v : UInt32} {a b c d : Nat} (hc : c < 64) (hd : d < 64)
    (hv : v.toNat = a * 2 ^ 18 + b * 2 ^ 12 + c * 2 ^ 6 + d) :
    (v >>> 16 &&& 0xFF).toUInt8 = UInt8.ofNat (a * 4 + b / 16) ∧
      (v >>> 8 &&& 0xFF).toUInt8 = UInt8.ofNat (b % 16 * 16 + c / 4) ∧
      (v &&& 0xFF).toUInt8 = UInt8.ofNat (c % 4 * 64 + d) := by
  refine ⟨?_, ?_, ?_⟩
  · apply UInt8.toNat_inj.mp
    rw [byte_toNat, UInt32.toNat_shiftRight, Nat.shiftRight_eq_div_pow, hv, UInt8.toNat_ofNat']
    simp only [UInt32.reduceToNat, Nat.reduceMod, Nat.reducePow]
    omega
  · apply UInt8.toNat_inj.mp
    rw [byte_toNat, UInt32.toNat_shiftRight, Nat.shiftRight_eq_div_pow, hv, UInt8.toNat_ofNat']
    simp only [UInt32.reduceToNat, Nat.reduceMod, Nat.reducePow]
    omega
  · apply UInt8.toNat_inj.mp
    rw [byte_toNat, hv, UInt8.toNat_ofNat']
    omega

theorem put_of_lt {outputLength : Nat} (decoded : Bytes) (v : UInt32) (h : decoded.length < outputLength) :
    put outputLength decoded v = decoded ++ [(v &&& 0xFF).toUInt8] :=
  if_pos h

theorem put_of_le {outputLength : Nat} (decoded : Bytes) (v : UInt32) (h : outputLength ≤ decoded.length) :
    put outputLength decoded v = decoded :=
  if_neg (Nat.not_lt.mpr h)

/-- A group of which one byte is wanted. -/
theorem decodeLoop_one (decoded : Bytes) (a b c d : UInt8) :
    decodeLoop (decoded.length + 1) decoded [a, b, c, d] =
      decoded ++ [UInt8.ofNat ((sextet a).toNat * 4 + (sextet b).toNat / 16)] := by
  obtain ⟨h1, -, -⟩ := group_bytes (sextet_toNat_lt c) (sextet_toNat_lt d) (triple_toNat a b c d)
  simp only [decodeLoop]
  rw [put_of_lt decoded _ (by omega), h1, put_of_le (decoded ++ [_]) _ (by simp),
    put_of_le (decoded ++ [_]) _ (by simp)]

theorem decodeLoop_two (decoded : Bytes) (a b c d : UInt8) :
    decodeLoop (decoded.length + 2) decoded [a, b, c, d] =
      decoded ++ [UInt8.ofNat ((sextet a).toNat * 4 + (sextet b).toNat / 16),
        UInt8.ofNat ((sextet b).toNat % 16 * 16 + (sextet c).toNat / 4)] := by
  obtain ⟨h1, h2, -⟩ := group_bytes (sextet_toNat_lt c) (sextet_toNat_lt d) (triple_toNat a b c d)
  simp only [decodeLoop]
  rw [put_of_lt decoded _ (by omega), h1, put_of_lt (decoded ++ [_]) _ (by simp), h2,
    put_of_le (decoded ++ [_] ++ [_]) _ (by simp)]
  simp

theorem decodeLoop_three (n : Nat) (decoded : Bytes) (a b c d : UInt8) (data : Bytes) :
    decodeLoop (decoded.length + 3 + n) decoded (a :: b :: c :: d :: data) =
      decodeLoop (decoded.length + 3 + n)
        (decoded ++ [UInt8.ofNat ((sextet a).toNat * 4 + (sextet b).toNat / 16),
          UInt8.ofNat ((sextet b).toNat % 16 * 16 + (sextet c).toNat / 4),
          UInt8.ofNat ((sextet c).toNat % 4 * 64 + (sextet d).toNat)]) data := by
  obtain ⟨h1, h2, h3⟩ := group_bytes (sextet_toNat_lt c) (sextet_toNat_lt d) (triple_toNat a b c d)
  rw [decodeLoop, put_of_lt decoded _ (by omega), h1, put_of_lt (decoded ++ [_]) _ (by simp; omega), h2,
    put_of_lt (decoded ++ [_] ++ [_]) _ (by simp; omega), h3]
  simp

/-! ## A whole text -/

/-- A way to spell base64: it leaves the padding and takes no character to it. -/
structure Spelling (h : UInt8 → UInt8) : Prop where
  pad : h pad = pad
  ne_pad : ∀ n < 64, h (alphabet n) ≠ Base64.pad

/-- The standard character that has the sextet the table gives to `h b`. -/
def standard (h : UInt8 → UInt8) (b : UInt8) : UInt8 :=
  if b = pad then pad else alphabet (value (h b))

theorem sextet_standard {h : UInt8 → UInt8} {n : Nat} (hn : n < 64) :
    Base64.sextet (standard h (alphabet n)) = value (h (alphabet n)) := by
  rw [standard, if_neg (Base64.alphabet_ne_pad n hn), Base64.sextet_alphabet _ (value_lt _)]

theorem standard_ne_pad {h : UInt8 → UInt8} {n : Nat} (hn : n < 64) :
    standard h (alphabet n) ≠ pad := by
  rw [standard, if_neg (Base64.alphabet_ne_pad n hn)]
  exact Base64.alphabet_ne_pad _ (value_lt _)

theorem standard_pad (h : UInt8 → UInt8) : standard h pad = pad := if_pos rfl

/-- The loop over an encoded text, with room for its bytes. -/
theorem decodeLoop_encode {h : UInt8 → UInt8} (hh : Spelling h) (x decoded : Bytes) :
    decodeLoop (decoded.length + x.length) decoded ((encode x).map h) =
      decoded ++ Base64.decode ((encode x).map (standard h)) := by
  induction x using Base64.groups_induction generalizing decoded with
  | nil => simp [encode, decodeLoop, Base64.decode]
  | one a =>
      have ha := a.toNat_lt
      have h1 : a.toNat / 4 < 64 := by omega
      have h2 : a.toNat % 4 * 16 < 64 := by omega
      simp only [encode, List.map_cons, List.map_nil, hh.pad, standard_pad, List.length_cons,
        List.length_nil, Nat.zero_add, decodeLoop_one, sextet_toNat (hh.ne_pad _ h1),
        sextet_toNat (hh.ne_pad _ h2), Base64.decode, if_true, sextet_standard h1, sextet_standard h2]
  | two a b =>
      have ha := a.toNat_lt
      have hb := b.toNat_lt
      have h1 : a.toNat / 4 < 64 := by omega
      have h2 : a.toNat % 4 * 16 + b.toNat / 16 < 64 := by omega
      have h3 : b.toNat % 16 * 4 < 64 := by omega
      simp only [encode, List.map_cons, List.map_nil, hh.pad, standard_pad, List.length_cons,
        List.length_nil, Nat.reduceAdd, decodeLoop_two, sextet_toNat (hh.ne_pad _ h1),
        sextet_toNat (hh.ne_pad _ h2), sextet_toNat (hh.ne_pad _ h3), Base64.decode, if_true,
        if_neg (standard_ne_pad h3), sextet_standard h1, sextet_standard h2, sextet_standard h3]
  | three a b c x ih =>
      have ha := a.toNat_lt
      have hb := b.toNat_lt
      have hc := c.toNat_lt
      have h1 : a.toNat / 4 < 64 := by omega
      have h2 : a.toNat % 4 * 16 + b.toNat / 16 < 64 := by omega
      have h3 : b.toNat % 16 * 4 + c.toNat / 64 < 64 := by omega
      have h4 : c.toNat % 64 < 64 := by omega
      have hlength : decoded.length + (a :: b :: c :: x).length = decoded.length + 3 + x.length := by
        simp only [List.length_cons]
        omega
      rw [hlength]
      simp only [encode, List.map_cons, decodeLoop_three, sextet_toNat (hh.ne_pad _ h1),
        sextet_toNat (hh.ne_pad _ h2), sextet_toNat (hh.ne_pad _ h3), sextet_toNat (hh.ne_pad _ h4),
        Base64.decode, if_neg (standard_ne_pad h3), if_neg (standard_ne_pad h4), sextet_standard h1,
        sextet_standard h2, sextet_standard h3, sextet_standard h4]
      have hrest := ih (decoded ++ [UInt8.ofNat (value (h (alphabet (a.toNat / 4))) * 4 +
          value (h (alphabet (a.toNat % 4 * 16 + b.toNat / 16))) / 16),
        UInt8.ofNat (value (h (alphabet (a.toNat % 4 * 16 + b.toNat / 16))) % 16 * 16 +
          value (h (alphabet (b.toNat % 16 * 4 + c.toNat / 64))) / 4),
        UInt8.ofNat (value (h (alphabet (b.toNat % 16 * 4 + c.toNat / 64))) % 4 * 64 +
          value (h (alphabet (c.toNat % 64))))])
      simp only [List.length_append, List.length_cons, List.length_nil, Nat.reduceAdd,
        List.append_assoc, List.cons_append, List.nil_append] at hrest
      rw [hrest]

/-- The padding tells how long the text is. -/
theorem getElem?_encode {h : UInt8 → UInt8} (hh : Spelling h) {x : Bytes} (hx : x ≠ []) :
    (((encode x).map h)[((encode x).map h).length - 1]? = some pad ↔ x.length % 3 ≠ 0) ∧
      (((encode x).map h)[((encode x).map h).length - 2]? = some pad ↔ x.length % 3 = 1) := by
  induction x using Base64.groups_induction with
  | nil => exact absurd rfl hx
  | one a => simp [encode, hh.pad]
  | two a b =>
      have hb := b.toNat_lt
      simp [encode, hh.pad, hh.ne_pad (b.toNat % 16 * 4) (by omega)]
  | three a b c x ih =>
      have hb := b.toNat_lt
      have hc := c.toNat_lt
      cases x with
      | nil =>
          simp [encode, hh.ne_pad (b.toNat % 16 * 4 + c.toNat / 64) (by omega),
            hh.ne_pad (c.toNat % 64) (by omega)]
      | cons d x =>
          have hrest := ih (List.cons_ne_nil d x)
          have hlength := Base64.length_encode (d :: x)
          simp only [List.length_cons] at hlength
          obtain ⟨m, hm⟩ : ∃ m, ((encode (d :: x)).map h).length = m + 2 :=
            ⟨(encode (d :: x)).length - 2, by rw [List.length_map]; omega⟩
          have hmod : (a :: b :: c :: d :: x).length % 3 = (d :: x).length % 3 := by
            simp only [List.length_cons]
            omega
          rw [hm] at hrest
          rw [hmod, encode, List.map_cons, List.map_cons, List.map_cons, List.map_cons, List.length_cons,
            List.length_cons, List.length_cons, List.length_cons, hm]
          exact hrest

/-- Any spelling is read as the standard text with the standard characters of the table's sextets. -/
theorem decodeBase64_map {h : UInt8 → UInt8} (hh : Spelling h) (x : Bytes) :
    decodeBase64 ((encode x).map h) = Base64.decode ((encode x).map (standard h)) := by
  rcases eq_or_ne x [] with rfl | hx
  · simp [encode, decodeBase64, Base64.decode]
  · have hlength := Base64.length_encode x
    have hpos := List.length_pos_of_ne_nil hx
    obtain ⟨hlast, hlast'⟩ := getElem?_encode hh hx
    have hroom : (let outputLength := ((encode x).map h).length / 4 * 3
        let outputLength := if x.length % 3 ≠ 0 then outputLength - 1 else outputLength
        if x.length % 3 = 1 then outputLength - 1 else outputLength) = ([] : Bytes).length + x.length := by
      rw [List.length_map, hlength, List.length_nil]
      dsimp only
      split_ifs <;> omega
    have hlong : ¬(((encode x).map h).length < 4 ∨ ((encode x).map h).length % 4 ≠ 0) := by
      rw [List.length_map, hlength]
      omega
    rw [decodeBase64, if_neg hlong]
    simp only [hlast, hlast']
    rw [hroom, decodeLoop_encode hh, List.nil_append]

/-! ## The two alphabets -/

/-- The standard character in the alphabet of the table: the last one is `'_'` there. -/
def own (b : UInt8) : UInt8 := if b = 0x2F then 0x5F else b

def slashToA (b : UInt8) : UInt8 := if b = 0x2F then 0x41 else b

theorem spelling_own : Spelling own where
  pad := by decide
  ne_pad := by decide

theorem spelling_id : Spelling id where
  pad := rfl
  ne_pad := Base64.alphabet_ne_pad

theorem standard_own : ∀ n < 64, standard own (alphabet n) = alphabet n := by
  decide +kernel

theorem standard_id : ∀ n < 64, standard id (alphabet n) = slashToA (alphabet n) := by
  decide +kernel

/-- A text in the alphabet of the table is read as it was meant. -/
theorem decodeBase64_own (x : Bytes) : decodeBase64 ((encode x).map own) = x := by
  have hall : ∀ b ∈ encode x, standard own b = id b :=
    Base64.encode_forall (P := fun b => standard own b = id b) standard_own (standard_pad own) x
  have hmap : (encode x).map (standard own) = encode x := (List.map_congr_left hall).trans (List.map_id _)
  rw [decodeBase64_map spelling_own, hmap, Base64.decode_encode]

/-- A text in the standard alphabet is read as if it had an `'A'` for every `'/'`. -/
theorem decodeBase64_standard (x : Bytes) :
    decodeBase64 (encode x) = Base64.decode ((encode x).map slashToA) := by
  have hall : ∀ b ∈ encode x, standard id b = slashToA b :=
    Base64.encode_forall (P := fun b => standard id b = slashToA b) standard_id (standard_pad id) x
  have hmap : (encode x).map (standard id) = (encode x).map slashToA := List.map_congr_left hall
  have hid := decodeBase64_map spelling_id x
  rwa [List.map_id, hmap] at hid

/-- The sextet 63 has become 0. -/
theorem sextet_slashToA : ∀ n < 64, Base64.sextet (slashToA (alphabet n)) = n ∨
    (Base64.sextet (slashToA (alphabet n)) = 0 ∧ n = 63) := by
  decide

theorem alphabet_ne_slash : ∀ n < 64, Base64.sextet (slashToA (alphabet n)) = n → 0x2F ≠ alphabet n := by
  decide

theorem slashToA_ne_pad : ∀ n < 64, slashToA (alphabet n) ≠ pad := by
  decide

theorem slashToA_pad : slashToA pad = pad := by
  decide

theorem decode_slashToA {x : Bytes} (h : Base64.decode ((encode x).map slashToA) = x) :
    0x2F ∉ encode x := by
  induction x using Base64.groups_induction with
  | nil => simp [encode]
  | one a =>
      have ha := a.toNat_lt
      have h1 := sextet_slashToA (a.toNat / 4) (by omega)
      have h2 := sextet_slashToA (a.toNat % 4 * 16) (by omega)
      simp only [encode, List.map_cons, List.map_nil, slashToA_pad, Base64.decode, if_true, List.cons.injEq,
        and_true] at h
      simp only [← UInt8.toNat_inj, UInt8.toNat_ofNat'] at h
      have h1' := alphabet_ne_slash (a.toNat / 4) (by omega) (by omega)
      have h2' := alphabet_ne_slash (a.toNat % 4 * 16) (by omega) (by omega)
      simp [encode, h1', h2', pad]
  | two a b =>
      have ha := a.toNat_lt
      have hb := b.toNat_lt
      have h1 := sextet_slashToA (a.toNat / 4) (by omega)
      have h2 := sextet_slashToA (a.toNat % 4 * 16 + b.toNat / 16) (by omega)
      have h3 := sextet_slashToA (b.toNat % 16 * 4) (by omega)
      simp only [encode, List.map_cons, List.map_nil, slashToA_pad, Base64.decode, if_true,
        if_neg (slashToA_ne_pad (b.toNat % 16 * 4) (by omega)), List.cons.injEq, and_true] at h
      simp only [← UInt8.toNat_inj, UInt8.toNat_ofNat'] at h
      obtain ⟨hfirst, hsecond⟩ := h
      have h1' := alphabet_ne_slash (a.toNat / 4) (by omega) (by omega)
      have h2' := alphabet_ne_slash (a.toNat % 4 * 16 + b.toNat / 16) (by omega) (by omega)
      have h3' := alphabet_ne_slash (b.toNat % 16 * 4) (by omega) (by omega)
      simp [encode, h1', h2', h3', pad]
  | three a b c x ih =>
      have ha := a.toNat_lt
      have hb := b.toNat_lt
      have hc := c.toNat_lt
      have h1 := sextet_slashToA (a.toNat / 4) (by omega)
      have h2 := sextet_slashToA (a.toNat % 4 * 16 + b.toNat / 16) (by omega)
      have h3 := sextet_slashToA (b.toNat % 16 * 4 + c.toNat / 64) (by omega)
      have h4 := sextet_slashToA (c.toNat % 64) (by omega)
      simp only [encode, List.map_cons, Base64.decode,
        if_neg (slashToA_ne_pad (b.toNat % 16 * 4 + c.toNat / 64) (by omega)),
        if_neg (slashToA_ne_pad (c.toNat % 64) (by omega)), List.cons.injEq] at h
      simp only [← UInt8.toNat_inj, UInt8.toNat_ofNat'] at h
      obtain ⟨hfirst, hsecond, hthird, hrest⟩ := h
      -- a sextet only gets smaller, so where the bytes agree none has been changed
      have h1' := alphabet_ne_slash (a.toNat / 4) (by omega) (by omega)
      have h2' := alphabet_ne_slash (a.toNat % 4 * 16 + b.toNat / 16) (by omega) (by omega)
      have h3' := alphabet_ne_slash (b.toNat % 16 * 4 + c.toNat / 64) (by omega) (by omega)
      have h4' := alphabet_ne_slash (c.toNat % 64) (by omega) (by omega)
      simp [encode, h1', h2', h3', h4', ih hrest]

theorem map_own {s : Bytes} (h : 0x2F ∉ s) : s.map own = s := by
  have hall : ∀ b ∈ s, own b = id b := by
    intro b hb
    rw [own, if_neg (ne_of_mem_of_not_mem hb h)]
    rfl
  exact (List.map_congr_left hall).trans (List.map_id s)

theorem not_mem_map_own (s : Bytes) : 0x2F ∉ s.map own := by
  intro h
  obtain ⟨b, -, hb⟩ := List.mem_map.mp h
  by_cases hslash : b = 0x2F
  · rw [hslash] at hb
    exact absurd hb (by decide)
  · rw [own, if_neg hslash] at hb
    exact hslash hb

theorem decodeBase64_encode (x : Bytes) : decodeBase64 (encode x) = x ↔ 0x2F ∉ encode x := by
  constructor
  · intro h
    rw [decodeBase64_standard] at h
    exact decode_slashToA h
  · intro h
    calc decodeBase64 (encode x) = decodeBase64 ((encode x).map own) := by rw [map_own h]
      _ = x := decodeBase64_own x

/-! ## The parameters of a run -/

/-- The header of a parameter. -/
def parameterName (i : Nat) : Bytes := lit "X-DuckDB-UI-Parameter-Value-" ++ Bytes.decNat i

/-- What `DoHandleRun` collects in `parameter_values`; `header` is `get_header_value`. -/
def parameterValues (header : Bytes → Bytes) (parameterCount : Int) : List Bytes :=
  (List.range parameterCount.toNat).map fun i => decodeBase64 (header (parameterName i))

/-- **The alphabet of the table is the one that arrives.** Where each header is its value in the standard
alphabet or in that of the table, the parameters are the values exactly when the headers are in that of the
table. -/
theorem parameterValues_eq_iff {header : Bytes → Bytes} {values : List Bytes}
    (hheader : ∀ i value, values[i]? = some value →
      header (parameterName i) = encode value ∨ header (parameterName i) = (encode value).map own) :
    parameterValues header values.length = values ↔
      ∀ i value, values[i]? = some value → header (parameterName i) = (encode value).map own := by
  -- the one value
  have hone : ∀ i value, values[i]? = some value →
      (decodeBase64 (header (parameterName i)) = value ↔
        header (parameterName i) = (encode value).map own) := by
    intro i value hvalue
    constructor
    · intro hdecode
      rcases hheader i value hvalue with hstandard | hown
      · rw [hstandard] at hdecode ⊢
        exact (map_own ((decodeBase64_encode value).mp hdecode)).symm
      · exact hown
    · intro hown
      rw [hown, decodeBase64_own]
  have hget : ∀ i, (parameterValues header values.length)[i]? =
      values[i]?.map fun _ => decodeBase64 (header (parameterName i)) := by
    intro i
    rcases Nat.lt_or_ge i values.length with hi | hi
    · simp [parameterValues, hi]
    · simp [parameterValues, hi]
  constructor
  · intro heq i value hvalue
    have hi := hget i
    rw [heq, hvalue, Option.map_some, Option.some.injEq] at hi
    exact (hone i value hvalue).mp hi.symm
  · intro hown
    apply List.ext_getElem?
    intro i
    rw [hget i]
    cases hvalue : values[i]? with
    | none => rfl
    | some value => rw [Option.map_some, (hone i value hvalue).mpr (hown i value hvalue)]

/-- `"a"` in the standard alphabet, and `"a??"`, which has a sextet 63, in that of the table. -/
def twoHeaders (name : Bytes) : Bytes :=
  if name = parameterName 0 then lit "YQ==" else lit "YT8_"

theorem parameterValues_eq_iff_two : parameterValues twoHeaders 2 = [lit "a", lit "a??"] := by
  have hown : ∀ i value, [lit "a", lit "a??"][i]? = some value →
      twoHeaders (parameterName i) = (encode value).map own := by
    intro i value hvalue
    match i, hvalue with
    | 0, hvalue =>
        cases hvalue
        rfl
    | 1, hvalue =>
        cases hvalue
        rfl
  exact (parameterValues_eq_iff fun i value hvalue => .inr (hown i value hvalue)).mpr hown

end Harbor.Ui.Encoding
