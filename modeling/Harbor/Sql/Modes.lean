import Harbor.Sql.DecodeBudget

set_option autoImplicit false

/-! # One parameter, bare and in a wrapper

A list of parameters has one element, a value or the value in a typed wrapper. Decoding it is one call of
`DecodeOne`, for the value at the expected type or at the type that the wrapper names, and a look at what
stands behind.
-/

namespace Harbor.ParamDecoder

open Bytes Json

/-- A JSON string that `ParseString` reads as a whole. -/
def IsStringText (t s : Bytes) : Prop := ∃ p, parseString (.start t) = .ok (s, ⟨p, []⟩)

/-- A text that `ParseRawValue` reads as one whole value. -/
def IsValueText (J : Bytes) : Prop := ∃ c, parseRawValue (.start J) = .ok (J, c)

/-- `{"type": <type>, "value": <value>}` -/
def typedWrapper (typeJson J : Bytes) : Bytes :=
  lit "\x7b\"type\": " ++ typeJson ++ lit ", \"value\": " ++ J ++ [0x7D]

theorem IsStringText.reads {t s : Bytes} (h : IsStringText t s) (p : Nat) (r : Bytes) :
    ∃ q, parseString ⟨p, t ++ r⟩ = .ok (s, ⟨q, r⟩) := by
  obtain ⟨q, hq⟩ := h
  obtain ⟨m, -, hm, hall⟩ := reads_parseString 0 t s _ hq
  obtain rfl : t = m := hm.trans (List.append_nil m)
  exact hall p r trivial

/-- A value begins with its first byte and ends with its last. -/
theorem IsValueText.head {J : Bytes} (h : IsValueText J) : ∃ b m, J = b :: m ∧ isWs b = false := by
  obtain ⟨c, hc⟩ := h
  obtain ⟨w, b, m, -, hJ, hb, -, -⟩ := parseRawValue_eq_ok hc
  exact ⟨b, m, hJ, hb⟩

theorem IsValueText.reads {J : Bytes} (h : IsValueText J) (p : Nat) {r : Bytes} (hr : Ended r) :
    parseRawValue ⟨p, J ++ r⟩ = .ok (J, ⟨p + J.length, r⟩) := by
  obtain ⟨c, hc⟩ := h
  obtain ⟨w, b, m, -, rfl, hb, -, hall⟩ := parseRawValue_eq_ok hc
  exact parseRawValue_of_scan hb (hall r hr) p

instance (J : Bytes) : Decidable (IsValueText J) :=
  decidable_of_iff ((parseRawValue (.start J)).toOption.map Prod.fst = some J) (by
    rw [Option.map_eq_some_iff]
    constructor
    · rintro ⟨⟨raw, c⟩, hread, rfl⟩
      exact ⟨c, toOption_eq_some.mp hread⟩
    · rintro ⟨c, hc⟩
      exact ⟨(J, c), toOption_eq_some.mpr hc, rfl⟩)

theorem isStringText_plain {s : Bytes} (hs : ∀ b ∈ s, b ≠ 0x22 ∧ b ≠ 0x5C) :
    IsStringText (0x22 :: s ++ [0x22]) s := by
  have hread : readChars (s ++ [0x22]) = .ok (s, []) := by
    rw [readChars_plains hs, readChars_quote, Except.map, List.append_nil]
  have hstring := parseString_body hread 0
  rw [List.append_nil] at hstring
  exact ⟨_, hstring⟩

/-! ## What a wrapper names -/

/-- A member of a wrapper from behind its key on. -/
theorem wrapperMember_key {key : Bytes} (hkey : ∀ b ∈ key, b ≠ 0x22 ∧ b ≠ 0x5C) (p : Nat) (r : Bytes) :
    ∃ q, parseString ⟨p, 0x22 :: key ++ 0x22 :: 0x3A :: r⟩ = .ok (key, ⟨q, 0x3A :: r⟩) ∧
      consumeChar 0x3A ⟨q, 0x3A :: r⟩ = .ok ⟨q + 1, r⟩ := by
  obtain ⟨q, hq⟩ := (isStringText_plain hkey).reads p (0x3A :: r)
  have hcolon := consumeChar_blank (b := 0x3A) (w := []) (by decide) (by decide) q r
  refine ⟨q, ?_, hcolon⟩
  have hshape : 0x22 :: key ++ 0x22 :: 0x3A :: r = 0x22 :: key ++ [0x22] ++ 0x3A :: r := by simp
  rw [hshape]
  exact hq

theorem isBlank_space : IsBlank [0x20] := by decide

theorem wrapperMember_type {typeJson ts : Bytes} (h : IsStringText typeJson ts) (w : Wrapper) (p : Nat)
    (r : Bytes) :
    ∃ q, wrapperMember w ⟨p, 0x22 :: lit "type" ++ 0x22 :: 0x3A :: ([0x20] ++ (typeJson ++ r))⟩ =
      .ok ({ w with type := some ts }, ⟨q, r⟩) := by
  obtain ⟨q₁, hkey, hcolon⟩ := @wrapperMember_key (lit "type") (by decide) p ([0x20] ++ (typeJson ++ r))
  obtain ⟨q₂, hq₂⟩ := h.reads (q₁ + 2) r
  have hvalue := (skips_parseString.blank isBlank_space (q₁ + 1) (typeJson ++ r)).trans hq₂
  refine ⟨q₂, bind_eq_ok.mpr ⟨_, hkey, bind_eq_ok.mpr ⟨_, hcolon, ?_⟩⟩⟩
  rw [if_pos rfl]
  exact bind_eq_ok.mpr ⟨_, hvalue, rfl⟩

theorem wrapperMember_value {J : Bytes} (h : IsValueText J) (w : Wrapper) (p : Nat) {r : Bytes}
    (hr : Ended r) :
    ∃ q, wrapperMember w ⟨p, 0x22 :: lit "value" ++ 0x22 :: 0x3A :: ([0x20] ++ (J ++ r))⟩ =
      .ok ({ w with value := some J }, ⟨q, r⟩) := by
  obtain ⟨q₁, hkey, hcolon⟩ := @wrapperMember_key (lit "value") (by decide) p ([0x20] ++ (J ++ r))
  have hvalue := (skips_parseRawValue.blank isBlank_space (q₁ + 1) (J ++ r)).trans (h.reads (q₁ + 2) hr)
  refine ⟨q₁ + 2 + J.length, bind_eq_ok.mpr ⟨_, hkey, bind_eq_ok.mpr ⟨_, hcolon, ?_⟩⟩⟩
  rw [if_neg (by decide), if_pos rfl]
  exact bind_eq_ok.mpr ⟨_, hvalue, rfl⟩

theorem typedWrapper_eq (typeJson J : Bytes) : typedWrapper typeJson J =
    0x7B :: (0x22 :: lit "type" ++ 0x22 :: 0x3A :: ([0x20] ++ (typeJson ++
      0x2C :: ([0x20] ++ (0x22 :: lit "value" ++ 0x22 :: 0x3A :: ([0x20] ++ (J ++ [0x7D]))))))) := by
  have hfirst : lit "\x7b\"type\": " = 0x7B :: (0x22 :: lit "type" ++ [0x22, 0x3A, 0x20]) := rfl
  have hsecond : lit ", \"value\": " = 0x2C :: 0x20 :: (0x22 :: lit "value" ++ [0x22, 0x3A, 0x20]) := rfl
  rw [typedWrapper, hfirst, hsecond]
  simp

/-- The loop over the members of a wrapper. -/
theorem readAll_typedWrapper {typeJson ts J : Bytes} (htype : IsStringText typeJson ts) (hvalue : IsValueText J)
    (p : Nat) (r : Bytes) :
    ∃ q, readAll 0x7D wrapperMember {} ⟨p, (typedWrapper typeJson J).tail ++ r⟩ =
      .ok ({ type := some ts, value := some J }, ⟨q, r⟩) := by
  generalize hlast : 0x22 :: lit "value" ++ 0x22 :: 0x3A :: ([0x20] ++ (J ++ 0x7D :: r)) = last
  have hshape : (typedWrapper typeJson J).tail ++ r =
      0x22 :: lit "type" ++ 0x22 :: 0x3A :: ([0x20] ++ (typeJson ++ 0x2C :: ([0x20] ++ last))) := by
    rw [typedWrapper_eq, ← hlast]
    simp
  obtain ⟨q₁, hq₁⟩ := wrapperMember_type htype {} p (0x2C :: ([0x20] ++ last))
  obtain ⟨q₂, hq₂⟩ := wrapperMember_value hvalue { type := some ts } (q₁ + 2)
    (ended_cons (b := 0x7D) (by decide) r)
  rw [hlast] at hq₂
  have hitem := ((skips_wrapperMember { type := some ts }).blank isBlank_space (q₁ + 1) last).trans hq₂
  have hskip : ∀ s, skipWhitespace ⟨p, 0x22 :: lit "type" ++ s⟩ = ⟨p, 0x22 :: lit "type" ++ s⟩ :=
    fun s => skipWhitespace_cons (by decide) p (lit "type" ++ s)
  rw [hshape, readAll]
  generalize hn : Cursor.rest _ = text
  -- the text is long enough for the two members and the bracket
  obtain ⟨n, hn⟩ : ∃ n, text.length + 1 = n + 3 := by
    refine ⟨text.length - 2, ?_⟩
    rw [← hn]
    simp only [List.length_append, List.length_cons]
    omega
  refine ⟨q₂ + 1, ?_⟩
  rw [hn, readItems_first, hskip]
  · refine bind_eq_ok.mpr ⟨_, hq₁, ?_⟩
    rw [readItems_comma (by decide)]
    refine bind_eq_ok.mpr ⟨_, hitem, ?_⟩
    exact readItems_close (by decide) n false _ q₂ r
  · rw [hskip]
    exact (by decide : (some 0x22 : Option UInt8) ≠ some 0x7D)

/-! ## Whether it is taken for one -/

/-- What stands before the value. -/
def wrapperPrefix (typeJson : Bytes) : Bytes :=
  0x22 :: lit "type" ++ [0x22] ++ [0x3A, 0x20] ++ typeJson ++ [0x2C, 0x20] ++
    (0x22 :: lit "value" ++ [0x22]) ++ [0x3A, 0x20]

theorem typedWrapper_split (typeJson J r : Bytes) :
    typedWrapper typeJson J ++ r = 0x7B :: (wrapperPrefix typeJson ++ (J ++ 0x7D :: r)) := by
  rw [typedWrapper_eq, wrapperPrefix]
  simp

theorem skipped_wrapperPrefix {typeJson ts : Bytes} (h : IsStringText typeJson ts) :
    Skipped 0x7B 0x7D (wrapperPrefix typeJson) := by
  obtain ⟨p, hp⟩ := h
  obtain ⟨w, e, hw, he, hs, -⟩ := parseString_eq_ok hp
  have htype : Skipped 0x7B 0x7D typeJson := by
    rw [List.append_nil] at hs
    rw [hs]
    exact (skipped_blank (Or.inl ⟨rfl, rfl⟩) hw).append (skipped_string he)
  have hword : ∀ word : Bytes, (∀ b ∈ word, b ≠ 0x22 ∧ b ≠ 0x5C) →
      Skipped 0x7B 0x7D (0x22 :: word ++ [0x22]) := fun word hword => by
    have hbody := Body.append_plain hword Body.nil
    rw [List.append_nil] at hbody
    exact skipped_string hbody
  have hcolon : Skipped 0x7B 0x7D [0x3A, 0x20] := skipped_of_plain (by decide)
  have hcomma : Skipped 0x7B 0x7D [0x2C, 0x20] := skipped_of_plain (by decide)
  exact (((((hword _ (by decide)).append hcolon).append htype).append hcomma).append
    (hword _ (by decide))).append hcolon

theorem words_wrapperPrefix (typeJson : Bytes) :
    lit "\"type\"" <:+: wrapperPrefix typeJson ∧ lit "\"value\"" <:+: wrapperPrefix typeJson := by
  have htype : lit "\"type\"" = 0x22 :: lit "type" ++ [0x22] := rfl
  have hvalue : lit "\"value\"" = 0x22 :: lit "value" ++ [0x22] := rfl
  rw [htype, hvalue]
  exact ⟨⟨[], [0x3A, 0x20] ++ typeJson ++ [0x2C, 0x20] ++ (0x22 :: lit "value" ++ [0x22]) ++ [0x3A, 0x20],
      by simp [wrapperPrefix]⟩,
    ⟨0x22 :: lit "type" ++ [0x22] ++ [0x3A, 0x20] ++ typeJson ++ [0x2C, 0x20], [0x3A, 0x20], rfl⟩⟩

theorem scanValue_wrapper {typeJson ts : Bytes} (h : IsStringText typeJson ts) (s : Bytes) :
    scanValue (0x7B :: (wrapperPrefix typeJson ++ s)) =
      match scanBrackets 0x7B 0x7D 1 false s with
      | some rest => .ok rest
      | none => .error (lit "unterminated object/array") := by
  have hskip : scanBrackets 0x7B 0x7D (0 + 1) false (wrapperPrefix typeJson ++ s) =
      scanBrackets 0x7B 0x7D 1 false s :=
    skipped_wrapperPrefix h 1 s (Nat.le_refl 1)
  cases hrest : scanBrackets 0x7B 0x7D 1 false s with
  | none =>
      rw [scanValue, if_neg (by decide), if_pos (Or.inl rfl), if_pos rfl,
        scanBrackets_open (Or.inl ⟨rfl, rfl⟩), hskip, hrest]
  | some rest =>
      rw [scanValue, if_neg (by decide), if_pos (Or.inl rfl), if_pos rfl,
        scanBrackets_open (Or.inl ⟨rfl, rfl⟩), hskip, hrest]

/-- The object is taken for a wrapper if the brackets of the value are closed in it. -/
theorem looksTyped_typedWrapper {typeJson ts : Bytes} (h : IsStringText typeJson ts) (J : Bytes) (p : Nat)
    (r : Bytes) :
    looksTyped ⟨p, typedWrapper typeJson J ++ r⟩ =
      (scanBrackets 0x7B 0x7D 1 false (J ++ 0x7D :: r)).isSome := by
  rw [typedWrapper_split, looksTyped, parseRawValue, skipWhitespace_cons (by decide)]
  simp only [scanValue_wrapper h]
  cases hrest : scanBrackets 0x7B 0x7D 1 false (J ++ 0x7D :: r) with
  | none => rfl
  | some rest =>
      obtain ⟨m, hm, -⟩ := scanBrackets_eq_some hrest
      have hshape : 0x7B :: (wrapperPrefix typeJson ++ (J ++ 0x7D :: r)) =
          0x7B :: (wrapperPrefix typeJson ++ (m ++ [0x7D])) ++ rest := by
        rw [hm]
        simp
      have htaken : (0x7B :: (wrapperPrefix typeJson ++ (J ++ 0x7D :: r))).take
          ((0x7B :: (wrapperPrefix typeJson ++ (J ++ 0x7D :: r))).length - rest.length) =
            0x7B :: (wrapperPrefix typeJson ++ (m ++ [0x7D])) := by
        rw [hshape, List.length_append, Nat.add_sub_cancel, List.take_left]
      have hwords := words_wrapperPrefix typeJson
      have hinfix : wrapperPrefix typeJson <:+: 0x7B :: (wrapperPrefix typeJson ++ (m ++ [0x7D])) :=
        ⟨[0x7B], m ++ [0x7D], by simp⟩
      simp only [ok_bind, htaken, Option.isSome_some, Bool.and_eq_true]
      exact ⟨contains_iff.mpr (hwords.1.trans hinfix), contains_iff.mpr (hwords.2.trans hinfix)⟩

/-- What follows the brackets does not make a difference. -/
theorem scanBrackets_append {o c b : UInt8} (hb : b ≠ c) (depth : Nat) (q : Bool) (s : Bytes) :
    (scanBrackets o c depth q (s ++ [b])).isSome = (scanBrackets o c depth q s).isSome := by
  rw [Bool.eq_iff_iff, Option.isSome_iff_exists, Option.isSome_iff_exists]
  constructor
  · rintro ⟨r, hr⟩
    obtain ⟨m, hm, hall⟩ := scanBrackets_eq_some hr
    rcases List.eq_nil_or_concat r with rfl | ⟨r, x, rfl⟩
    · exact absurd (List.append_inj_right' hm rfl) (by simpa using hb)
    · have hlast : s ++ [b] = m ++ c :: r ++ [x] := by simpa using hm
      exact ⟨r, by rw [List.append_inj_left' hlast rfl, hall r]⟩
  · rintro ⟨r, hr⟩
    obtain ⟨m, rfl, hall⟩ := scanBrackets_eq_some hr
    refine ⟨r ++ [b], ?_⟩
    rw [List.append_assoc, List.cons_append, hall]

variable {text : DuckText} {casts : DuckCasts}

theorem typedWrapper_head (typeJson J : Bytes) : ∃ s, typedWrapper typeJson J = 0x7B :: s :=
  ⟨_, typedWrapper_eq typeJson J⟩

/-- A typed wrapper is decoded as its value at the type that it names. -/
theorem decodeTypedWrapper_eq (decode : Cursor → LogicalType → Except Bytes (Value × Cursor))
    {typeJson ts J : Bytes} {T : LogicalType} (htype : IsStringText typeJson ts) (hvalue : IsValueText J)
    (hparse : parseType casts.types ts = .ok T) (p : Nat) (r : Bytes) :
    ∃ q, decodeTypedWrapper casts decode ⟨p, typedWrapper typeJson J ++ r⟩ =
      decode (.start J) T >>= fun v => .ok (v.1, ⟨q, r⟩) := by
  obtain ⟨s, hs⟩ := typedWrapper_head typeJson J
  obtain ⟨q, hq⟩ := readAll_typedWrapper htype hvalue (p + 1) r
  have hbrace : consumeChar 0x7B ⟨p, 0x7B :: s ++ r⟩ = .ok ⟨p + 1, s ++ r⟩ :=
    consumeChar_blank (w := []) (by decide) (by decide) p (s ++ r)
  rw [hs, List.tail_cons] at hq
  refine ⟨q, ?_⟩
  rw [hs, decodeTypedWrapper, hbrace]
  simp only [ok_bind, hq, hparse]

/-! ## One parameter -/

theorem decodeBody_decodeCall (c : Cursor) (expected : LogicalType) :
    decodeBody text casts (fun c t => decodeCall text casts (c, t)) c expected =
      decodeCall text casts (c, expected) :=
  recursion_decodeOne.body (c, expected)

/-- A list of one parameter. -/
theorem decodeParams_single {x : Bytes} {b : UInt8} {s : Bytes} (hx : x = b :: s) (hb : isWs b = false)
    (hclose : b ≠ 0x5D) (expectedTypes : List LogicalType) :
    decodeParams text casts (0x5B :: x ++ [0x5D]) expectedTypes =
      decodeCall text casts (⟨1, x ++ [0x5D]⟩, expectedTypes.getD 0 .any) >>= fun r =>
        readItems 0x5D (parameter (fun c t => decodeCall text casts (c, t)) expectedTypes) (x.length + 1)
            false [r.1] r.2 >>= fun r =>
          if expectedTypes ≠ [] ∧ r.1.length ≠ expectedTypes.length then
            .error (lit "prepared statement expects " ++ decNat expectedTypes.length ++
              lit " parameter(s); got " ++ decNat r.1.length)
          else .ok r.1 := by
  have hsome : ¬ (0x5B :: x ++ [0x5D] = [] ∨ 0x5B :: x ++ [0x5D] = lit "[]") := by
    rw [hx]
    rintro (hnil | hempty)
    · exact nomatch hnil
    · have hlen := congrArg List.length hempty
      simp [show (lit "[]").length = 2 from rfl] at hlen
  have hbracket : consumeChar 0x5B (.start (0x5B :: x ++ [0x5D])) = .ok ⟨1, x ++ [0x5D]⟩ :=
    consumeChar_blank (w := []) (by decide) (by decide) 0 (x ++ [0x5D])
  have hskip : skipWhitespace ⟨1, x ++ [0x5D]⟩ = ⟨1, x ++ [0x5D]⟩ := by
    rw [hx]
    exact skipWhitespace_cons hb 1 (s ++ [0x5D])
  have hfirst : (skipWhitespace ⟨1, x ++ [0x5D]⟩).rest.head? ≠ some 0x5D := by
    rw [hskip, hx]
    simpa using hclose
  have hfew : ¬ (expectedTypes ≠ [] ∧ expectedTypes.length ≤ ([] : List Value).length) := by
    rintro ⟨hne, hle⟩
    exact hne (List.eq_nil_of_length_eq_zero (Nat.le_zero.mp hle))
  rw [decodeParams_eq, decodeParamsBy, trimmed_brackets, if_neg hsome, hbracket, ok_bind, readAll]
  simp only [List.length_append, List.length_singleton]
  rw [readItems_first hfirst, hskip, parameter, if_neg hfew]
  cases decodeCall text casts (⟨1, x ++ [0x5D]⟩, expectedTypes.getD 0 .any) with
  | error e => rfl
  | ok r => rfl

/-- The call for a typed wrapper that is the only parameter. -/
theorem decodeCall_typedWrapper {typeJson ts : Bytes} (htype : IsStringText typeJson ts) (J : Bytes)
    (expected : LogicalType) :
    decodeCall text casts (⟨1, typedWrapper typeJson J ++ [0x5D]⟩, expected) =
      if looksTyped (.start (typedWrapper typeJson J)) then
        decodeTypedWrapper casts (fun c t => decodeCall text casts (c, t))
          ⟨1, typedWrapper typeJson J ++ [0x5D]⟩
      else
        decodeStruct text casts (fun c t => decodeCall text casts (c, t))
          ⟨1, typedWrapper typeJson J ++ [0x5D]⟩ expected := by
  obtain ⟨s, hs⟩ := typedWrapper_head typeJson J
  have hlooks : looksTyped ⟨1, typedWrapper typeJson J ++ [0x5D]⟩ =
      looksTyped (.start (typedWrapper typeJson J)) := by
    have halone := looksTyped_typedWrapper htype J 0 []
    rw [List.append_nil] at halone
    have hshape : J ++ [0x7D, 0x5D] = J ++ [0x7D] ++ [0x5D] := by simp
    rw [looksTyped_typedWrapper htype, hshape, scanBrackets_append (by decide)]
    exact halone.symm
  have hskip : skipWhitespace ⟨1, typedWrapper typeJson J ++ [0x5D]⟩ =
      ⟨1, typedWrapper typeJson J ++ [0x5D]⟩ := by
    rw [hs]
    exact skipWhitespace_cons (b := 0x7B) (by decide) 1 (s ++ [0x5D])
  have hhead : (skipWhitespace ⟨1, typedWrapper typeJson J ++ [0x5D]⟩).rest.head? = some 0x7B := by
    rw [hskip, hs]
    rfl
  rw [← decodeBody_decodeCall, decodeBody]
  simp only [if_pos hhead]
  rw [hskip, hlooks]

/-- A list of one typed wrapper. -/
theorem decodeParams_typedWrapper {typeJson ts J : Bytes} {T : LogicalType} (htype : IsStringText typeJson ts)
    (hvalue : IsValueText J) (hparse : parseType casts.types ts = .ok T)
    (hlooks : looksTyped (.start (typedWrapper typeJson J)) = true) (expectedTypes : List LogicalType) :
    decodeParams text casts (0x5B :: typedWrapper typeJson J ++ [0x5D]) expectedTypes =
      decodeCall text casts (.start J, T) >>= fun r =>
        if expectedTypes ≠ [] ∧ 1 ≠ expectedTypes.length then
          .error (lit "prepared statement expects " ++ decNat expectedTypes.length ++
            lit " parameter(s); got " ++ decNat 1)
        else .ok [r.1] := by
  obtain ⟨s, hs⟩ := typedWrapper_head typeJson J
  obtain ⟨q, hq⟩ := decodeTypedWrapper_eq (fun c t => decodeCall text casts (c, t)) htype hvalue hparse 1 [0x5D]
  rw [decodeParams_single (b := 0x7B) hs (by decide) (by decide), decodeCall_typedWrapper htype,
    if_pos hlooks, hq]
  cases decodeCall text casts (.start J, T) with
  | error e => rfl
  | ok r =>
      simp only [ok_bind]
      rw [readItems_close (by decide)]
      rfl

/-- Where nothing is expected an object can only be a typed wrapper. -/
theorem looksTyped_of_decodeParams {typeJson ts J : Bytes} (htype : IsStringText typeJson ts) {vs : List Value}
    (h : decodeParams text casts (0x5B :: typedWrapper typeJson J ++ [0x5D]) [] = .ok vs) :
    looksTyped (.start (typedWrapper typeJson J)) = true := by
  obtain ⟨s, hs⟩ := typedWrapper_head typeJson J
  rw [decodeParams_single (b := 0x7B) hs (by decide) (by decide), decodeCall_typedWrapper htype] at h
  by_contra hlooks
  rw [if_neg hlooks] at h
  exact nomatch h

end Harbor.ParamDecoder
