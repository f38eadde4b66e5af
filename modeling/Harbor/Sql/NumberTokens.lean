import Harbor.Sql.DecodeText
import Harbor.Sql.DuckTyping

set_option autoImplicit false

/-! # Number tokens without an expected type

`DecodeOne` collects a run of number characters, `CoerceJsonNumber` looks for a dot or an `e` in it,
and `std::stoll` or `std::stod` converts it. Both calls read a prefix and nobody asks how long it
was. **`number_tokens_exact_iff`** says for which tokens that does no harm: the prefix is the whole
token, or there is none, or the call throws at it.
-/

namespace Harbor

open Bytes Json

namespace ParamDecoder

/-! ## What the calls read -/

/-- The digits of a decimal number, with a dot before, behind or among them. -/
def scanMantissa (s : Bytes) : Option (Bytes × Bytes × Bytes) :=
  let (int, s) := spanDigits s
  match s with
  | [] => if int = [] then none else some (int, [], [])
  | b :: r =>
      if b = 0x2E then
        let (frac, r) := spanDigits r
        if int = [] ∧ frac = [] then none else some (int, frac, r)
      else if int = [] then none
      else some (int, [], b :: r)

/-- The longest decimal number at the start of a text, and the text behind it, as `strtod` finds
them. An `e` without digits is not part of the number. -/
def scanDecimal (s : Bytes) : Option (NumberParts × Bytes) := do
  let (neg, s) := scanSign s
  let (int, frac, s) ← scanMantissa s
  match scanExp s with
  | some (expNeg, exp, s) => some (⟨neg, int, frac, expNeg, exp⟩, s)
  | none => some (⟨neg, int, frac, false, []⟩, s)

/-- A sign, the digits behind it, and what is left. -/
def scanInteger (s : Bytes) : Bool × Bytes × Bytes := ((scanMinus s).1, spanDigits (scanMinus s).2)

def signed (neg : Bool) (digits : Bytes) : Int :=
  if neg then -(natOfDigits 0 digits : Int) else natOfDigits 0 digits

end ParamDecoder

open ParamDecoder in
/-- `std::stod` on number characters: the double next to the decimal number at the start of the
text. It throws without one and where `round`, the rounding of `strtod`, has no double. -/
structure DuckCasts.Strtod (casts : DuckCasts) (round : Json.Number → Option Double) : Prop where
  reads : ∀ s, (∀ b ∈ s, isNumberChar b = true) →
    casts.stod s = (scanDecimal s).bind fun r => round r.1.value

namespace ParamDecoder

/-- An optional minus and digits only, for the number. -/
def IsIntegerText (s : Bytes) (i : Int) : Prop :=
  ∃ digits, digits ≠ [] ∧ (∀ b ∈ digits, isDigit b = true) ∧
    (s = digits ∧ i = signed false digits ∨ s = 0x2D :: digits ∧ i = signed true digits)

/-- No dot and no `e`. -/
def integerShaped (token : Bytes) : Bool := token.all fun b => b ≠ 0x2E && b ≠ 0x65 && b ≠ 0x45

variable (round : Number → Option Double)

/-- What is bound is the number that the whole token is; everything else is refused. -/
def ReadsExactly (token : Bytes) (result : Except Bytes (Value × Cursor)) : Prop :=
  ∀ v c, result = .ok (v, c) →
    (∃ i, v = .leaf (.scalar .bigint) (.int i) ∧ IsIntegerText token i ∧ IsInt 64 i) ∨
    ∃ d p, v = .leaf (.scalar .double) (.double d) ∧ scanDecimal token = some (p, []) ∧
      round p.value = some d

/-- The number at the start of the token is the whole token, or missing, or out of range. -/
def WholeOrRefused (token : Bytes) : Prop :=
  if integerShaped token then
    let (neg, digits, rest) := scanInteger token
    rest = [] ∨ digits = [] ∨ ¬ IsInt 64 (signed neg digits)
  else ∀ p rest, scanDecimal token = some (p, rest) → rest = [] ∨ round p.value = none

/-- What the scan collects: number characters, first a minus or a digit. -/
structure IsToken (token : Bytes) : Prop where
  chars : ∀ b ∈ token, isNumberChar b = true
  first : ∃ b s, token = b :: s ∧ (b = 0x2D ∨ isDigit b = true)

/-! ## Integers -/

theorem isSpace_of_isDigit {b : UInt8} (h : isDigit b = true) : isSpace b = false :=
  forall_byte (P := fun b => isDigit b = true → isSpace b = false) (by decide +kernel) b h

/-- `stoll` of a token: nothing to skip, and no plus. -/
theorem stoll_token {token : Bytes} (h : IsToken token) :
    stoll token =
      if (scanInteger token).2.1 = [] ∨
          ¬ IsInt 64 (signed (scanInteger token).1 (scanInteger token).2.1) then none
      else some (signed (scanInteger token).1 (scanInteger token).2.1) := by
  obtain ⟨b, s, rfl, hb⟩ := h.first
  rcases hb with rfl | hb
  · rfl
  · have hspace : (b :: s).dropWhile isSpace = b :: s := by
      rw [List.dropWhile_cons_of_neg]
      simp [isSpace_of_isDigit hb]
    have hminus : b ≠ 0x2D := by
      rintro rfl
      cases hb
    have hplus : b ≠ 0x2B := by
      rintro rfl
      cases hb
    have hscan : scanInteger (b :: s) = (false, spanDigits (b :: s)) := by
      rw [scanInteger, scanMinus, if_neg hminus]
    rw [stoll, hspace, hscan]
    simp [hminus, hplus, signed, spanDigits, IsInt]

/-- The digits of the scan and what is left are what was behind the sign. -/
theorem scanInteger_split (token : Bytes) :
    (scanInteger token).2.1 ++ (scanInteger token).2.2 = (scanMinus token).2 :=
  List.takeWhile_append_dropWhile

theorem scanInteger_digits (token : Bytes) : ∀ b ∈ (scanInteger token).2.1, isDigit b = true :=
  fun _ hb => List.mem_takeWhile_imp hb

theorem scanMinus_token {token : Bytes} (h : IsToken token) :
    (scanMinus token).1 = true ∧ token = 0x2D :: (scanMinus token).2 ∨
      (scanMinus token).1 = false ∧ token = (scanMinus token).2 := by
  obtain ⟨b, s, rfl, -⟩ := h.first
  rw [scanMinus]
  split_ifs with hb
  · exact Or.inl ⟨rfl, by rw [hb]⟩
  · exact Or.inr ⟨rfl, rfl⟩

/-- The scan of an optional minus and digits. -/
theorem scanInteger_digitsOnly {digits : Bytes} (hne : digits ≠ [])
    (hdigits : ∀ b ∈ digits, isDigit b = true) :
    scanInteger digits = (false, digits, []) ∧
      scanInteger (0x2D :: digits) = (true, digits, []) := by
  constructor
  · obtain ⟨b, s, rfl⟩ := List.exists_cons_of_ne_nil hne
    have hminus : b ≠ 0x2D := by
      rintro rfl
      cases hdigits _ List.mem_cons_self
    rw [scanInteger, scanMinus, if_neg hminus, spanDigits_of_digits hdigits]
  · rw [scanInteger, scanMinus, if_pos rfl, spanDigits_of_digits hdigits]

/-- **A token is an integer text exactly when its scan leaves nothing.** -/
theorem isIntegerText_iff {token : Bytes} (h : IsToken token) (i : Int) :
    IsIntegerText token i ↔ (scanInteger token).2.2 = [] ∧ (scanInteger token).2.1 ≠ [] ∧
      i = signed (scanInteger token).1 (scanInteger token).2.1 := by
  constructor
  · rintro ⟨digits, hne, hdigits, ⟨rfl, rfl⟩ | ⟨rfl, rfl⟩⟩
    · rw [(scanInteger_digitsOnly hne hdigits).1]
      exact ⟨rfl, hne, rfl⟩
    · rw [(scanInteger_digitsOnly hne hdigits).2]
      exact ⟨rfl, hne, rfl⟩
  · rintro ⟨hrest, hne, rfl⟩
    have hsplit := scanInteger_split token
    rw [hrest, List.append_nil] at hsplit
    refine ⟨_, hne, scanInteger_digits token, ?_⟩
    rcases scanMinus_token h with ⟨hneg, htoken⟩ | ⟨hneg, htoken⟩
    · exact Or.inr ⟨by rw [hsplit]; exact htoken, congrArg (signed · _) hneg⟩
    · exact Or.inl ⟨by rw [hsplit]; exact htoken, congrArg (signed · _) hneg⟩

/-! ## Both calls -/

variable {round}

/-- An integer is bound exactly when the scan of the token leaves nothing. -/
theorem integer_exact_iff {token : Bytes} (h : IsToken token) (hshape : integerShaped token = true) :
    (∀ i, stoll token = some i → IsIntegerText token i ∧ IsInt 64 i) ↔
      WholeOrRefused round token := by
  rw [WholeOrRefused, if_pos hshape, stoll_token h]
  constructor
  · intro hexact
    by_cases hrefused : (scanInteger token).2.1 = [] ∨
        ¬ IsInt 64 (signed (scanInteger token).1 (scanInteger token).2.1)
    · exact Or.inr hrefused
    · have hi := (hexact _ (if_neg hrefused)).1
      exact Or.inl ((isIntegerText_iff h _).mp hi).1
  · rintro hwhole i hi
    obtain ⟨hnot, hsome⟩ := Option.ite_none_left_eq_some.mp hi
    obtain rfl := Option.some.inj hsome
    obtain ⟨hne, hrange⟩ := not_or.mp hnot
    have hrest : (scanInteger token).2.2 = [] := hwhole.resolve_right hnot
    exact ⟨(isIntegerText_iff h _).mpr ⟨hrest, hne, rfl⟩, not_not.mp hrange⟩

/-- A double is bound exactly when the decimal number at the start is the token. -/
theorem double_exact_iff {token : Bytes} (hshape : integerShaped token = false) :
    (∀ d, ((scanDecimal token).bind fun r => round r.1.value) = some d →
      ∃ p, scanDecimal token = some (p, []) ∧ round p.value = some d) ↔
      WholeOrRefused round token := by
  rw [WholeOrRefused, if_neg (Bool.eq_false_iff.mp hshape)]
  constructor
  · intro hexact p rest hscan
    cases hround : round p.value with
    | none => exact Or.inr rfl
    | some d =>
        obtain ⟨q, hq, -⟩ := hexact d (by rw [hscan, Option.bind_some, hround])
        rw [hscan] at hq
        exact Or.inl (Prod.mk.inj (Option.some.inj hq)).2
  · intro hwhole d hd
    obtain ⟨⟨p, rest⟩, hscan, hround⟩ := Option.bind_eq_some_iff.mp hd
    have hrest : rest = [] := by
      refine (hwhole p rest hscan).resolve_right ?_
      rw [hround]
      exact Option.some_ne_none d
    subst hrest
    exact ⟨p, hscan, hround⟩

/-- The scan collects the token and nothing behind it. -/
theorem takeWhile_token {token rest : Bytes} (h : IsToken token)
    (hrest : ∀ b ∈ rest.head?, isNumberChar b = false) :
    (token ++ rest).takeWhile isNumberChar = token := by
  rw [List.takeWhile_append_of_pos h.chars]
  cases rest with
  | nil => exact List.append_nil token
  | cons b rest =>
      rw [List.takeWhile_cons_of_neg (Bool.eq_false_iff.mp (hrest b rfl)), List.append_nil]

variable {text : DuckText} {casts : DuckCasts}

theorem decodeOne_token {token rest : Bytes} (h : IsToken token)
    (hrest : ∀ b ∈ rest.head?, isNumberChar b = false) (expected : LogicalType) (depth p : Nat) :
    decodeOne text casts (depth + 1) ⟨p, token ++ rest⟩ expected =
      coerceJsonNumber text casts token expected >>= fun v =>
        .ok (v, (⟨p, token ++ rest⟩ : Cursor).advance token.length) := by
  have htake := takeWhile_token h hrest
  obtain ⟨b, s, rfl, hb⟩ := h.first
  rw [List.cons_append, decodeOne_number hb, ← List.cons_append, htake]

theorem coerceJsonNumber_integer {token : Bytes} (hshape : integerShaped token = true)
    {expected : LogicalType}
    (hexpected : expected = .any ∨ expected = .invalid ∨ expected = .scalar .sqlNull) :
    coerceJsonNumber text casts token expected =
      match stoll token with
      | some i => .ok (.leaf (.scalar .bigint) (.int i))
      | none => .error (lit "number out of range for ANY-typed parameter") := by
  rw [coerceJsonNumber, if_pos hexpected]
  exact if_pos hshape

theorem coerceJsonNumber_double {token : Bytes} (hshape : integerShaped token = false)
    {expected : LogicalType}
    (hexpected : expected = .any ∨ expected = .invalid ∨ expected = .scalar .sqlNull) :
    coerceJsonNumber text casts token expected =
      match casts.stod token with
      | some d => .ok (.leaf (.scalar .double) (.double d))
      | none => .error (lit "number out of range for ANY-typed parameter") := by
  rw [coerceJsonNumber, if_pos hexpected]
  exact if_neg (Bool.eq_false_iff.mp hshape)

/-- What is bound to a token without a dot or an `e`. -/
theorem coerce_integer {token : Bytes} (hshape : integerShaped token = true)
    {expected : LogicalType}
    (hexpected : expected = .any ∨ expected = .invalid ∨ expected = .scalar .sqlNull) (v : Value) :
    coerceJsonNumber text casts token expected = .ok v ↔
      ∃ i, stoll token = some i ∧ v = .leaf (.scalar .bigint) (.int i) := by
  rw [coerceJsonNumber_integer hshape hexpected]
  cases stoll token with
  | none => simp
  | some i => simp [eq_comm]

/-- What is bound to any other token. -/
theorem coerce_double {token : Bytes} (hshape : integerShaped token = false)
    {expected : LogicalType}
    (hexpected : expected = .any ∨ expected = .invalid ∨ expected = .scalar .sqlNull) (v : Value) :
    coerceJsonNumber text casts token expected = .ok v ↔
      ∃ d, casts.stod token = some d ∧ v = .leaf (.scalar .double) (.double d) := by
  rw [coerceJsonNumber_double hshape hexpected]
  cases casts.stod token with
  | none => simp
  | some d => simp [eq_comm]

theorem readsExactly_integer {token : Bytes} {result : Except Bytes (Value × Cursor)}
    (hresult : ∀ v, (∃ c, result = .ok (v, c)) ↔
      ∃ i, stoll token = some i ∧ v = .leaf (.scalar .bigint) (.int i)) :
    ReadsExactly round token result ↔
      ∀ i, stoll token = some i → IsIntegerText token i ∧ IsInt 64 i := by
  constructor
  · intro hexact i hi
    obtain ⟨c, hc⟩ := (hresult _).mpr ⟨i, hi, rfl⟩
    obtain ⟨j, hj, hread⟩ | ⟨d, p, hd, -⟩ := hexact _ c hc
    · cases hj
      exact hread
    · cases hd
  · rintro hexact v c hc
    obtain ⟨i, hi, rfl⟩ := (hresult v).mp ⟨c, hc⟩
    exact Or.inl ⟨i, rfl, hexact i hi⟩

theorem readsExactly_double {token : Bytes} {result : Except Bytes (Value × Cursor)}
    (hresult : ∀ v, (∃ c, result = .ok (v, c)) ↔
      ∃ d, casts.stod token = some d ∧ v = .leaf (.scalar .double) (.double d)) :
    ReadsExactly round token result ↔
      ∀ d, casts.stod token = some d →
        ∃ p, scanDecimal token = some (p, []) ∧ round p.value = some d := by
  constructor
  · intro hexact d hd
    obtain ⟨c, hc⟩ := (hresult _).mpr ⟨d, hd, rfl⟩
    obtain ⟨i, hi, -⟩ | ⟨e, p, he, hread⟩ := hexact _ c hc
    · cases hi
    · cases he
      exact ⟨p, hread⟩
  · rintro hexact v c hc
    obtain ⟨d, hd, rfl⟩ := (hresult v).mp ⟨c, hc⟩
    obtain ⟨p, hread⟩ := hexact d hd
    exact Or.inr ⟨d, p, rfl, hread⟩

/-- **A token is read exactly when its numeric prefix is all of it, missing or out of range.** -/
theorem number_tokens_exact_iff (hstod : casts.Strtod round) {expected : LogicalType}
    (hexpected : expected = .any ∨ expected = .invalid ∨ expected = .scalar .sqlNull)
    {token rest : Bytes} (htoken : IsToken token)
    (hrest : ∀ b ∈ rest.head?, isNumberChar b = false) (depth p : Nat) :
    ReadsExactly round token (decodeOne text casts (depth + 1) ⟨p, token ++ rest⟩ expected) ↔
      WholeOrRefused round token := by
  -- the token ends where it should, so the scan hands over all of it
  have haccepted : ∀ v,
      (∃ c, decodeOne text casts (depth + 1) ⟨p, token ++ rest⟩ expected = .ok (v, c)) ↔
        coerceJsonNumber text casts token expected = .ok v := by
    intro v
    rw [decodeOne_token htoken hrest]
    constructor
    · rintro ⟨c, hc⟩
      obtain ⟨w, hw, hv⟩ := bind_eq_ok.mp hc
      cases hv
      exact hw
    · intro hv
      exact ⟨_, bind_eq_ok.mpr ⟨v, hv, rfl⟩⟩
  cases hshape : integerShaped token with
  | true =>
      rw [readsExactly_integer fun v => (haccepted v).trans (coerce_integer hshape hexpected v)]
      exact integer_exact_iff htoken hshape
  | false =>
      rw [readsExactly_double fun v => (haccepted v).trans (coerce_double hshape hexpected v),
        hstod.reads token htoken.chars]
      exact double_exact_iff hshape

/-- The rounding of `strtod`, at one and a half. -/
def roundThreeHalves (n : Number) : Option Double :=
  if n = ⟨false, 3 / 2⟩ then some (.finite ⟨false, 0x3FF8000000000000⟩) else none

/-- The simple casts with a `stod` that rounds like this. -/
def castsRounding (round : Number → Option Double) : DuckCasts :=
  { DuckCasts.simple with stod := fun s => (scanDecimal s).bind fun r => round r.1.value }

/-- One and a half, the last of the parameters. -/
theorem number_tokens_exact_iff_threeHalves :
    ReadsExactly roundThreeHalves (lit "1.5")
        (decodeOne .numerals (castsRounding roundThreeHalves) 1 ⟨1, lit "1.5" ++ lit "]"⟩ .any) ↔
      WholeOrRefused roundThreeHalves (lit "1.5") :=
  number_tokens_exact_iff ⟨fun _ _ => rfl⟩ (Or.inl rfl) ⟨by decide, _, _, rfl, Or.inr rfl⟩
    (by decide +kernel) 0 1

/-- `12-3` becomes twelve. -/
theorem suffix_ignored :
    (decodeOne .numerals .simple 1 ⟨1, lit "12-3]"⟩ .any =
      .ok (.leaf (.scalar .bigint) (.int 12), ⟨5, lit "]"⟩)) ∧
    ¬ ReadsExactly roundThreeHalves (lit "12-3")
      (decodeOne .numerals .simple 1 ⟨1, lit "12-3]"⟩ .any) := by
  have hread : decodeOne .numerals .simple 1 ⟨1, lit "12-3]"⟩ .any =
      .ok (.leaf (.scalar .bigint) (.int 12), ⟨5, lit "]"⟩) := rfl
  refine ⟨hread, fun hexact => ?_⟩
  have htoken : IsToken (lit "12-3") := ⟨by decide, _, _, rfl, Or.inr rfl⟩
  obtain ⟨i, -, hi, -⟩ | ⟨d, p, hd, -⟩ := hexact _ _ hread
  · exact absurd ((isIntegerText_iff htoken i).mp hi).1 (by decide)
  · cases hd

end ParamDecoder

end Harbor
