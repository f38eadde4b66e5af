import Harbor.Sql.WellTyped

set_option autoImplicit false

/-! # Whether the two modes agree

A list of parameters with one value, decoded at a type without children that is expected of it, and a list with
the typed wrapper of that value and type. Both are decoded by one call of `DecodeOne` on the same text, but in
a list something stands behind it: what the call leaves of the value is then looked at, and in a wrapper it is
not. So the modes agree exactly where nothing is left, or nothing that the list would stop at
(`modes_agree_iff`).
-/

namespace Harbor.ParamDecoder

open Bytes Json

/-! ## With something behind -/

/-- The second computation reads the same, with `r` behind what is left. -/
def SameBefore {α : Type} (r : Bytes) (x y : Except Bytes (α × Cursor)) : Prop :=
  y.toOption.map (fun a => (a.1, a.2.rest)) = x.toOption.map fun a => (a.1, a.2.rest ++ r)

section SameBefore

variable {α : Type} {r : Bytes} {x y : Except Bytes (α × Cursor)}

theorem SameBefore.error {e e' : Bytes} : SameBefore (α := α) r (.error e) (.error e') := rfl

theorem SameBefore.of_ok {a : α} {c c' : Cursor} (h : c'.rest = c.rest ++ r) :
    SameBefore r (.ok (a, c)) (.ok (a, c')) :=
  congrArg (fun rest => some (a, rest)) h

/-- Both succeed, or none does. -/
theorem sameBefore_iff : SameBefore r x y ↔
    (∃ a c c', x = .ok (a, c) ∧ y = .ok (a, c') ∧ c'.rest = c.rest ++ r) ∨
      ∃ e e', x = .error e ∧ y = .error e' := by
  constructor
  · intro h
    cases x with
    | error e =>
        cases y with
        | error e' => exact Or.inr ⟨e, e', rfl, rfl⟩
        | ok a => exact nomatch h
    | ok a =>
        cases y with
        | error e' => exact nomatch h
        | ok a' =>
            obtain ⟨ha, hc⟩ := Prod.mk.inj (Option.some.inj h)
            exact Or.inl ⟨a.1, a.2, a'.2, rfl, by rw [← ha], hc⟩
  · rintro (⟨a, c, c', rfl, rfl, hc⟩ | ⟨e, e', rfl, rfl⟩)
    · exact .of_ok hc
    · exact .error

/-- What is done with the result does not see what is left. -/
theorem SameBefore.bind {β : Type} (h : SameBefore r x y) (f : α → Except Bytes β) :
    SameBefore r (x >>= fun a => f a.1 >>= fun b => .ok (b, a.2))
      (y >>= fun a => f a.1 >>= fun b => .ok (b, a.2)) := by
  rcases sameBefore_iff.mp h with ⟨a, c, c', rfl, rfl, hc⟩ | ⟨e, e', rfl, rfl⟩
  · rw [ok_bind, ok_bind]
    cases f a with
    | error e => exact .error
    | ok b => exact .of_ok hc
  · exact .error

end SameBefore

/-! ## Literals and strings -/

section Leaves

variable {text : DuckText} {casts : DuckCasts}

/-- A bracket is in no word. -/
theorem startsWith_bracket {word s : Bytes} (hword : 0x5D ∉ word) :
    startsWith (s ++ [0x5D]) word = startsWith s word := by
  rw [Bool.eq_iff_iff, startsWith_iff, startsWith_iff]
  constructor
  · rintro ⟨t, ht⟩
    rcases List.eq_nil_or_concat t with rfl | ⟨t, x, rfl⟩
    · rw [List.append_nil] at ht
      exact absurd (ht ▸ List.mem_append_right s (List.mem_singleton_self _)) hword
    · rw [List.concat_eq_append, ← List.append_assoc] at ht
      exact ⟨t, List.append_inj_left' ht rfl⟩
  · rintro ⟨t, rfl⟩
    exact ⟨t ++ [0x5D], List.append_assoc word t [0x5D]⟩

theorem sameBefore_advance (x : Except Bytes Value) {J : Bytes} {n : Nat} (hn : n ≤ J.length) (p : Nat) :
    SameBefore [0x5D] (x >>= fun v => .ok (v, (Cursor.start J).advance n))
      (x >>= fun v => .ok (v, (⟨p, J ++ [0x5D]⟩ : Cursor).advance n)) := by
  cases x with
  | error e => exact .error
  | ok v => exact .of_ok (List.drop_append_of_le_length hn)

/-- The number that a text starts with ends before a bracket. -/
theorem takeWhile_number (J : Bytes) : (J ++ [0x5D]).takeWhile isNumberChar = J.takeWhile isNumberChar := by
  induction J with
  | nil => rfl
  | cons b J ih =>
      rw [List.cons_append, List.takeWhile_cons, List.takeWhile_cons, ih]

theorem sameBefore_literal {b : UInt8} {m : Bytes} (hws : isWs b = false) (hquote : b ≠ 0x22) (hbrace : b ≠ 0x7B)
    (hbracket : b ≠ 0x5B) (expected : LogicalType) (p : Nat) :
    SameBefore [0x5D] (decodeOne text casts 1 (.start (b :: m)) expected)
      (decodeOne text casts 1 ⟨p, b :: m ++ [0x5D]⟩ expected) := by
  have hskip : skipWhitespace (.start (b :: m)) = .start (b :: m) := skipWhitespace_cons hws 0 m
  have hskip' : skipWhitespace ⟨p, b :: (m ++ [0x5D])⟩ = ⟨p, b :: (m ++ [0x5D])⟩ :=
    skipWhitespace_cons hws p (m ++ [0x5D])
  -- a word is found with the bracket behind it if it is found alone
  have hword : ∀ word : Bytes, 0x5D ∉ word → ∀ (x : Except Bytes Value) (n : Nat) (e : Bytes), n ≤ word.length →
      SameBefore [0x5D]
        (if startsWith (b :: m) word then x >>= fun v => .ok (v, (Cursor.start (b :: m)).advance n)
          else .error e)
        (if startsWith (b :: m ++ [0x5D]) word then
            x >>= fun v => .ok (v, (⟨p, b :: m ++ [0x5D]⟩ : Cursor).advance n) else .error e) := by
    intro word hno x n e hn
    rw [startsWith_bracket hno]
    by_cases hstart : startsWith (b :: m) word = true
    · rw [if_pos hstart, if_pos hstart]
      obtain ⟨t, ht⟩ := startsWith_iff.mp hstart
      refine sameBefore_advance x ?_ p
      rw [ht, List.length_append]
      omega
    · rw [if_neg hstart, if_neg hstart]
      exact .error
  rw [decodeOne, decodeOne, List.cons_append, hskip, hskip']
  simp only [Cursor.start, if_neg hquote, if_neg hbrace, if_neg hbracket]
  by_cases hn : b = 0x6E
  · rw [if_pos hn, if_pos hn]
    exact hword (lit "null") (by decide) (.ok (.null expected)) 4 _ (by decide)
  rw [if_neg hn, if_neg hn]
  by_cases ht : b = 0x74
  · rw [if_pos ht, if_pos ht]
    exact hword (lit "true") (by decide) (coerceBool text casts true expected) 4 _ (by decide)
  rw [if_neg ht, if_neg ht]
  by_cases hf : b = 0x66
  · rw [if_pos hf, if_pos hf]
    exact hword (lit "false") (by decide) (coerceBool text casts false expected) 5 _ (by decide)
  rw [if_neg hf, if_neg hf]
  by_cases hnumber : (b = 0x2D || isDigit b) = true
  · rw [if_pos hnumber, if_pos hnumber]
    have htake := takeWhile_number (b :: m)
    rw [List.cons_append] at htake
    rw [htake]
    exact sameBefore_advance _ (List.takeWhile_prefix _).length_le p
  · rw [if_neg hnumber, if_neg hnumber]
    exact .error

/-- A string ends where its closing quote is. -/
theorem body_unique {e e' r r' : Bytes} (he : Body e) (he' : Body e') (h : e ++ 0x22 :: r = e' ++ 0x22 :: r') :
    e = e' ∧ r = r' := by
  have hscan := scanString_body he r
  rw [h, scanString_body he' r'] at hscan
  obtain rfl := Option.some.inj hscan
  exact ⟨List.append_cancel_right h, rfl⟩

theorem readChars_behind {e out r r' : Bytes} (he : Body e) (h : readChars (e ++ 0x22 :: r) = .ok (out, r')) :
    r' = r ∧ ∀ s, readChars (e ++ 0x22 :: s) = .ok (out, s) := by
  obtain ⟨e', he', hsplit, hall⟩ := readChars_eq_ok h
  obtain ⟨rfl, rfl⟩ := body_unique he he' hsplit
  exact ⟨rfl, hall⟩

theorem parseString_text {e : Bytes} (p : Nat) (r : Bytes) : parseString ⟨p, 0x22 :: (e ++ 0x22 :: r)⟩ =
    readChars (e ++ 0x22 :: r) >>= fun a => .ok (a.1, (⟨p, 0x22 :: (e ++ 0x22 :: r)⟩ : Cursor).goto a.2) := by
  rw [parseString, skipWhitespace_cons (by decide)]
  rfl

theorem sameBefore_parseString {e : Bytes} (he : Body e) (p : Nat) :
    SameBefore [0x5D] (parseString (.start (0x22 :: e ++ [0x22])))
      (parseString ⟨p, 0x22 :: e ++ [0x22] ++ [0x5D]⟩) := by
  have hshape : 0x22 :: e ++ [0x22] ++ [0x5D] = 0x22 :: (e ++ [0x22, 0x5D]) := by simp
  rw [hshape, Cursor.start, List.cons_append, parseString_text, parseString_text]
  cases hread : readChars (e ++ [0x22]) with
  | error error =>
      cases hread' : readChars (e ++ [0x22, 0x5D]) with
      | error error' => exact .error
      | ok a =>
          have hok := (readChars_behind he hread').2 []
          cases hread.symm.trans hok
  | ok a =>
      obtain ⟨hnil, hall⟩ := readChars_behind he hread
      rw [hall [0x5D], ok_bind, ok_bind]
      refine .of_ok ?_
      rw [Cursor.goto_rest, Cursor.goto_rest, hnil]
      rfl

theorem sameBefore_string {e : Bytes} (he : Body e) (expected : LogicalType) (p : Nat) :
    SameBefore [0x5D] (decodeOne text casts 1 (.start (0x22 :: e ++ [0x22])) expected)
      (decodeOne text casts 1 ⟨p, 0x22 :: e ++ [0x22] ++ [0x5D]⟩ expected) := by
  have hdecode : ∀ q s, decodeOne text casts 1 ⟨q, 0x22 :: s⟩ expected =
      parseString ⟨q, 0x22 :: s⟩ >>= fun a =>
        coerceJsonString text casts a.1 expected >>= fun v => .ok (v, a.2) := by
    intro q s
    rw [decodeOne, skipWhitespace_cons (by decide)]
    rfl
  have hsame := (sameBefore_parseString he p).bind fun s => coerceJsonString text casts s expected
  simp only [Cursor.start, List.cons_append, hdecode] at hsame ⊢
  exact hsame

end Leaves

/-! ## Wrappers -/

/-- The number of rounds makes no difference where it suffices. -/
theorem readItems_of_length_lt {σ : Type} {closeCh : UInt8} {item : σ → Cursor → Except Bytes (σ × Cursor)}
    (hshrinks : ∀ s, Shrinks (item s)) {n n' : Nat} {first : Bool} {s : σ} {c : Cursor} {r : σ × Cursor}
    (h : readItems closeCh item n first s c = .ok r) (hn : c.rest.length < n') :
    readItems closeCh item n' first s c = .ok r := by
  induction n generalizing n' first s c with
  | zero => exact nomatch h
  | succ n ih =>
      obtain ⟨n', rfl⟩ := Nat.exists_eq_add_one_of_ne_zero (Nat.ne_zero_of_lt hn)
      rw [readItems_succ] at h ⊢
      by_cases hend : (skipWhitespace c).rest.head? = some closeCh
      · rw [if_pos hend] at h ⊢
        exact h
      · rw [if_neg hend] at h ⊢
        obtain ⟨d, hstart, h⟩ := bind_eq_ok.mp h
        obtain ⟨⟨s₁, c₁⟩, hread, h⟩ := bind_eq_ok.mp h
        have hle := length_itemStart hstart
        have hshorter := hshrinks s d s₁ c₁ hread
        refine bind_eq_ok.mpr ⟨d, hstart, bind_eq_ok.mpr ⟨_, hread, ih h ?_⟩⟩
        show c₁.rest.length < n'
        omega

theorem sameBefore_wrapperLoop (p p' : Nat) (s : Bytes) :
    SameBefore [0x5D] (readAll 0x7D wrapperMember {} ⟨p, s⟩)
      (readAll 0x7D wrapperMember {} ⟨p', s ++ [0x5D]⟩) := by
  have hshrinks : ∀ w, Shrinks (wrapperMember w) := fun w => (reads_wrapperMember w).shrinks
  cases hread : readAll 0x7D wrapperMember {} ⟨p, s⟩ with
  | ok a =>
      obtain ⟨w, c⟩ := a
      obtain ⟨m, rfl, hall⟩ := reads_readItems (Or.inr rfl) reads_wrapperMember hread
      obtain ⟨q, hq⟩ := hall p' (c.rest ++ [0x5D])
      have hmore := readItems_of_length_lt hshrinks hq (Nat.lt_succ_self _)
      have hshape : m ++ 0x7D :: c.rest ++ [0x5D] = m ++ 0x7D :: (c.rest ++ [0x5D]) := by simp
      rw [hshape, readAll, hmore]
      exact .of_ok rfl
  | error e =>
      cases hread' : readAll 0x7D wrapperMember {} ⟨p', s ++ [0x5D]⟩ with
      | error e' => exact .error
      | ok a =>
          obtain ⟨w, c⟩ := a
          obtain ⟨m, hm, hall⟩ := reads_readItems (Or.inr rfl) reads_wrapperMember hread'
          rcases List.eq_nil_or_concat c.rest with hnil | ⟨r, x, hr⟩
          · rw [hnil] at hm
            exact absurd (List.append_inj_right' hm rfl) (by decide)
          · have hlast : s ++ [0x5D] = m ++ 0x7D :: r ++ [x] := by
              rw [hm, hr]
              simp
            have hs : s = m ++ 0x7D :: r := List.append_inj_left' hlast rfl
            obtain ⟨q, hq⟩ := hall p r
            have hless := readItems_of_length_lt hshrinks hq (Nat.lt_succ_self _)
            rw [readAll, hs] at hread
            cases hread.symm.trans hless

/-- What a wrapper's members come to. -/
def wrapperValue (casts : DuckCasts) (decode : Cursor → LogicalType → Except Bytes (Value × Cursor))
    (w : Wrapper) : Except Bytes Value :=
  match w.type, w.value with
  | none, _ => .error (lit "Mode B wrapper missing `type`")
  | some _, none => .error (lit "Mode B wrapper missing `value`")
  | some typeString, some raw =>
      match parseType casts.types typeString with
      | .error error =>
          .error (lit "Mode B `type` not recognized: " ++ typeString ++ lit " (" ++ error ++ lit ")")
      | .ok type => decode (.start raw) type >>= fun a => .ok a.1

theorem decodeTypedWrapper_text {casts : DuckCasts}
    (decode : Cursor → LogicalType → Except Bytes (Value × Cursor)) (p : Nat) (s : Bytes) :
    decodeTypedWrapper casts decode ⟨p, 0x7B :: s⟩ =
      readAll 0x7D wrapperMember {} ⟨p + 1, s⟩ >>= fun a =>
        wrapperValue casts decode a.1 >>= fun v => .ok (v, a.2) := by
  have hbrace : consumeChar 0x7B ⟨p, 0x7B :: s⟩ = .ok ⟨p + 1, s⟩ :=
    consumeChar_blank (w := []) (by decide) (by decide) p s
  rw [decodeTypedWrapper, hbrace, ok_bind]
  refine congrArg _ (funext fun a => ?_)
  obtain ⟨⟨type, value⟩, c⟩ := a
  cases type with
  | none => rfl
  | some typeString =>
      cases value with
      | none => rfl
      | some raw =>
          simp only [wrapperValue]
          cases parseType casts.types typeString with
          | error e => rfl
          | ok t =>
              simp only
              cases decode (.start raw) t with
              | error e => rfl
              | ok a => rfl

/-! ## Values -/

/-- A value is a string, a container with its brackets closed, or a literal. -/
theorem IsValueText.cases {J : Bytes} (h : IsValueText J) :
    (∃ e, Body e ∧ J = 0x22 :: e ++ [0x22]) ∨
      (∃ o c m, JsonBrackets o c ∧ J = o :: m ∧ scanBrackets o c 1 false m = some []) ∨
        ∃ b m, J = b :: m ∧ b ≠ 0x22 ∧ b ≠ 0x7B ∧ b ≠ 0x5B ∧ ∀ x ∈ J, endsLiteral x = false := by
  obtain ⟨c, hc⟩ := h
  obtain ⟨w, b, m, -, rfl, -, -, hall⟩ := parseRawValue_eq_ok hc
  have hscan := hall [] ended_nil
  rw [List.append_nil, scanValue] at hscan
  by_cases hquote : b = 0x22
  · subst hquote
    rw [if_pos rfl] at hscan
    cases hstring : scanString m with
    | none => simp [hstring] at hscan
    | some r =>
        obtain rfl : r = [] := by simpa [hstring] using hscan
        obtain ⟨e, he, rfl⟩ := scanString_eq_some hstring
        exact Or.inl ⟨e, he, rfl⟩
  · rw [if_neg hquote] at hscan
    by_cases hopen : b = 0x7B ∨ b = 0x5B
    · rw [if_pos hopen] at hscan
      have hoc : JsonBrackets b (if b = 0x7B then 0x7D else 0x5D) := by
        rcases hopen with rfl | rfl
        · exact Or.inl ⟨rfl, rfl⟩
        · exact Or.inr ⟨rfl, rfl⟩
      generalize (if b = 0x7B then 0x7D else 0x5D : UInt8) = closeCh at hoc hscan
      rw [scanBrackets_open hoc] at hscan
      cases hclosed : scanBrackets b closeCh (0 + 1) false m with
      | none => simp [hclosed] at hscan
      | some r =>
          obtain rfl : r = [] := by simpa [hclosed] using hscan
          exact Or.inr (Or.inl ⟨b, closeCh, m, hoc, rfl, hclosed⟩)
    · rw [if_neg hopen] at hscan
      obtain ⟨hbrace, hbracket⟩ := not_or.mp hopen
      by_cases hend : endsLiteral b = true
      · rw [if_pos hend] at hscan
        cases hscan
      · rw [if_neg hend] at hscan
        refine Or.inr (Or.inr ⟨b, m, rfl, hquote, hbrace, hbracket, ?_⟩)
        have hdrop := List.dropWhile_eq_nil_iff.mp (Except.ok.inj hscan)
        intro x hx
        simpa using hdrop x hx

/-- One level further down the brackets close in the same way. -/
theorem scanBrackets_deeper {o c : UInt8} {depth : Nat} {q : Bool} {s r : Bytes}
    (h : scanBrackets o c depth q s = some r) (hdepth : 1 ≤ depth) (t : Bytes) :
    scanBrackets o c (depth + 1) q (s ++ t) = scanBrackets o c 1 false (r ++ t) := by
  fun_induction scanBrackets o c depth q s with
  | case1 => cases h
  | case2 => cases h
  | case3 depth b s ih =>
      rw [← ih h hdepth]
      rfl
  | case4 depth b s hslash ih =>
      rw [List.cons_append, scanBrackets_inString hslash, ih h hdepth]
  | case5 depth s ih =>
      rw [← ih h hdepth]
      rfl
  | case6 depth s hquote ih =>
      rw [List.cons_append, scanBrackets.eq_def]
      simp only [if_neg hquote, if_true]
      exact ih h (by omega)
  | case7 depth s hle hquote hopen =>
      obtain rfl := Option.some.inj h
      obtain rfl : depth = 1 := by omega
      rw [List.cons_append, scanBrackets.eq_def]
      simp [hquote, hopen]
  | case8 depth s hlt hquote hopen ih =>
      rw [List.cons_append, scanBrackets.eq_def]
      have hnot : ¬ depth + 1 ≤ 1 := by omega
      have hdepths : depth + 1 - 1 = depth - 1 + 1 := by omega
      simp only [if_neg hquote, if_neg hopen, if_true, if_neg hnot, hdepths]
      exact ih h (by omega)
  | case9 depth b s hquote hopen hclose ih =>
      rw [List.cons_append, scanBrackets_plain hquote hopen hclose, ih h hdepth]

section Modes

variable {text : DuckText} {casts : DuckCasts}

theorem decodeBody_of_head (decode : Cursor → LogicalType → Except Bytes (Value × Cursor)) {b : UInt8}
    (hws : isWs b = false) (p : Nat) (s : Bytes) (expected : LogicalType) :
    decodeBody text casts decode ⟨p, b :: s⟩ expected =
      if b = 0x7B then
        if looksTyped ⟨p, b :: s⟩ then decodeTypedWrapper casts decode ⟨p, b :: s⟩
        else decodeStruct text casts decode ⟨p, b :: s⟩ expected
      else if b = 0x5B then decodeArray text casts decode ⟨p, b :: s⟩ expected
      else decodeOne text casts 1 ⟨p, b :: s⟩ expected := by
  rw [decodeBody, skipWhitespace_cons hws]
  simp only [List.head?_cons, Option.some.injEq]

/-- At a type without children a call reads a value in the same way when a bracket stands behind it. -/
theorem sameBefore_decodeCall {J : Bytes} (hJ : IsValueText J) {T : LogicalType} (hT : T.hasChildren = false)
    (p : Nat) :
    SameBefore [0x5D] (decodeCall text casts (.start J, T)) (decodeCall text casts (⟨p, J ++ [0x5D]⟩, T)) := by
  have hraw := hJ.reads 0 ended_nil
  have hraw' := hJ.reads p (ended_cons (b := 0x5D) (by decide) [])
  rw [← decodeBody_decodeCall, ← decodeBody_decodeCall]
  rcases hJ.cases with ⟨e, he, rfl⟩ | ⟨o, c, m, hoc, rfl, -⟩ | ⟨b, m, rfl, hquote, hbrace, hbracket, -⟩
  · have hsame := @sameBefore_string text casts _ he T p
    simp only [Cursor.start, List.cons_append] at hsame ⊢
    rw [decodeBody_of_head _ (by decide), decodeBody_of_head _ (by decide)]
    exact hsame
  · rcases hoc with ⟨rfl, rfl⟩ | ⟨rfl, rfl⟩
    · have hlooks : looksTyped ⟨p, 0x7B :: (m ++ [0x5D])⟩ = looksTyped ⟨0, 0x7B :: m⟩ := by
        rw [List.append_nil] at hraw
        rw [looksTyped, looksTyped, hraw, ← List.cons_append, hraw']
      simp only [Cursor.start, List.cons_append]
      rw [decodeBody_of_head _ (by decide), decodeBody_of_head _ (by decide), if_pos rfl, if_pos rfl, hlooks]
      by_cases htyped : looksTyped ⟨0, 0x7B :: m⟩ = true
      · rw [if_pos htyped, if_pos htyped, decodeTypedWrapper_text, decodeTypedWrapper_text]
        exact (sameBefore_wrapperLoop 1 (p + 1) m).bind _
      · rw [if_neg htyped, if_neg htyped]
        cases T with
        | scalar | decimal | enum | other => exact .error
        | _ => cases hT
    · simp only [Cursor.start, List.cons_append]
      rw [decodeBody_of_head _ (by decide), decodeBody_of_head _ (by decide)]
      cases T with
      | scalar | decimal | enum | other => exact .error
      | _ => cases hT
  · obtain ⟨b', m', hsplit, hws⟩ := hJ.head
    obtain ⟨rfl, rfl⟩ := List.cons.inj hsplit
    have hsame := @sameBefore_literal text casts _ m hws hquote hbrace hbracket T p
    simp only [Cursor.start, List.cons_append] at hsame ⊢
    rw [decodeBody_of_head _ hws, decodeBody_of_head _ hws, if_neg hbrace, if_neg hbracket, if_neg hbrace,
      if_neg hbracket]
    exact hsame

/-- Neither a quote nor a brace. -/
def isBare (x : UInt8) : Bool := x != 0x22 && x != 0x7B && x != 0x7D

/-- What is read of a literal has no quote and no brace in it. -/
theorem read_of_literal {b : UInt8} {m : Bytes} (hws : isWs b = false) (hquote : b ≠ 0x22) (hbrace : b ≠ 0x7B)
    (hbracket : b ≠ 0x5B) {T : LogicalType} {v : Value} {c : Cursor}
    (h : decodeOne text casts 1 ⟨0, b :: m⟩ T = .ok (v, c)) :
    ∃ l, b :: m = l ++ c.rest ∧ ∀ x ∈ l, isBare x = true := by
  have hword : ∀ word : Bytes, (∀ x ∈ word, isBare x = true) → ∀ (x : Except Bytes Value) (n : Nat) (e : Bytes),
      n = word.length →
        (if startsWith (b :: m) word then x >>= fun v => .ok (v, (⟨0, b :: m⟩ : Cursor).advance n)
          else .error e) = .ok (v, c) → ∃ l, b :: m = l ++ c.rest ∧ ∀ x ∈ l, isBare x = true := by
    rintro word hplain x n e rfl h
    split_ifs at h with hstart
    obtain ⟨t, ht⟩ := startsWith_iff.mp hstart
    obtain ⟨w, -, h⟩ := bind_eq_ok.mp h
    obtain ⟨rfl, rfl⟩ := Prod.mk.inj (Except.ok.inj h)
    refine ⟨word, ?_, hplain⟩
    rw [Cursor.advance_rest, ht, List.drop_left]
  have hnumber : ∀ x, isNumberChar x = true → isBare x = true := forall_byte (by decide +kernel)
  rw [decodeOne, skipWhitespace_cons hws] at h
  simp only [if_neg hquote, if_neg hbrace, if_neg hbracket] at h
  by_cases hn : b = 0x6E
  · rw [if_pos hn] at h
    exact hword (lit "null") (by decide) (.ok (.null T)) 4 _ rfl h
  rw [if_neg hn] at h
  by_cases ht : b = 0x74
  · rw [if_pos ht] at h
    exact hword (lit "true") (by decide) _ 4 _ rfl h
  rw [if_neg ht] at h
  by_cases hf : b = 0x66
  · rw [if_pos hf] at h
    exact hword (lit "false") (by decide) _ 5 _ rfl h
  rw [if_neg hf] at h
  split_ifs at h
  obtain ⟨w, -, h⟩ := bind_eq_ok.mp h
  obtain ⟨rfl, rfl⟩ := Prod.mk.inj (Except.ok.inj h)
  refine ⟨(b :: m).takeWhile isNumberChar, ?_, fun x hx => hnumber x (List.mem_takeWhile_imp hx)⟩
  exact (List.prefix_iff_eq_append.mp (List.takeWhile_prefix isNumberChar)).symm

/-- A value that is read as a whole is closed in a wrapper. -/
theorem closed_of_decodeCall {J : Bytes} (hJ : IsValueText J) {T : LogicalType} (hT : T.hasChildren = false)
    {v : Value} {c : Cursor} (h : decodeCall text casts (.start J, T) = .ok (v, c))
    (hrest : skipWs c.rest = [] ∨ (skipWs c.rest).head? = some 0x5D) :
    (scanBrackets 0x7B 0x7D 1 false (J ++ [0x7D])).isSome = true := by
  have hclose : scanBrackets 0x7B 0x7D 1 false [0x7D] = some [] := rfl
  rcases hJ.cases with ⟨e, he, rfl⟩ | ⟨o, c', m, hoc, rfl, hclosed⟩ |
    ⟨b, m, rfl, hquote, hbrace, hbracket, hinside⟩
  · rw [skipped_string he _ _ (Nat.le_refl 1), hclose]
    rfl
  · rcases hoc with ⟨rfl, rfl⟩ | ⟨rfl, rfl⟩
    · rw [List.cons_append, scanBrackets_open (Or.inl ⟨rfl, rfl⟩), scanBrackets_deeper hclosed (Nat.le_refl 1)]
      rfl
    · rw [← decodeBody_decodeCall, Cursor.start, decodeBody_of_head _ (by decide)] at h
      cases T with
      | scalar | decimal | enum | other => cases h
      | _ => cases hT
  · obtain ⟨b', m', hsplit, hws⟩ := hJ.head
    obtain ⟨rfl, rfl⟩ := List.cons.inj hsplit
    rw [← decodeBody_decodeCall, Cursor.start, decodeBody_of_head _ hws, if_neg hbrace, if_neg hbracket] at h
    obtain ⟨l, hl, hplain⟩ := read_of_literal hws hquote hbrace hbracket h
    have hnil : c.rest = [] := by
      cases hc : c.rest with
      | nil => rfl
      | cons x r =>
          have hx : endsLiteral x = false := hinside x (by rw [hl, hc]; simp)
          simp only [endsLiteral, Bool.or_eq_false_iff, beq_eq_false_iff_ne] at hx
          have hskip : skipWs (x :: r) = x :: r := List.dropWhile_cons_of_neg (by simp [hx.2])
          rw [hc, hskip] at hrest
          rcases hrest with hnil | hbracket
          · cases hnil
          · exact absurd (Option.some.inj hbracket) hx.1.1.2
    rw [hl, hnil, List.append_nil, skipped_of_plain, hclose]
    · rfl
    · intro x hx
      have hx := hplain x hx
      simp only [isBare, Bool.and_eq_true, bne_iff_ne] at hx
      exact ⟨hx.1.1, hx.1.2, hx.2⟩
    · exact Nat.le_refl 1

/-- One value for one expected type: behind it the list is closed. -/
theorem decodeParams_value {J : Bytes} (hJ : IsValueText J) (T : LogicalType) :
    (decodeParams text casts (0x5B :: J ++ [0x5D]) [T]).toOption =
      (decodeCall text casts (⟨1, J ++ [0x5D]⟩, T)).toOption.bind fun r =>
        if (skipWs r.2.rest).head? = some 0x5D then some [r.1] else none := by
  obtain ⟨b, m, hm, hws⟩ := hJ.head
  have hclose : b ≠ 0x5D := by
    rintro rfl
    rcases hJ.cases with ⟨e, -, hquote⟩ | ⟨o, c, m', hoc, hopen, -⟩ | ⟨b', m', hb, -, -, -, hinside⟩
    · exact absurd (List.cons.inj (hm.symm.trans hquote)).1 (by decide)
    · have ho := (List.cons.inj (hm.symm.trans hopen)).1
      rcases hoc with ⟨rfl, -⟩ | ⟨rfl, -⟩ <;> exact absurd ho (by decide)
    · exact absurd (hinside 0x5D (by rw [hm]; exact List.mem_cons_self)) (by decide)
  rw [decodeParams_single hm hws hclose, toOption_bind]
  cases hread : decodeCall text casts (⟨1, J ++ [0x5D]⟩, T) with
  | error e =>
      have hfirst : [T].getD 0 .any = T := rfl
      rw [hfirst, hread]
      rfl
  | ok r =>
      have hfirst : [T].getD 0 .any = T := rfl
      rw [hfirst, hread, toOption_ok, Option.bind_some, Option.bind_some, readItems_succ]
      by_cases hend : (skipWs r.2.rest).head? = some 0x5D
      · have hend' : (skipWhitespace r.2).rest.head? = some 0x5D := hend
        rw [if_pos hend, if_pos hend']
        rfl
      · have hend' : ¬ (skipWhitespace r.2).rest.head? = some 0x5D := hend
        rw [if_neg hend, if_neg hend']
        cases itemStart false r.2 with
        | error e => rfl
        | ok d => rfl

theorem head_skipWs_append (q : Bytes) :
    (skipWs (q ++ [0x5D])).head? = some 0x5D ↔ skipWs q = [] ∨ (skipWs q).head? = some 0x5D := by
  obtain ⟨w, hw, hq⟩ := exists_blank q
  have hskip : skipWs (q ++ [0x5D]) = skipWs (skipWs q ++ [0x5D]) := by
    conv_lhs => rw [hq, List.append_assoc]
    exact List.dropWhile_append_of_pos hw
  cases hrest : skipWs q with
  | nil =>
      rw [hskip, hrest]
      exact iff_of_true rfl (Or.inl rfl)
  | cons b s =>
      have hb : isWs b = false := by
        have hfirst := List.head?_dropWhile_not isWs q
        rw [show q.dropWhile isWs = b :: s from hrest] at hfirst
        simpa using hfirst
      rw [hskip, hrest, List.cons_append, skipWs_cons hb]
      simp

/-- One typed wrapper, at the type that it names or at none. -/
theorem decodeParams_wrapper {typeJson ts J : Bytes} {T : LogicalType} (htype : IsStringText typeJson ts)
    (hvalue : IsValueText J) (hparse : parseType casts.types ts = .ok T) (hT : T.hasChildren = false)
    {expectedTypes : List LogicalType} (hexpected : expectedTypes = [] ∨ expectedTypes = [T]) :
    (decodeParams text casts (0x5B :: typedWrapper typeJson J ++ [0x5D]) expectedTypes).toOption =
      if looksTyped (.start (typedWrapper typeJson J)) then
        (decodeCall text casts (.start J, T)).toOption.map fun r => [r.1]
      else none := by
  by_cases hlooks : looksTyped (.start (typedWrapper typeJson J)) = true
  · have hcount : ¬ (expectedTypes ≠ [] ∧ 1 ≠ expectedTypes.length) := by
      rcases hexpected with rfl | rfl <;> simp
    rw [decodeParams_typedWrapper htype hvalue hparse hlooks, if_pos hlooks]
    simp only [if_neg hcount]
    exact toOption_map_ok _ _
  · obtain ⟨s, hs⟩ := typedWrapper_head typeJson J
    rw [decodeParams_single (b := 0x7B) hs (by decide) (by decide), decodeCall_typedWrapper htype, if_neg hlooks,
      if_neg hlooks]
    rcases hexpected with rfl | rfl
    · rfl
    · cases T with
      | scalar | decimal | enum | other => rfl
      | _ => cases hT

/-- The decoder of one value stops before the end of `J`, where the wrapper is at its end and a list is not. -/
def StopsInside (text : DuckText) (casts : DuckCasts) (typeJson J : Bytes) (T : LogicalType) : Prop :=
  looksTyped (.start (typedWrapper typeJson J)) = true ∧
    ∃ v c, decodeCall text casts (.start J, T) = .ok (v, c) ∧ skipWs c.rest ≠ [] ∧
      (skipWs c.rest).head? ≠ some 0x5D

/-- **When the two modes agree.** A value at a type without children and its typed wrapper are decoded to the
same value, or neither is accepted, exactly when nothing of the value is left behind in the wrapper. -/
theorem modes_agree_iff {typeJson ts J : Bytes} {T : LogicalType} (htype : IsStringText typeJson ts)
    (hvalue : IsValueText J) (hparse : parseType casts.types ts = .ok T) (hT : T.hasChildren = false)
    {expectedTypes : List LogicalType} (hexpected : expectedTypes = [] ∨ expectedTypes = [T]) :
    (decodeParams text casts (0x5B :: J ++ [0x5D]) [T]).toOption =
        (decodeParams text casts (0x5B :: typedWrapper typeJson J ++ [0x5D]) expectedTypes).toOption ↔
      ¬ StopsInside text casts typeJson J T := by
  have hlooks : (scanBrackets 0x7B 0x7D 1 false (J ++ [0x7D])).isSome = true →
      looksTyped (.start (typedWrapper typeJson J)) = true := by
    have halone := looksTyped_typedWrapper htype J 0 []
    rw [List.append_nil] at halone
    exact halone.trans
  rw [decodeParams_value hvalue, decodeParams_wrapper htype hvalue hparse hT hexpected]
  rcases sameBefore_iff.mp (@sameBefore_decodeCall text casts _ hvalue _ hT 1) with
    ⟨v, c, c', hread, hread', hc⟩ | ⟨e, e', hread, hread'⟩
  · rw [hread', hread, toOption_ok, toOption_ok, Option.bind_some, Option.map_some, hc]
    simp only [head_skipWs_append]
    by_cases hstop : skipWs c.rest = [] ∨ (skipWs c.rest).head? = some 0x5D
    · rw [if_pos hstop, if_pos (hlooks (closed_of_decodeCall hvalue hT hread hstop))]
      refine iff_of_true rfl ?_
      rintro ⟨-, w, d, hd, hne, hhead⟩
      obtain ⟨-, rfl⟩ := Prod.mk.inj (Except.ok.inj (hread.symm.trans hd))
      exact hstop.elim hne hhead
    · rw [if_neg hstop]
      by_cases htaken : looksTyped (.start (typedWrapper typeJson J)) = true
      · rw [if_pos htaken]
        obtain ⟨hne, hhead⟩ := not_or.mp hstop
        exact iff_of_false nofun (not_not_intro ⟨htaken, v, c, hread, hne, hhead⟩)
      · rw [if_neg htaken]
        exact iff_of_true rfl fun h => htaken h.1
  · rw [hread', hread]
    have hnone : ¬ StopsInside text casts typeJson J T := by
      rintro ⟨-, w, d, hd, -⟩
      exact nomatch hread.symm.trans hd
    by_cases htaken : looksTyped (.start (typedWrapper typeJson J)) = true
    · rw [if_pos htaken]
      exact iff_of_true rfl hnone
    · rw [if_neg htaken]
      exact iff_of_true rfl hnone

end Modes

/-- `[5]` and `[{"type": "INTEGER", "value": 5}]` -/
theorem modes_agree_iff_number :
    (decodeParams DuckText.numerals DuckCasts.simple (0x5B :: lit "5" ++ [0x5D]) [.scalar .integer]).toOption =
        (decodeParams DuckText.numerals DuckCasts.simple
          (0x5B :: typedWrapper (0x22 :: lit "INTEGER" ++ [0x22]) (lit "5") ++ [0x5D]) []).toOption ↔
      ¬ StopsInside DuckText.numerals DuckCasts.simple (0x22 :: lit "INTEGER" ++ [0x22]) (lit "5")
        (.scalar .integer) :=
  modes_agree_iff (isStringText_plain (s := lit "INTEGER") (by decide)) (by decide +kernel) rfl rfl (Or.inl rfl)

/-- `5abc` is no INTEGER in a list, and 5 in a wrapper. -/
theorem modes_disagree : ¬ ∀ (typeJson ts J : Bytes) (T : LogicalType),
    IsStringText typeJson ts → IsValueText J → parseType .documented ts = .ok T → T.hasChildren = false →
      (decodeParams DuckText.numerals DuckCasts.simple (0x5B :: J ++ [0x5D]) [T]).toOption =
        (decodeParams DuckText.numerals DuckCasts.simple
          (0x5B :: typedWrapper typeJson J ++ [0x5D]) []).toOption := by
  intro hall
  have hsame := hall (0x22 :: lit "INTEGER" ++ [0x22]) (lit "INTEGER") (lit "5abc") (.scalar .integer)
    (isStringText_plain (by decide)) (by decide +kernel) rfl rfl
  have hlist : (decodeParams DuckText.numerals DuckCasts.simple (0x5B :: lit "5abc" ++ [0x5D])
      [.scalar .integer]).toOption.isSome = false := by decide +kernel
  have hwrapper : (decodeParams DuckText.numerals DuckCasts.simple
      (0x5B :: typedWrapper (0x22 :: lit "INTEGER" ++ [0x22]) (lit "5abc") ++ [0x5D]) []).toOption.isSome = true := by
    decide +kernel
  rw [hsame, hwrapper] at hlist
  exact nomatch hlist

end Harbor.ParamDecoder
