import Harbor.Sql.ParamDecoder
import Harbor.Sql.StringReader
import Mathlib.Data.List.DropRight

set_option autoImplicit false

/-! # The extent of a value

`ParseRawValue` finds the end of a value without decoding it: it looks for the closing quote of a string,
for the bracket that closes a container, counting brackets of that one kind outside of strings, and for
the delimiter behind anything else. On the text of a value, whatever follows it, it takes exactly that
text (`parseRawValue_source`). The loop over a list reads one item after the other (`readAll_texts`).
-/

namespace Harbor

namespace ParamDecoder

open Json

/-! ## White space -/

theorem skipWhitespace_blank {w : Bytes} (hw : IsBlank w) (p : Nat) (s : Bytes) :
    skipWhitespace ⟨p, w ++ s⟩ = skipWhitespace ⟨p + w.length, s⟩ := by
  have hle : (skipWs s).length ≤ s.length := (List.dropWhile_suffix _).length_le
  simp only [skipWhitespace, Cursor.goto, hw.skipWs_append, List.length_append, Cursor.mk.injEq, and_true]
  omega

theorem skipWhitespace_value {w : Bytes} (hw : IsBlank w) {b : UInt8} (hb : isWs b = false) (p : Nat)
    (s : Bytes) : skipWhitespace ⟨p, w ++ b :: s⟩ = ⟨p + w.length, b :: s⟩ := by
  rw [skipWhitespace_blank hw, skipWhitespace_cons hb]

@[simp] theorem skipWhitespace_idem (c : Cursor) :
    skipWhitespace (skipWhitespace c) = skipWhitespace c := by
  have hskip : skipWs (skipWs c.rest) = skipWs c.rest := List.dropWhile_idempotent _ _
  simp [skipWhitespace, Cursor.goto, hskip]

/-- A function that starts with `SkipWhitespace`. -/
def Skips {α : Type} (f : Cursor → Except Bytes α) : Prop := ∀ c, f (skipWhitespace c) = f c

theorem skips_consumeChar (b : UInt8) : Skips (consumeChar b) := by
  intro c
  rw [consumeChar, consumeChar, skipWhitespace_idem]

theorem skips_parseString : Skips parseString := by
  intro c
  rw [parseString, parseString, skipWhitespace_idem]

theorem skips_parseRawValue : Skips parseRawValue := by
  intro c
  rw [parseRawValue, parseRawValue, skipWhitespace_idem]

theorem Skips.blank {α : Type} {f : Cursor → Except Bytes α} (hf : Skips f) {w : Bytes} (hw : IsBlank w)
    (p : Nat) (s : Bytes) : f ⟨p, w ++ s⟩ = f ⟨p + w.length, s⟩ := by
  rw [← hf, skipWhitespace_blank hw, hf]

theorem consumeChar_blank {b : UInt8} (hb : isWs b = false) {w : Bytes} (hw : IsBlank w) (p : Nat)
    (s : Bytes) : consumeChar b ⟨p, w ++ b :: s⟩ = .ok ⟨p + w.length + 1, s⟩ := by
  rw [(skips_consumeChar b).blank hw, consumeChar, skipWhitespace_cons hb]
  exact if_pos rfl

/-- Another byte is refused. -/
theorem consumeChar_ne {b c : UInt8} (hb : isWs b = false) (hne : b ≠ c) {w : Bytes} (hw : IsBlank w)
    (p : Nat) (s : Bytes) : (consumeChar c ⟨p, w ++ b :: s⟩).toOption = none := by
  rw [consumeChar, skipWhitespace_value hw hb]
  simp only [List.head?_cons, Option.some.injEq, if_neg hne]
  rfl

/-! ## Brackets -/

/-- The scan for a bracket passes over the text. -/
def Skipped (openCh closeCh : UInt8) (s : Bytes) : Prop := ∀ depth rest, 1 ≤ depth →
  scanBrackets openCh closeCh depth false (s ++ rest) = scanBrackets openCh closeCh depth false rest

/-- The brackets of objects or of arrays. -/
def JsonBrackets (o c : UInt8) : Prop := (o = 0x7B ∧ c = 0x7D) ∨ (o = 0x5B ∧ c = 0x5D)

section Brackets

variable {o c : UInt8}

theorem Skipped.append {s t : Bytes} (hs : Skipped o c s) (ht : Skipped o c t) :
    Skipped o c (s ++ t) := by
  intro depth rest hdepth
  rw [List.append_assoc, hs _ _ hdepth, ht _ _ hdepth]

theorem scanBrackets_plain {b : UInt8} (hquote : b ≠ 0x22) (ho : b ≠ o) (hc : b ≠ c) (depth : Nat)
    (s : Bytes) : scanBrackets o c depth false (b :: s) = scanBrackets o c depth false s := by
  rw [scanBrackets.eq_def]
  simp only [if_neg hquote, if_neg ho, if_neg hc]

theorem skipped_of_plain {s : Bytes} (h : ∀ b ∈ s, b ≠ 0x22 ∧ b ≠ o ∧ b ≠ c) : Skipped o c s := by
  intro depth rest _
  induction s with
  | nil => rfl
  | cons b s ih =>
      obtain ⟨hquote, ho, hc⟩ := h b (by simp)
      rw [List.cons_append, scanBrackets_plain hquote ho hc, ih fun b hb => h b (by simp [hb])]

theorem scanBrackets_inString {b : UInt8} (hslash : b ≠ 0x5C) (depth : Nat) (s : Bytes) :
    scanBrackets o c depth true (b :: s) = scanBrackets o c depth (b ≠ 0x22) s := by
  rw [scanBrackets.eq_def]
  simp only [if_neg hslash]

theorem scanBrackets_body (depth : Nat) {e : Bytes} (he : Body e) (rest : Bytes) :
    scanBrackets o c depth true (e ++ 0x22 :: rest) = scanBrackets o c depth false rest := by
  induction he with
  | nil => exact scanBrackets_inString (by decide) depth rest
  | plain hquote hslash _ ih =>
      rw [List.cons_append, scanBrackets_inString hslash, decide_eq_true hquote, ih]
  | escape b _ ih =>
      rw [List.cons_append, List.cons_append, scanBrackets.eq_def]
      exact ih

theorem skipped_string {e : Bytes} (he : Body e) : Skipped o c (0x22 :: e ++ [0x22]) := by
  intro depth rest _
  have hshape : 0x22 :: e ++ [0x22] ++ rest = 0x22 :: (e ++ 0x22 :: rest) := by simp
  rw [hshape, scanBrackets.eq_def]
  exact scanBrackets_body depth he rest

/-- Behind an opening bracket the depth is one more, at its closing one it is what it was. -/
theorem scanBrackets_open (hoc : JsonBrackets o c) (depth : Nat) (s : Bytes) :
    scanBrackets o c depth false (o :: s) = scanBrackets o c (depth + 1) false s := by
  have hquote : o ≠ 0x22 := by rcases hoc with ⟨rfl, rfl⟩ | ⟨rfl, rfl⟩ <;> decide
  rw [scanBrackets.eq_def]
  simp only [if_neg hquote, if_true]

theorem scanBrackets_close (hoc : JsonBrackets o c) (depth : Nat) (s : Bytes) :
    scanBrackets o c depth false (c :: s) =
      if depth ≤ 1 then some s else scanBrackets o c (depth - 1) false s := by
  have hne : c ≠ 0x22 ∧ c ≠ o := by
    rcases hoc with ⟨rfl, rfl⟩ | ⟨rfl, rfl⟩ <;> decide
  rw [scanBrackets.eq_def]
  simp only [if_neg hne.1, if_neg hne.2, if_true]

/-- A container is passed over, whichever of the two kinds of brackets is counted. -/
theorem skipped_container {o' c' : UInt8} (hoc : JsonBrackets o c) (hoc' : JsonBrackets o' c')
    {s : Bytes} (h : Skipped o c s) : Skipped o c (o' :: s ++ [c']) := by
  by_cases hsame : o' = o
  · obtain rfl : c' = c := by
      rcases hoc with ⟨rfl, rfl⟩ | ⟨rfl, rfl⟩ <;> rcases hoc' with ⟨rfl, rfl⟩ | ⟨rfl, rfl⟩ <;>
        first | rfl | exact absurd hsame (by decide)
    subst hsame
    intro depth rest hdepth
    rw [List.cons_append, List.cons_append, scanBrackets_open hoc, List.append_assoc,
      h _ _ (by omega), List.singleton_append, scanBrackets_close hoc, if_neg (by omega),
      Nat.add_sub_cancel]
  · have hplain : (o' ≠ 0x22 ∧ o' ≠ o ∧ o' ≠ c) ∧ c' ≠ 0x22 ∧ c' ≠ o ∧ c' ≠ c := by
      rcases hoc with ⟨rfl, rfl⟩ | ⟨rfl, rfl⟩ <;> rcases hoc' with ⟨rfl, rfl⟩ | ⟨rfl, rfl⟩ <;>
        first | decide | exact absurd rfl hsame
    have ho : Skipped o c [o'] := skipped_of_plain (by simpa using hplain.1)
    have hc : Skipped o c [c'] := skipped_of_plain (by simpa using hplain.2)
    exact (ho.append h).append hc

theorem skipped_intercalate (hoc : JsonBrackets o c) {ts : List Bytes} (h : ∀ t ∈ ts, Skipped o c t) :
    Skipped o c ([0x2C].intercalate ts) := by
  have hcomma : Skipped o c [0x2C] := by
    refine skipped_of_plain ?_
    rcases hoc with ⟨rfl, rfl⟩ | ⟨rfl, rfl⟩ <;> decide
  induction ts with
  | nil => exact skipped_of_plain (by simp)
  | cons t ts ih =>
      have ht := h t (by simp)
      have hrest := ih fun u hu => h u (by simp [hu])
      cases ts with
      | nil => simpa using ht
      | cons u ts =>
          rw [List.intercalate_cons_cons]
          exact (ht.append hcomma).append hrest

theorem skipped_blank (hoc : JsonBrackets o c) {w : Bytes} (hw : IsBlank w) : Skipped o c w := by
  refine skipped_of_plain fun b hb => ?_
  have hws := hw b hb
  rcases hoc with ⟨rfl, rfl⟩ | ⟨rfl, rfl⟩ <;> grind [isWs]

theorem skipped_items (hoc : JsonBrackets o c) {blank : Bytes} (hblank : IsBlank blank)
    {xs : List (Item Source)} (hxs : ∀ x ∈ xs, x.Ok) (h : ∀ x ∈ xs, Skipped o c x.value.text) :
    Skipped o c (blank ++ [0x2C].intercalate (Source.itemTexts xs)) := by
  rw [Source.itemTexts_eq]
  refine (skipped_blank hoc hblank).append (skipped_intercalate hoc fun t ht => ?_)
  obtain ⟨x, hx, rfl⟩ := List.mem_map.mp ht
  have hbefore := skipped_blank hoc (hxs x hx).1
  rw [Source.itemText_eq]
  exact (hbefore.append (h x hx)).append (skipped_blank hoc (hxs x hx).2)

theorem skipped_members (hoc : JsonBrackets o c) {blank : Bytes} (hblank : IsBlank blank)
    {ms : List (Member Source)} (hms : ∀ m ∈ ms, m.Ok) (h : ∀ m ∈ ms, Skipped o c m.value.text) :
    Skipped o c (blank ++ [0x2C].intercalate (Source.memberTexts ms)) := by
  rw [Source.memberTexts_eq]
  refine (skipped_blank hoc hblank).append (skipped_intercalate hoc fun t ht => ?_)
  obtain ⟨m, hm, rfl⟩ := List.mem_map.mp ht
  have hcolon : Skipped o c [0x3A] :=
    skipped_of_plain (by rcases hoc with ⟨rfl, rfl⟩ | ⟨rfl, rfl⟩ <;> decide)
  have hkey : Skipped o c (quoted m.key) := skipped_string (body_spell (hms m hm).key)
  have hname := ((skipped_blank hoc (hms m hm).before).append hkey).append
    (skipped_blank hoc (hms m hm).beforeColon)
  have hvalue := (hcolon.append (skipped_blank hoc (hms m hm).afterColon)).append (h m hm)
  rw [Source.memberText_eq]
  simpa using (hname.append hvalue).append (skipped_blank hoc (hms m hm).after)

/-- **The scan for a bracket passes over every value.** -/
theorem skipped_source (hoc : JsonBrackets o c) {x : Source} (hx : x.Ok) : Skipped o c x.text := by
  induction hx with
  | null => exact skipped_of_plain (by rcases hoc with ⟨rfl, rfl⟩ | ⟨rfl, rfl⟩ <;> decide)
  | bool b =>
      refine skipped_of_plain ?_
      rcases hoc with ⟨rfl, rfl⟩ | ⟨rfl, rfl⟩ <;> cases b <;> decide
  | num hl =>
      refine skipped_of_plain fun b hb => ?_
      have hbyte := hl.isNumberByte b hb
      rcases hoc with ⟨rfl, rfl⟩ | ⟨rfl, rfl⟩ <;> grind [isNumberByte, Bytes.isDigit]
  | str hps => exact skipped_string (body_spell hps)
  | arr hblank hxs _ ih => exact skipped_container hoc (Or.inr ⟨rfl, rfl⟩) (skipped_items hoc hblank hxs ih)
  | obj hblank hms _ ih =>
      exact skipped_container hoc (Or.inl ⟨rfl, rfl⟩) (skipped_members hoc hblank hms ih)

end Brackets

/-! ## The extent of a text -/

theorem dropWhile_of_ended {rest : Bytes} (h : Ended rest) :
    rest.dropWhile (fun b => !endsLiteral b) = rest := by
  cases rest with
  | nil => rfl
  | cons b rest =>
      have hb : endsLiteral b = true := by
        rcases h b rfl with rfl | rfl | rfl | hws
        · rfl
        · rfl
        · rfl
        · simp [endsLiteral, hws]
      simp [hb]

/-- A literal or a number ends where what may follow it starts. -/
theorem scanValue_literal {l rest : Bytes} (hne : l ≠ [])
    (hl : ∀ b ∈ l, endsLiteral b = false ∧ b ≠ 0x22 ∧ b ≠ 0x7B ∧ b ≠ 0x5B) (h : Ended rest) :
    scanValue (l ++ rest) = .ok rest := by
  cases l with
  | nil => exact absurd rfl hne
  | cons b l =>
      obtain ⟨hend, hquote, hbrace, hbracket⟩ := hl b (by simp)
      have hdrop : (b :: l ++ rest).dropWhile (fun b => !endsLiteral b) = rest := by
        rw [List.dropWhile_append_of_pos fun b hb => by rw [(hl b hb).1]; rfl]
        exact dropWhile_of_ended h
      rw [List.cons_append] at hdrop ⊢
      rw [scanValue]
      simp only [if_neg hquote, hbrace, hbracket, or_self, if_false, hend, Bool.false_eq_true, hdrop]

theorem scanValue_container {o c : UInt8} (hoc : JsonBrackets o c) {s rest : Bytes}
    (h : Skipped o c s) : scanValue (o :: s ++ [c] ++ rest) = .ok rest := by
  have hscan : scanBrackets o c 0 false (o :: (s ++ c :: rest)) = some rest := by
    rw [scanBrackets_open hoc, h _ _ (by omega), scanBrackets_close hoc, if_pos (by omega)]
  have hassoc : o :: s ++ [c] ++ rest = o :: (s ++ c :: rest) := by simp
  rw [hassoc, scanValue.eq_def]
  rcases hoc with ⟨rfl, rfl⟩ | ⟨rfl, rfl⟩
  · simp only [if_neg (show ¬ (0x7B : UInt8) = 0x22 by decide), true_or, if_true, hscan]
  · have hclose : (if (0x5B : UInt8) = 0x7B then (0x7D : UInt8) else 0x5D) = 0x5D := rfl
    simp only [if_neg (show ¬ (0x5B : UInt8) = 0x22 by decide), or_true, if_true, hclose, hscan]

theorem numberByte_inside (b : UInt8) : isNumberByte b = true →
    endsLiteral b = false ∧ b ≠ 0x22 ∧ b ≠ 0x7B ∧ b ≠ 0x5B :=
  forall_byte (P := fun b => isNumberByte b = true →
    endsLiteral b = false ∧ b ≠ 0x22 ∧ b ≠ 0x7B ∧ b ≠ 0x5B) (by decide +kernel) b

/-- The scan for the end of a value stops behind its text. -/
theorem scanValue_source {x : Source} (hx : x.Ok) {rest : Bytes} (h : Ended rest) :
    scanValue (x.text ++ rest) = .ok rest := by
  cases hx with
  | null => exact scanValue_literal (by decide) (by decide) h
  | bool b =>
      cases b with
      | false => exact scanValue_literal (by decide) (by decide) h
      | true => exact scanValue_literal (by decide) (by decide) h
  | num hl =>
      obtain ⟨b, s, rfl, -⟩ := hl.head
      exact scanValue_literal (List.cons_ne_nil b s)
        (fun x hx => numberByte_inside x (hl.isNumberByte x hx)) h
  | @str ps hps =>
      have hshape : (Source.str ps).text ++ rest = 0x22 :: (spell ps ++ 0x22 :: rest) := by
        simp [Source.text, quoted]
      rw [hshape, scanValue, if_pos rfl, scanString_body (body_spell hps)]
  | arr hblank hxs hvalues =>
      have hoc : JsonBrackets 0x5B 0x5D := Or.inr ⟨rfl, rfl⟩
      exact scanValue_container hoc
        (skipped_items hoc hblank hxs fun x hx => skipped_source hoc (hvalues x hx))
  | obj hblank hms hvalues =>
      have hoc : JsonBrackets 0x7B 0x7D := Or.inl ⟨rfl, rfl⟩
      exact scanValue_container hoc
        (skipped_members hoc hblank hms fun m hm => skipped_source hoc (hvalues m hm))

/-- **`ParseRawValue` takes exactly the text of the value.** -/
theorem parseRawValue_source {x : Source} (hx : x.Ok) {rest : Bytes} (h : Ended rest) (p : Nat) :
    parseRawValue ⟨p, x.text ++ rest⟩ = .ok (x.text, ⟨p + x.text.length, rest⟩) := by
  have hscan := scanValue_source hx h
  obtain ⟨b, s, htext, hb, -⟩ := hx.head
  rw [htext] at hscan ⊢
  exact parseRawValue_of_scan hb hscan p

/-! ## Lists -/

section Items

variable {σ τ : Type} {closeCh : UInt8} {item : σ → Cursor → Except Bytes (σ × Cursor)}
  {step : σ → τ → Option σ} {text : τ → Bytes}

/-- `item` reads the text of `x` as `step` says. The white space at its end may be left to the loop. -/
structure ReadsItem (closeCh : UInt8) (item : σ → Cursor → Except Bytes (σ × Cursor))
    (step : σ → τ → Option σ) (text : τ → Bytes) (x : τ) : Prop where
  head : ∃ w b t, text x = w ++ b :: t ∧ IsBlank w ∧ isWs b = false ∧ b ≠ closeCh
  reads : ∀ s p rest, Ended rest →
    ((item s ⟨p, text x ++ rest⟩).toOption.map fun r => (r.1, skipWhitespace r.2)) =
      (step s x).map fun s => (s, skipWhitespace ⟨p + (text x).length, rest⟩)

theorem ReadsItem.none {x : τ} (h : ReadsItem closeCh item step text x) {s : σ} (hs : step s x = none)
    (p : Nat) {rest : Bytes} (hrest : Ended rest) : (item s ⟨p, text x ++ rest⟩).toOption = none := by
  have hread := h.reads s p rest hrest
  rw [hs] at hread
  simpa using hread

theorem ReadsItem.some {x : τ} (h : ReadsItem closeCh item step text x) {s s' : σ}
    (hs : step s x = some s') (p : Nat) {rest : Bytes} (hrest : Ended rest) :
    ∃ c, item s ⟨p, text x ++ rest⟩ = .ok (s', c) ∧
      skipWhitespace c = skipWhitespace ⟨p + (text x).length, rest⟩ := by
  have hread := h.reads s p rest hrest
  rw [hs] at hread
  simp only [Option.map_some, Option.map_eq_some_iff, Prod.mk.injEq] at hread
  obtain ⟨⟨t, c⟩, hitem, rfl, hc⟩ := hread
  exact ⟨c, toOption_eq_some.mp hitem, hc⟩

/-- The loop starts with `SkipWhitespace`. -/
theorem readItems_congr (n : Nat) (first : Bool) (s : σ) {c c' : Cursor}
    (h : skipWhitespace c = skipWhitespace c') :
    readItems closeCh item n first s c = readItems closeCh item n first s c' := by
  cases n with
  | zero => rfl
  | succ n => rw [readItems, readItems, h]

theorem ended_items (text : τ → Bytes) (hclose : closeCh = 0x5D ∨ closeCh = 0x7D) (xs : List τ)
    (rest : Bytes) : Ended (xs.flatMap (fun x => 0x2C :: text x) ++ closeCh :: rest) := by
  cases xs with
  | nil =>
      refine ended_cons ?_ rest
      rcases hclose with rfl | rfl <;> decide
  | cons y ys => exact ended_cons (Or.inl rfl) _

theorem readItems_close (hws : isWs closeCh = false) (n : Nat) (first : Bool) (s : σ) (p : Nat)
    (rest : Bytes) :
    readItems closeCh item (n + 1) first s ⟨p, closeCh :: rest⟩ = .ok (s, ⟨p + 1, rest⟩) := by
  rw [readItems, skipWhitespace_cons hws]
  exact if_pos rfl

theorem readItems_comma (hne : closeCh ≠ 0x2C) (n : Nat) (s : σ) (p : Nat) (rest : Bytes) :
    readItems closeCh item (n + 1) false s ⟨p, 0x2C :: rest⟩ =
      (item s ⟨p + 1, rest⟩ >>= fun r => readItems closeCh item n false r.1 r.2) := by
  have hhead : ¬ Option.some (0x2C : UInt8) = Option.some closeCh := fun h => hne (Option.some.inj h).symm
  rw [readItems, skipWhitespace_cons (by decide)]
  simp only [List.head?_cons, if_neg hhead, Bool.false_eq_true, if_false]
  rw [consumeChar, skipWhitespace_cons (by decide)]
  rfl

theorem readItems_first {c : Cursor} (hne : (skipWhitespace c).rest.head? ≠ some closeCh) (n : Nat)
    (s : σ) : readItems closeCh item (n + 1) true s c =
      (item s (skipWhitespace c) >>= fun r => readItems closeCh item n false r.1 r.2) := by
  rw [readItems]
  simp only [if_neg hne, if_true]
  rfl

/-- One item, and the loop from there on. -/
theorem ReadsItem.bind {x : τ} (h : ReadsItem closeCh item step text x) (n : Nat) (s : σ) (p : Nat)
    {rest : Bytes} (hrest : Ended rest) :
    (item s ⟨p, text x ++ rest⟩ >>= fun r => readItems closeCh item n false r.1 r.2).toOption =
      (step s x).bind fun s => (readItems closeCh item n false s ⟨p + (text x).length, rest⟩).toOption := by
  rw [toOption_bind]
  cases hs : step s x with
  | none =>
      rw [h.none hs p hrest]
      rfl
  | some s' =>
      obtain ⟨c, hitem, hc⟩ := h.some hs p hrest
      rw [hitem]
      exact congrArg Except.toOption (readItems_congr n false s' hc)

/-- The items behind the first, each with a comma before it. -/
theorem readItems_texts (hclose : closeCh = 0x5D ∨ closeCh = 0x7D) {xs : List τ}
    (h : ∀ x ∈ xs, ReadsItem closeCh item step text x) (n : Nat) (hn : xs.length < n) (s : σ) (p : Nat)
    (rest : Bytes) :
    (readItems closeCh item n false s
        ⟨p, xs.flatMap (fun x => 0x2C :: text x) ++ closeCh :: rest⟩).toOption =
      (xs.foldlM step s).map fun s =>
        (s, ⟨p + (xs.flatMap fun x => 0x2C :: text x).length + 1, rest⟩) := by
  induction xs generalizing n s p with
  | nil =>
      have hws : isWs closeCh = false := by rcases hclose with rfl | rfl <;> rfl
      obtain ⟨n, rfl⟩ := Nat.exists_eq_add_one_of_ne_zero (Nat.ne_of_gt hn)
      rw [List.flatMap_nil, List.nil_append, readItems_close hws]
      rfl
  | cons x xs ih =>
      have hcomma : closeCh ≠ 0x2C := by rcases hclose with rfl | rfl <;> decide
      obtain ⟨n, rfl⟩ := Nat.exists_eq_add_one_of_ne_zero (Nat.ne_of_gt (Nat.zero_lt_of_lt hn))
      have hlen : xs.length < n := by simpa using hn
      rw [List.flatMap_cons, List.cons_append, List.cons_append, List.append_assoc,
        readItems_comma hcomma, (h x (by simp)).bind n s (p + 1) (ended_items text hclose xs rest),
        List.foldlM_cons]
      cases step s x with
      | none => rfl
      | some s' =>
          refine (ih (fun y hy => h y (by simp [hy])) n hlen s' _).trans ?_
          simp [Nat.add_assoc, Nat.add_comm, Nat.add_left_comm]

theorem length_le_flatMap (xs : List τ) :
    xs.length ≤ (xs.flatMap fun x => 0x2C :: text x).length := by
  induction xs with
  | nil => exact Nat.zero_le _
  | cons x xs ih =>
      rw [List.flatMap_cons, List.length_append, List.length_cons, List.length_cons]
      omega

/-- **A list is read item by item.** -/
theorem readAll_texts (hclose : closeCh = 0x5D ∨ closeCh = 0x7D) (hskips : ∀ s, Skips (item s))
    {xs : List τ} (h : ∀ x ∈ xs, ReadsItem closeCh item step text x) {blank : Bytes}
    (hblank : IsBlank blank) (s : σ) (p : Nat) (rest : Bytes) :
    (readAll closeCh item s ⟨p, blank ++ [0x2C].intercalate (xs.map text) ++ closeCh :: rest⟩).toOption =
      (xs.foldlM step s).map fun s =>
        (s, ⟨p + (blank ++ [0x2C].intercalate (xs.map text)).length + 1, rest⟩) := by
  have hws : isWs closeCh = false := by rcases hclose with rfl | rfl <;> rfl
  rw [readAll, List.append_assoc]
  cases xs with
  | nil =>
      rw [List.map_nil, List.intercalate_nil, List.nil_append, List.append_nil,
        readItems_congr _ _ _ (skipWhitespace_blank hblank p _), readItems_close hws]
      rfl
  | cons x xs =>
      have hx := h x (by simp)
      have hall : [0x2C].intercalate ((x :: xs).map text) =
          text x ++ xs.flatMap fun y => 0x2C :: text y := by
        rw [List.map_cons, Bytes.intercalate_cons, List.flatMap_map]
        rfl
      have hended := ended_items text hclose xs rest
      have hlen := @length_le_flatMap _ text xs
      -- the first item does not start with the closing bracket, so the list is not empty
      have hhead : (skipWhitespace ⟨p, blank ++ (text x ++
          (xs.flatMap (fun y => 0x2C :: text y) ++ closeCh :: rest))⟩).rest.head? ≠ some closeCh := by
        obtain ⟨w, b, t, htext, hw, hb, hne⟩ := hx.head
        rw [skipWhitespace_blank hblank, htext, List.append_assoc, List.cons_append,
          skipWhitespace_value hw hb]
        simpa using hne
      rw [hall, List.append_assoc, readItems_first hhead, hskips, (hskips s).blank hblank,
        hx.bind _ _ _ hended, List.foldlM_cons]
      cases step s x with
      | none => rfl
      | some s' =>
          refine (readItems_texts hclose (fun y hy => h y (by simp [hy])) _ ?_ s' _ rest).trans ?_
          · simp only [List.length_append, List.length_cons]
            omega
          · simp [Nat.add_assoc]

/-- The opening bracket, the items and the closing bracket. -/
theorem readContainer {openCh : UInt8} (hopen : isWs openCh = false)
    (hclose : closeCh = 0x5D ∨ closeCh = 0x7D) (hskips : ∀ s, Skips (item s)) {xs : List τ}
    (h : ∀ x ∈ xs, ReadsItem closeCh item step text x) {blank : Bytes} (hblank : IsBlank blank) (s : σ)
    (p : Nat) (rest : Bytes) {t : Bytes}
    (ht : t = openCh :: blank ++ [0x2C].intercalate (xs.map text) ++ [closeCh]) {α : Type}
    (k : σ × Cursor → Except Bytes α) :
    (consumeChar openCh ⟨p, t ++ rest⟩ >>= fun c => readAll closeCh item s c >>= k).toOption =
      (xs.foldlM step s).bind fun s => (k (s, ⟨p + t.length, rest⟩)).toOption := by
  have hshape : t ++ rest =
      openCh :: (blank ++ [0x2C].intercalate (xs.map text) ++ closeCh :: rest) := by
    simp [ht]
  have hlen : p + t.length =
      p + 1 + (blank ++ [0x2C].intercalate (xs.map text)).length + 1 := by
    simp only [ht, List.length_append, List.length_cons, List.length_nil]
    omega
  have hconsume := consumeChar_blank hopen (w := []) (by simp [IsBlank]) p
    (blank ++ [0x2C].intercalate (xs.map text) ++ closeCh :: rest)
  rw [List.nil_append, List.length_nil, Nat.add_zero] at hconsume
  rw [hshape, hconsume, hlen]
  refine (toOption_bind (readAll closeCh item s _) k).trans ?_
  rw [readAll_texts hclose hskips h hblank]
  cases xs.foldlM step s <;> rfl

end Items

/-! ## Members -/

/-- The name of a member, decoded. -/
def memberName (m : Member Source) : Bytes := m.key.flatMap decodePiece

theorem memberText_head {m : Member Source} (hm : m.Ok) :
    ∃ w b t, Source.memberText m = w ++ b :: t ∧ IsBlank w ∧ isWs b = false ∧ b ≠ 0x7D := by
  have htext : Source.memberText m = m.before ++ 0x22 :: (spell m.key ++ [0x22] ++ m.beforeColon ++
      0x3A :: m.afterColon ++ m.value.text ++ m.after) := by
    rw [Source.memberText_eq, quoted]
    simp only [List.append_assoc, List.cons_append]
  exact ⟨m.before, 0x22, _, htext, hm.before, by decide, by decide⟩

/-- The name and the colon of a member are read; what is left is its value between its white space. -/
theorem member_bind {m : Member Source} (hm : m.Ok) (p : Nat) (rest : Bytes) :
    ∃ q, q + m.afterColon.length + m.value.text.length + m.after.length =
        p + (Source.memberText m).length ∧
      ∀ {α : Type} (k : Bytes → Cursor → Except Bytes α),
        (parseString ⟨p, Source.memberText m ++ rest⟩ >>= fun r =>
            consumeChar 0x3A r.2 >>= fun c => k r.1 c) =
          k (memberName m) ⟨q, m.afterColon ++ (m.value.text ++ (m.after ++ rest))⟩ := by
  refine ⟨p + m.before.length + (quoted m.key).length + m.beforeColon.length + 1, ?_, fun k => ?_⟩
  · rw [Source.memberText_eq]
    simp only [List.length_append, List.length_cons]
    omega
  · rw [Source.memberText_eq]
    simp only [List.append_assoc, List.cons_append]
    rw [skips_parseString.blank hm.before, parseString_spell hm.key]
    refine Eq.trans (b := consumeChar 0x3A ⟨p + m.before.length + (quoted m.key).length,
      m.beforeColon ++ 0x3A :: (m.afterColon ++ (m.value.text ++ (m.after ++ rest)))⟩ >>=
        fun c => k (memberName m) c) rfl ?_
    rw [consumeChar_blank (by decide) hm.beforeColon]
    rfl

/-- The text of the value of a member. -/
theorem parseRawValue_member {m : Member Source} (hm : m.Ok) (hvalue : m.value.Ok) (q : Nat)
    {rest : Bytes} (h : Ended rest) :
    parseRawValue ⟨q, m.afterColon ++ (m.value.text ++ (m.after ++ rest))⟩ =
      .ok (m.value.text, ⟨q + m.afterColon.length + m.value.text.length, m.after ++ rest⟩) := by
  rw [skips_parseRawValue.blank hm.afterColon]
  exact parseRawValue_source hvalue (hm.after.ended h) _

end ParamDecoder

end Harbor
