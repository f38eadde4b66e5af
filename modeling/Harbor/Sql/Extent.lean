import Harbor.Sql.ReaderText

set_option autoImplicit false

/-! # What a reader reads

Where a function of the decoder succeeds it has read a start of its text, and it reads the same start
whatever follows it, as long as a literal at the end of it is not continued (`Reads`). So a text ends
where the decoder says it does, however it goes on.
-/

namespace Harbor.ParamDecoder

open Json

theorem exists_blank (s : Bytes) : ∃ w, IsBlank w ∧ s = w ++ skipWs s :=
  ⟨s.takeWhile isWs, fun _ hb => List.mem_takeWhile_imp hb, List.takeWhile_append_dropWhile.symm⟩

/-! ## Strings and brackets -/

/-- What was decoded, up to the closing quote. -/
theorem readChars_eq_ok {s out r : Bytes} (h : readChars s = .ok (out, r)) :
    ∃ e, Body e ∧ s = e ++ 0x22 :: r ∧ ∀ r', readChars (e ++ 0x22 :: r') = .ok (out, r') := by
  have hquote : ∀ {s out r : Bytes}, Except.ok (([] : Bytes), s) = (Except.ok (out, r) : Except Bytes _) →
      ∃ e, Body e ∧ 0x22 :: s = e ++ 0x22 :: r ∧ ∀ r', readChars (e ++ 0x22 :: r') = .ok (out, r') := by
    intro s out r h
    obtain ⟨rfl, rfl⟩ := Prod.mk.inj (Except.ok.inj h)
    exact ⟨[], .nil, rfl, readChars_quote⟩
  fun_induction readChars s generalizing out r with
  | case1 => cases h
  | case2 => exact hquote h
  | case3 => cases h
  | case4 => cases h
  | case5 esc s => exact hquote h
  | case6 => cases h
  | case7 h₁ h₂ h₃ h₄ s cp hhex hne ih =>
      obtain ⟨⟨out', r'⟩, hread, h⟩ := bind_eq_ok.mp h
      obtain ⟨rfl, rfl⟩ := Prod.mk.inj (Except.ok.inj h)
      obtain ⟨e, he, rfl, hall⟩ := ih hread
      have hplain := hexUnit_plain (a := h₁) (b := h₂) (c := h₃) (d := h₄) (by rw [hhex]; rfl)
      refine ⟨0x5C :: 0x75 :: h₁ :: h₂ :: h₃ :: h₄ :: e,
        .escape 0x75 (Body.append_plain (t := [h₁, h₂, h₃, h₄]) hplain he), rfl, fun r => ?_⟩
      rw [List.cons_append, List.cons_append, List.cons_append, List.cons_append, List.cons_append,
        List.cons_append, readChars_unicode hhex, hall]
      rfl
  | case8 => cases h
  | case9 => cases h
  | case10 esc s hu c hesc hne ih =>
      obtain ⟨⟨out', r'⟩, hread, h⟩ := bind_eq_ok.mp h
      obtain ⟨rfl, rfl⟩ := Prod.mk.inj (Except.ok.inj h)
      obtain ⟨e, he, rfl, hall⟩ := ih hread
      rw [simpleEscape_eq] at hesc
      refine ⟨0x5C :: esc :: e, .escape esc he, rfl, fun r => ?_⟩
      rw [List.cons_append, List.cons_append, readChars_escape hesc, hall]
      rfl
  | case11 b esc s hquote hslash ih =>
      obtain ⟨⟨out', r'⟩, hread, h⟩ := bind_eq_ok.mp h
      obtain ⟨rfl, rfl⟩ := Prod.mk.inj (Except.ok.inj h)
      obtain ⟨e, he, hs, hall⟩ := ih hread
      refine ⟨b :: e, .plain hquote hslash he, by rw [hs]; rfl, fun r => ?_⟩
      rw [List.cons_append, readChars_plain hquote hslash, hall]
      rfl

theorem scanString_eq_some {s r : Bytes} (h : scanString s = some r) : ∃ e, Body e ∧ s = e ++ 0x22 :: r := by
  fun_induction scanString s with
  | case1 => cases h
  | case2 =>
      obtain rfl := Option.some.inj h
      exact ⟨[], .nil, rfl⟩
  | case3 => cases h
  | case4 esc s ih =>
      obtain ⟨e, he, rfl⟩ := ih h
      exact ⟨0x5C :: esc :: e, .escape esc he, rfl⟩
  | case5 esc s hne =>
      obtain rfl := Option.some.inj h
      exact ⟨[], .nil, rfl⟩
  | case6 b esc s hslash hquote ih =>
      obtain ⟨e, he, hs⟩ := ih h
      exact ⟨b :: e, .plain hquote hslash he, by rw [hs]; rfl⟩

/-- The bracket that closes is the last byte that the scan looks at. -/
theorem scanBrackets_eq_some {o c : UInt8} {depth : Nat} {q : Bool} {s r : Bytes}
    (h : scanBrackets o c depth q s = some r) :
    ∃ m, s = m ++ c :: r ∧ ∀ r', scanBrackets o c depth q (m ++ c :: r') = some r' := by
  fun_induction scanBrackets o c depth q s with
  | case1 => cases h
  | case2 => cases h
  | case3 depth b s ih =>
      obtain ⟨m, rfl, hall⟩ := ih h
      exact ⟨0x5C :: b :: m, rfl, fun r' => by rw [← hall r']; rfl⟩
  | case4 depth b s hslash ih =>
      obtain ⟨m, rfl, hall⟩ := ih h
      exact ⟨b :: m, rfl, fun r' => by rw [List.cons_append, scanBrackets_inString hslash, hall]⟩
  | case5 depth s ih =>
      obtain ⟨m, rfl, hall⟩ := ih h
      exact ⟨0x22 :: m, rfl, fun r' => by rw [← hall r']; rfl⟩
  | case6 depth s hquote ih =>
      obtain ⟨m, rfl, hall⟩ := ih h
      refine ⟨o :: m, rfl, fun r' => ?_⟩
      rw [List.cons_append, scanBrackets.eq_def]
      simp only [if_neg hquote, if_true, hall]
  | case7 depth s hdepth hquote hopen =>
      obtain rfl := Option.some.inj h
      refine ⟨[], rfl, fun r' => ?_⟩
      rw [List.nil_append, scanBrackets.eq_def]
      simp only [if_neg hquote, if_neg hopen, if_true, if_pos hdepth]
  | case8 depth s hdepth hquote hopen ih =>
      obtain ⟨m, rfl, hall⟩ := ih h
      refine ⟨c :: m, rfl, fun r' => ?_⟩
      rw [List.cons_append, scanBrackets.eq_def]
      simp only [if_neg hquote, if_neg hopen, if_true, if_neg hdepth, hall]
  | case9 depth b s hquote hopen hclose ih =>
      obtain ⟨m, rfl, hall⟩ := ih h
      exact ⟨b :: m, rfl, fun r' => by rw [List.cons_append, scanBrackets_plain hquote hopen hclose, hall]⟩

/-- The text of a value, which is not empty; a literal ends where something may follow. -/
theorem scanValue_eq_ok {s r : Bytes} (h : scanValue s = .ok r) :
    ∃ b m, s = b :: m ++ r ∧ isWs b = false ∧ ∀ r', Ended r' → scanValue (b :: m ++ r') = .ok r' := by
  cases s with
  | nil => cases h
  | cons b s =>
      rw [scanValue] at h
      by_cases hquote : b = 0x22
      · rw [if_pos hquote] at h
        cases hscan : scanString s with
        | none => simp [hscan] at h
        | some rest =>
            obtain rfl : rest = r := by simpa [hscan] using h
            obtain ⟨e, he, rfl⟩ := scanString_eq_some hscan
            subst hquote
            refine ⟨0x22, e ++ [0x22], by simp, by decide, fun r' _ => ?_⟩
            rw [List.cons_append, List.append_assoc, scanValue, if_pos rfl, List.singleton_append,
              scanString_body he]
      · rw [if_neg hquote] at h
        by_cases hopen : b = 0x7B ∨ b = 0x5B
        · rw [if_pos hopen] at h
          cases hscan : scanBrackets b (if b = 0x7B then 0x7D else 0x5D) 0 false (b :: s) with
          | none => simp [hscan] at h
          | some rest =>
              obtain rfl : rest = r := by simpa [hscan] using h
              obtain ⟨m, hm, hall⟩ := scanBrackets_eq_some hscan
              -- the scan ends at a closing bracket, behind the opening one
              have hfirst : b ≠ if b = 0x7B then 0x7D else 0x5D := by
                rcases hopen with rfl | rfl <;> decide
              cases m with
              | nil => exact absurd (List.cons.inj hm).1 hfirst
              | cons b' m =>
                  obtain ⟨rfl, rfl⟩ := List.cons.inj hm
                  refine ⟨b, m ++ [if b = 0x7B then 0x7D else 0x5D], by simp, ?_, fun r' _ => ?_⟩
                  · rcases hopen with rfl | rfl <;> decide
                  · have hscan' := hall r'
                    have hshape : b :: (m ++ [if b = 0x7B then 0x7D else 0x5D]) ++ r' =
                        b :: (m ++ (if b = 0x7B then 0x7D else 0x5D) :: r') := by simp
                    rw [hshape, scanValue, if_neg hquote, if_pos hopen]
                    rw [List.cons_append] at hscan'
                    rw [hscan']
        · rw [if_neg hopen] at h
          by_cases hend : endsLiteral b = true
          · rw [if_pos hend] at h
            cases h
          · rw [if_neg hend] at h
            have hhead : (fun b => !endsLiteral b) b = true := by simpa using hend
            have hrest : s.dropWhile (fun b => !endsLiteral b) = r := by
              simpa [List.dropWhile_cons, hend] using h
            have hws : isWs b = false := by
              by_contra hws
              exact hend (by simp [endsLiteral, hws])
            refine ⟨b, s.takeWhile fun b => !endsLiteral b, ?_, hws, fun r' hr' => ?_⟩
            · rw [List.cons_append, ← hrest, List.takeWhile_append_dropWhile]
            · -- a literal extends to the next byte that ends one, whatever follows
              have hinside : ∀ x ∈ b :: s.takeWhile (fun b => !endsLiteral b), (!endsLiteral x) = true :=
                List.forall_mem_cons.mpr
                  ⟨hhead, fun x hx => List.mem_takeWhile_imp (p := fun b => !endsLiteral b) hx⟩
              have hdrop := @List.dropWhile_append_of_pos _ _ _ r' hinside
              rw [dropWhile_of_ended hr', List.cons_append] at hdrop
              rw [List.cons_append, scanValue, if_neg hquote, if_neg hopen, if_neg hend, hdrop]

/-! ## Readers -/

/-- Where the function succeeds it reads a start of the text, and it reads the same start before everything
that may follow. -/
def Reads {α : Type} (mayFollow : Bytes → Prop) (f : Cursor → Except Bytes (α × Cursor)) : Prop :=
  ∀ p s a c, f ⟨p, s⟩ = .ok (a, c) →
    ∃ m, m ≠ [] ∧ s = m ++ c.rest ∧ ∀ p' r, mayFollow r → ∃ q, f ⟨p', m ++ r⟩ = .ok (a, ⟨q, r⟩)

theorem consumeChar_eq_ok {b : UInt8} {p : Nat} {s : Bytes} {c : Cursor} (h : consumeChar b ⟨p, s⟩ = .ok c) :
    ∃ w, IsBlank w ∧ s = w ++ b :: c.rest := by
  obtain ⟨w, hw, hs⟩ := exists_blank s
  rw [consumeChar] at h
  by_cases hhead : (skipWhitespace ⟨p, s⟩).rest.head? = some b
  · simp only [hhead, if_true] at h
    obtain rfl := Except.ok.inj h
    refine ⟨w, hw, ?_⟩
    obtain ⟨t, ht⟩ := List.head?_eq_some_iff.mp hhead
    have hskip : skipWs s = b :: t := ht
    rw [Cursor.advance_rest, ht]
    rw [hskip] at hs
    exact hs
  · simp only [hhead, if_false] at h
    cases h

theorem parseString_eq_ok {p : Nat} {s t : Bytes} {c : Cursor} (h : parseString ⟨p, s⟩ = .ok (t, c)) :
    ∃ w e, IsBlank w ∧ Body e ∧ s = w ++ (0x22 :: e ++ [0x22]) ++ c.rest ∧
      ∀ r, readChars (e ++ 0x22 :: r) = .ok (t, r) := by
  obtain ⟨w, hw, hs⟩ := exists_blank s
  have hskip : (skipWhitespace ⟨p, s⟩).rest = skipWs s := rfl
  rw [parseString] at h
  simp only [hskip] at h
  cases hbody : skipWs s with
  | nil =>
      rw [hbody] at h
      cases h
  | cons b body =>
      simp only [hbody] at h
      by_cases hquote : b = 0x22
      · rw [if_pos hquote] at h
        obtain ⟨⟨out, rest⟩, hread, h⟩ := bind_eq_ok.mp h
        obtain ⟨rfl, rfl⟩ := Prod.mk.inj (Except.ok.inj h)
        obtain ⟨e, he, hsplit, hall⟩ := readChars_eq_ok hread
        refine ⟨w, e, hw, he, ?_, hall⟩
        rw [hs, hbody, hquote, hsplit]
        simp
      · rw [if_neg hquote] at h
        cases h

theorem reads_parseString : Reads (fun _ => True) parseString := by
  intro p s t c h
  obtain ⟨w, e, hw, he, hs, hall⟩ := parseString_eq_ok h
  refine ⟨w ++ (0x22 :: e ++ [0x22]), by simp, hs, fun p' r _ => ?_⟩
  rw [List.append_assoc, skips_parseString.blank hw, parseString_body (hall r)]
  exact ⟨_, rfl⟩

theorem parseRawValue_eq_ok {p : Nat} {s raw : Bytes} {c : Cursor}
    (h : parseRawValue ⟨p, s⟩ = .ok (raw, c)) :
    ∃ w b m, IsBlank w ∧ raw = b :: m ∧ isWs b = false ∧ s = w ++ raw ++ c.rest ∧
      ∀ r, Ended r → scanValue (raw ++ r) = .ok r := by
  obtain ⟨w, hw, hs⟩ := exists_blank s
  have hskip : (skipWhitespace ⟨p, s⟩).rest = skipWs s := rfl
  rw [parseRawValue] at h
  obtain ⟨rest, hscan, h⟩ := bind_eq_ok.mp h
  obtain ⟨hraw, rfl⟩ := Prod.mk.inj (Except.ok.inj h)
  rw [hskip] at hscan hraw
  obtain ⟨b, m, hsplit, hb, hall⟩ := scanValue_eq_ok hscan
  have htake : raw = b :: m := by
    rw [← hraw, hsplit, List.length_append, Nat.add_sub_cancel, List.take_left]
  subst htake
  refine ⟨w, b, m, hw, rfl, hb, ?_, hall⟩
  rw [Cursor.goto_rest, List.append_assoc, ← hsplit]
  exact hs

theorem reads_parseRawValue : Reads Ended parseRawValue := by
  intro p s raw c h
  obtain ⟨w, b, m, hw, rfl, hb, hs, hall⟩ := parseRawValue_eq_ok h
  refine ⟨w ++ b :: m, by simp, hs, fun p' r hr => ?_⟩
  rw [List.append_assoc, skips_parseRawValue.blank hw, parseRawValue_of_scan hb (hall r hr)]
  exact ⟨_, rfl⟩

section Reads

variable {α β : Type} {mayFollow : Bytes → Prop}

theorem Reads.of_all {f : Cursor → Except Bytes (α × Cursor)} (h : Reads (fun _ => True) f) :
    Reads mayFollow f := by
  intro p s a c hf
  obtain ⟨m, hm, hs, hall⟩ := h p s a c hf
  exact ⟨m, hm, hs, fun p' r _ => hall p' r trivial⟩

/-- One reader after the other. -/
theorem Reads.bind {f : Cursor → Except Bytes (α × Cursor)} {g : α → Cursor → Except Bytes (β × Cursor)}
    (hf : Reads (fun _ => True) f) (hg : ∀ a, Reads mayFollow (g a)) :
    Reads mayFollow fun c => f c >>= fun r => g r.1 r.2 := by
  intro p s b c h
  obtain ⟨⟨a, c₁⟩, hfirst, hsecond⟩ := bind_eq_ok.mp h
  obtain ⟨m₁, hne, rfl, hall₁⟩ := hf p s a c₁ hfirst
  obtain ⟨m₂, -, hrest, hall₂⟩ := hg a c₁.pos c₁.rest b c hsecond
  refine ⟨m₁ ++ m₂, by simp [hne], by rw [hrest, List.append_assoc], fun p' r hr => ?_⟩
  obtain ⟨q₁, hq₁⟩ := hall₁ p' (m₂ ++ r) trivial
  obtain ⟨q₂, hq₂⟩ := hall₂ q₁ r hr
  rw [List.append_assoc]
  exact ⟨q₂, bind_eq_ok.mpr ⟨_, hq₁, hq₂⟩⟩

theorem Reads.map {f : Cursor → Except Bytes (α × Cursor)} (hf : Reads mayFollow f) (k : α → β) :
    Reads mayFollow fun c => f c >>= fun r => .ok (k r.1, r.2) := by
  intro p s b c h
  obtain ⟨⟨a, c₁⟩, hfirst, hsecond⟩ := bind_eq_ok.mp h
  obtain ⟨rfl, rfl⟩ := Prod.mk.inj (Except.ok.inj hsecond)
  obtain ⟨m, hne, hs, hall⟩ := hf p s a c₁ hfirst
  refine ⟨m, hne, hs, fun p' r hr => ?_⟩
  obtain ⟨q, hq⟩ := hall p' r hr
  exact ⟨q, bind_eq_ok.mpr ⟨_, hq, rfl⟩⟩

/-- A reader behind a byte that must come first. -/
theorem Reads.behind {b : UInt8} (hb : isWs b = false) {f : Cursor → Except Bytes (α × Cursor)}
    (hf : Reads mayFollow f) : Reads mayFollow fun c => consumeChar b c >>= f := by
  intro p s a c h
  obtain ⟨c₁, hbyte, hrest⟩ := bind_eq_ok.mp h
  obtain ⟨w, hw, rfl⟩ := consumeChar_eq_ok hbyte
  obtain ⟨m, -, hs, hall⟩ := hf c₁.pos c₁.rest a c hrest
  refine ⟨w ++ b :: m, by simp, by rw [hs, List.append_assoc]; rfl, fun p' r hr => ?_⟩
  obtain ⟨q, hq⟩ := hall (p' + w.length + 1) r hr
  rw [List.append_assoc]
  exact ⟨q, bind_eq_ok.mpr ⟨_, consumeChar_blank hb hw p' (m ++ r), hq⟩⟩

end Reads

/-- What follows a reader does not make a difference to it before a comma or a bracket that closes. -/
theorem reads_wrapperMember (w : Wrapper) : Reads Ended (wrapperMember w) := by
  have hvalue : ∀ key : Bytes, Reads Ended fun c =>
      if key = lit "type" then parseString c >>= fun r => .ok ({ w with type := some r.1 }, r.2)
      else if key = lit "value" then parseRawValue c >>= fun r => .ok ({ w with value := some r.1 }, r.2)
      else parseRawValue c >>= fun r => .ok (w, r.2) := by
    intro key
    by_cases htype : key = lit "type"
    · simp only [if_pos htype]
      exact reads_parseString.of_all.map fun s => { w with type := some s }
    · by_cases hval : key = lit "value"
      · simp only [if_neg htype, if_pos hval]
        exact reads_parseRawValue.map fun raw => { w with value := some raw }
      · simp only [if_neg htype, if_neg hval]
        exact reads_parseRawValue.map fun _ => w
  exact reads_parseString.bind fun key => (hvalue key).behind (by decide)

section Lists

variable {σ : Type} {closeCh : UInt8} {item : σ → Cursor → Except Bytes (σ × Cursor)}

theorem ended_blank {w : Bytes} (hw : IsBlank w) {b : UInt8} (hb : b = 0x2C ∨ b = 0x5D ∨ b = 0x7D)
    (s : Bytes) : Ended (w ++ b :: s) :=
  hw.ended (ended_cons (hb.imp_right fun h => h.imp_right Or.inl) s)

/-- Before an item that is not the first there is a comma, or the list is closed. -/
theorem ended_of_readItems (hclose : closeCh = 0x5D ∨ closeCh = 0x7D) {n : Nat} {s : σ} {c : Cursor}
    {r : σ × Cursor} (h : readItems closeCh item n false s c = .ok r) : Ended c.rest := by
  cases n with
  | zero => cases h
  | succ n =>
      obtain ⟨w, hw, hrest⟩ := exists_blank c.rest
      have hskip : (skipWhitespace c).rest = skipWs c.rest := rfl
      rw [readItems] at h
      by_cases hend : (skipWhitespace c).rest.head? = some closeCh
      · rw [hskip] at hend
        obtain ⟨t, ht⟩ := List.head?_eq_some_iff.mp hend
        rw [hrest, ht]
        exact ended_blank hw (Or.inr hclose) t
      · simp only [hend, if_false, Bool.false_eq_true] at h
        obtain ⟨c₁, hcomma, -⟩ := bind_eq_ok.mp h
        obtain ⟨w', hw', ht⟩ := consumeChar_eq_ok (p := (skipWhitespace c).pos) hcomma
        rw [hrest, ht]
        exact hw.ended (ended_blank hw' (Or.inl rfl) c₁.rest)

/-- A list of items, up to the byte that closes it. -/
theorem reads_readItems (hclose : closeCh = 0x5D ∨ closeCh = 0x7D)
    (hitem : ∀ s, Reads Ended (item s)) {n : Nat} {first : Bool} {s s' : σ} {p : Nat} {t : Bytes} {c : Cursor}
    (h : readItems closeCh item n first s ⟨p, t⟩ = .ok (s', c)) :
    ∃ m, t = m ++ closeCh :: c.rest ∧ ∀ p' r, ∃ q,
      readItems closeCh item n first s ⟨p', m ++ closeCh :: r⟩ = .ok (s', ⟨q, r⟩) := by
  have hws : isWs closeCh = false := by rcases hclose with rfl | rfl <;> rfl
  have hcommaNe : closeCh ≠ 0x2C := by rcases hclose with rfl | rfl <;> decide
  induction n generalizing first s p t with
  | zero => cases h
  | succ n ih =>
      obtain ⟨w, hw, ht⟩ := exists_blank t
      have hskip : (skipWhitespace ⟨p, t⟩).rest = skipWs t := rfl
      -- an item and the loop behind it, wherever they stand
      have hmore : ∀ s p₁ t₁, (item s ⟨p₁, t₁⟩ >>= fun r => readItems closeCh item n false r.1 r.2) =
          .ok (s', c) → ∃ b m, t₁ = b :: m ++ closeCh :: c.rest ∧ ∀ p' r, ∃ q,
            (item s ⟨p', b :: m ++ closeCh :: r⟩ >>= fun r => readItems closeCh item n false r.1 r.2) =
              .ok (s', ⟨q, r⟩) := by
        intro s p₁ t₁ h
        obtain ⟨⟨s₁, c₂⟩, hread, h⟩ := bind_eq_ok.mp h
        obtain ⟨m₁, hne, ht₁, hall₁⟩ := hitem s p₁ t₁ s₁ c₂ hread
        have hended := ended_of_readItems hclose h
        obtain ⟨m₂, hc₂, hall₂⟩ := ih (p := c₂.pos) (t := c₂.rest) h
        obtain ⟨b, m₁, rfl⟩ := List.exists_cons_of_ne_nil hne
        refine ⟨b, m₁ ++ m₂, by rw [ht₁, hc₂]; simp, fun p' r => ?_⟩
        have hended' : Ended (m₂ ++ closeCh :: r) := by
          rw [hc₂] at hended
          cases m₂ with
          | nil => exact ended_cons (Or.inr (hclose.imp_right Or.inl)) r
          | cons x m₂ => exact hended
        obtain ⟨q₁, hq₁⟩ := hall₁ p' (m₂ ++ closeCh :: r) hended'
        obtain ⟨q₂, hq₂⟩ := hall₂ q₁ r
        have hshape : b :: (m₁ ++ m₂) ++ closeCh :: r = b :: m₁ ++ (m₂ ++ closeCh :: r) := by simp
        rw [hshape]
        exact ⟨q₂, bind_eq_ok.mpr ⟨_, hq₁, hq₂⟩⟩
      by_cases hend : (skipWhitespace ⟨p, t⟩).rest.head? = some closeCh
      · rw [readItems] at h
        simp only [hend, if_true] at h
        obtain ⟨rfl, rfl⟩ := Prod.mk.inj (Except.ok.inj h)
        obtain ⟨r, hr⟩ := List.head?_eq_some_iff.mp hend
        refine ⟨w, ?_, fun p' r' => ⟨p' + w.length + 1, ?_⟩⟩
        · rw [Cursor.advance_rest, hr]
          rw [hskip] at hr
          rw [hr] at ht
          exact ht
        · rw [readItems_congr _ _ _ (skipWhitespace_blank hw p' _), readItems_close hws]
      · cases first with
        | true =>
            rw [readItems_first hend] at h
            obtain ⟨b, m, hm, hall⟩ := hmore s _ _ h
            have hm' : skipWs t = b :: m ++ closeCh :: c.rest := hm
            refine ⟨w ++ b :: m, by rw [List.append_assoc, ← hm']; exact ht, fun p' r => ?_⟩
            obtain ⟨q, hq⟩ := hall (p' + w.length) r
            have hb : isWs b = false := by
              have hfirst := List.head?_dropWhile_not isWs t
              rw [show t.dropWhile isWs = b :: m ++ closeCh :: c.rest from hm'] at hfirst
              simpa using hfirst
            have hstart : skipWhitespace ⟨p', w ++ b :: m ++ closeCh :: r⟩ =
                ⟨p' + w.length, b :: m ++ closeCh :: r⟩ := by
              rw [List.append_assoc]
              exact skipWhitespace_value hw hb p' _
            refine ⟨q, ?_⟩
            rw [readItems_first, hstart]
            · exact hq
            · rw [hstart]
              rw [hskip, hm'] at hend
              exact hend
        | false =>
            rw [readItems] at h
            simp only [hend, if_false, Bool.false_eq_true] at h
            obtain ⟨c₁, hcomma, h⟩ := bind_eq_ok.mp h
            obtain ⟨w', hw', ht'⟩ := consumeChar_eq_ok (p := (skipWhitespace ⟨p, t⟩).pos) hcomma
            obtain ⟨b, m, hm, hall⟩ := hmore s _ _ h
            have hcommaText : skipWs t = w' ++ 0x2C :: c₁.rest := ht'
            have hblank : IsBlank (w ++ w') := fun x hx => (List.mem_append.mp hx).elim (hw x) (hw' x)
            refine ⟨w ++ w' ++ 0x2C :: b :: m, ?_, fun p' r => ?_⟩
            · rw [ht, hcommaText, hm]
              simp
            · obtain ⟨q, hq⟩ := hall (p' + (w ++ w').length + 1) r
              refine ⟨q, ?_⟩
              rw [List.append_assoc, readItems_congr _ _ _ (skipWhitespace_blank hblank p' _),
                List.cons_append, readItems_comma hcommaNe]
              exact hq

end Lists

end Harbor.ParamDecoder
