import Harbor.Sql.DecodeCalls

set_option autoImplicit false

/-! # The depth that the decoder needs

Each of the calls of `DecodeOne` is on a shorter text, so the length of the text is depth enough
(`decodeOne_of_length_lt`), and the decoder is the recursion over its calls (`recursion_decodeOne`): with
less depth than a chain of calls is long it says that it has run out, and nothing else makes it say so.
-/

namespace Harbor.ParamDecoder

open Bytes Json

variable (text : DuckText) (casts : DuckCasts)

/-! ## What a call reads -/

section Shrinking

variable {text casts} {decode : Cursor → LogicalType → Except Bytes (Value × Cursor)}

theorem length_advance {c : Cursor} {n : Nat} (hn : 0 < n) (hc : c.rest ≠ []) :
    (c.advance n).rest.length < c.rest.length := by
  have hpos := List.length_pos_iff.mpr hc
  rw [Cursor.advance_rest, List.length_drop]
  omega

/-- A result that leaves the cursor alone. -/
theorem eq_of_map {α β : Type} {x : Except Bytes α} {k : α → β} {c c' : Cursor} {b : β}
    (h : (x >>= fun a => Except.ok (k a, c)) = .ok (b, c')) : c = c' := by
  obtain ⟨a, -, h⟩ := bind_eq_ok.mp h
  exact (Prod.mk.inj (Except.ok.inj h)).2

theorem shrinks_leaf (expected : LogicalType) :
    ∀ c v c', (skipWhitespace c).rest.head? ≠ some 0x7B → (skipWhitespace c).rest.head? ≠ some 0x5B →
      decodeOne text casts 1 c expected = .ok (v, c') → c'.rest.length < c.rest.length := by
  intro c v c' hbrace hbracket h
  have hskip := length_skipWhitespace_le c
  rw [decodeOne] at h
  cases hrest : (skipWhitespace c).rest with
  | nil => simp [hrest] at h
  | cons b s =>
      have hne : (skipWhitespace c).rest ≠ [] := by simp [hrest]
      have hadvance : ∀ n, 0 < n → ((skipWhitespace c).advance n).rest.length < c.rest.length :=
        fun n hn => Nat.lt_of_lt_of_le (length_advance hn hne) hskip
      rw [hrest, List.head?_cons, Option.some_inj.ne] at hbrace hbracket
      simp only [hrest, if_neg hbrace, if_neg hbracket] at h
      split_ifs at h with hnull hlit htrue hlit hfalse hlit hquote hnumber
      · obtain ⟨rfl, rfl⟩ := Prod.mk.inj (Except.ok.inj h)
        exact hadvance 4 (by decide)
      · rw [← eq_of_map (k := id) h]
        exact hadvance 4 (by decide)
      · rw [← eq_of_map (k := id) h]
        exact hadvance 5 (by decide)
      · obtain ⟨⟨t, c₁⟩, hparse, h⟩ := bind_eq_ok.mp h
        have hshort := length_parseString hparse
        rw [← eq_of_map (k := id) h]
        exact Nat.lt_of_lt_of_le hshort hskip
      · rw [← eq_of_map (k := id) h]
        refine hadvance _ ?_
        have hchar : isNumberChar b = true := by
          rw [isNumberChar]
          simp only [Bool.or_eq_true, decide_eq_true_eq] at hnumber ⊢
          rcases hnumber with rfl | hdigit
          · decide
          · simp [hdigit]
        simp [hchar]

theorem shrinks_list {σ : Type} {openCh closeCh : UInt8} {item : σ → Cursor → Except Bytes (σ × Cursor)}
    (hitem : ∀ s, Shrinks (item s)) {s : σ} {c d c' : Cursor} {s' : σ} (hopen : consumeChar openCh c = .ok d)
    (h : readAll closeCh item s d = .ok (s', c')) : c'.rest.length < c.rest.length :=
  Nat.lt_trans (shrinks_readItems hitem _ true s d s' c' h) (length_consumeChar hopen)

theorem shrinks_decodeStruct (hdecode : ∀ t, Shrinks fun c => decode c t) (expected : LogicalType) :
    Shrinks fun c => decodeStruct text casts decode c expected := by
  intro c v c' h
  cases expected with
  | struct fs =>
      obtain ⟨d, hbrace, h⟩ := bind_eq_ok.mp h
      obtain ⟨⟨seen, c₁⟩, hread, h⟩ := bind_eq_ok.mp h
      rw [← eq_of_map (k := id) h]
      exact shrinks_list (fun seen => shrinks_structMember hdecode fs.toList _ seen) hbrace hread
  | _ => cases h

theorem shrinks_decodeArray (hdecode : ∀ t, Shrinks fun c => decode c t) (expected : LogicalType) :
    Shrinks fun c => decodeArray text casts decode c expected := by
  intro c v c' h
  cases expected with
  | list child =>
      obtain ⟨d, hbracket, h⟩ := bind_eq_ok.mp h
      obtain ⟨⟨vs, c₁⟩, hread, h⟩ := bind_eq_ok.mp h
      rw [← eq_of_map (k := id) h]
      exact shrinks_list (fun vs => shrinks_listElement hdecode child vs) hbracket hread
  | array child n =>
      obtain ⟨d, hbracket, h⟩ := bind_eq_ok.mp h
      obtain ⟨⟨vs, c₁⟩, hread, h⟩ := bind_eq_ok.mp h
      simp only at h
      split_ifs at h with hlen
      rw [← eq_of_map (k := id) h]
      exact shrinks_list (fun vs => shrinks_listElement hdecode child vs) hbracket hread
  | map key value =>
      obtain ⟨d, hbracket, h⟩ := bind_eq_ok.mp h
      obtain ⟨⟨es, c₁⟩, hread, h⟩ := bind_eq_ok.mp h
      rw [← eq_of_map (k := id) h]
      exact shrinks_list (fun es => shrinks_mapEntry hdecode key value es) hbracket hread
  | _ => cases h

theorem shrinks_decodeTypedWrapper : Shrinks (decodeTypedWrapper casts decode) := by
  intro c v c' h
  obtain ⟨d, hbrace, h⟩ := bind_eq_ok.mp h
  obtain ⟨⟨⟨type, value⟩, c₁⟩, hread, h⟩ := bind_eq_ok.mp h
  have hshorter := shrinks_list (fun w => (reads_wrapperMember w).shrinks) hbrace hread
  cases type with
  | none => cases h
  | some typeString =>
      cases value with
      | none => cases h
      | some raw =>
          simp only at h
          cases hparse : parseType casts.types typeString with
          | error e =>
              rw [hparse] at h
              cases h
          | ok t =>
              simp only [hparse] at h
              rw [← eq_of_map (k := Prod.fst) h]
              exact hshorter

/-- Every value is some of the text. -/
theorem shrinks_decodeOne (depth : Nat) (expected : LogicalType) :
    Shrinks fun c => decodeOne text casts depth c expected := by
  induction depth generalizing expected with
  | zero => exact fun c v c' h => nomatch h
  | succ depth ih =>
      intro c v c' h
      have hskip := length_skipWhitespace_le c
      rw [show (fun c => decodeOne text casts (depth + 1) c expected) c =
        decodeBody text casts (decodeOne text casts depth) c expected from decodeOne_succ text casts depth c
          expected] at h
      simp only [decodeBody] at h
      by_cases hbrace : (skipWhitespace c).rest.head? = some 0x7B
      · rw [if_pos hbrace] at h
        cases htyped : looksTyped (skipWhitespace c) with
        | true =>
            rw [if_pos htyped] at h
            exact Nat.lt_of_lt_of_le (shrinks_decodeTypedWrapper _ v c' h) hskip
        | false =>
            rw [htyped, if_neg Bool.false_ne_true] at h
            exact Nat.lt_of_lt_of_le (shrinks_decodeStruct ih expected _ v c' h) hskip
      · rw [if_neg hbrace] at h
        by_cases hbracket : (skipWhitespace c).rest.head? = some 0x5B
        · rw [if_pos hbracket] at h
          exact Nat.lt_of_lt_of_le (shrinks_decodeArray ih expected _ v c' h) hskip
        · rw [if_neg hbracket] at h
          rw [← skipWhitespace_idem] at hbrace hbracket
          exact Nat.lt_of_lt_of_le (shrinks_leaf expected _ v c' hbrace hbracket h) hskip

end Shrinking

/-! ## Results that are no lack of depth -/

/-- The result is not what `decodeOne` says when it may not call itself any more. -/
def Finishes {α : Type} (x : Except Bytes α) : Prop := x ≠ .error (lit "unreachable")

section Finishing

variable {α β : Type}

theorem finishes_ok (a : α) : Finishes (.ok a) := fun h => nomatch h

/-- The messages of the decoder do not start like that. -/
theorem finishes_error {m : Bytes} (h : (m.take 3 == lit "unr") = false) :
    Finishes (.error m : Except Bytes α) := by
  intro heq
  rw [Except.error.inj heq] at h
  exact nomatch h

theorem Finishes.bind {x : Except Bytes α} {f : α → Except Bytes β} (hx : Finishes x)
    (hf : ∀ a, x = .ok a → Finishes (f a)) : Finishes (x >>= f) := by
  cases x with
  | error e => exact fun h => hx (congrArg _ (Except.error.inj h))
  | ok a => exact hf a rfl

theorem finishes_mapError {x : Except Bytes α} {f : Bytes → Bytes} (h : ∀ e, ((f e).take 3 == lit "unr") = false) :
    Finishes (x.mapError f) := by
  cases x with
  | error e => exact finishes_error (h e)
  | ok a => exact finishes_ok a

theorem finishes_consumeChar (b : UInt8) (c : Cursor) : Finishes (consumeChar b c) := by
  rw [consumeChar]
  split_ifs
  · exact finishes_ok _
  · exact finishes_error rfl

theorem finishes_readChars (s : Bytes) : Finishes (readChars s) := by
  fun_induction readChars s with
  | case1 => exact finishes_error rfl
  | case2 => exact finishes_ok _
  | case3 => exact finishes_error rfl
  | case4 => exact finishes_error rfl
  | case5 => exact finishes_ok _
  | case6 => exact finishes_error rfl
  | case7 _ _ _ _ _ _ _ _ ih => exact ih.bind fun _ _ => finishes_ok _
  | case8 => exact finishes_error rfl
  | case9 => exact finishes_error rfl
  | case10 _ _ _ _ _ _ ih => exact ih.bind fun _ _ => finishes_ok _
  | case11 _ _ _ _ _ ih => exact ih.bind fun _ _ => finishes_ok _

theorem finishes_parseString (c : Cursor) : Finishes (parseString c) := by
  rw [parseString]
  simp only
  split
  · exact finishes_error rfl
  · split_ifs
    · exact (finishes_readChars _).bind fun _ _ => finishes_ok _
    · exact finishes_error rfl

theorem finishes_parseRawValue (c : Cursor) : Finishes (parseRawValue c) := by
  refine Finishes.bind ?_ fun _ _ => finishes_ok _
  cases (skipWhitespace c).rest with
  | nil => exact finishes_error rfl
  | cons b s =>
      rw [scanValue]
      generalize (if b = 0x7B then 0x7D else 0x5D : UInt8) = closeCh
      split_ifs
      · split
        · exact finishes_ok _
        · exact finishes_error rfl
      · split
        · exact finishes_ok _
        · exact finishes_error rfl
      · exact finishes_error rfl
      · exact finishes_ok _

/-- A loop that reads something in each round does not run out of rounds. -/
theorem finishes_readItems {σ : Type} {closeCh : UInt8} {item : σ → Cursor → Except Bytes (σ × Cursor)}
    (hshrinks : ∀ s, Shrinks (item s)) {n : Nat} {first : Bool} {s : σ} {c : Cursor}
    (hitem : ∀ s d, d.rest.length ≤ c.rest.length → Finishes (item s d)) (hn : c.rest.length < n) :
    Finishes (readItems closeCh item n first s c) := by
  induction n generalizing first s c with
  | zero => omega
  | succ n ih =>
      rw [readItems_succ]
      split_ifs
      · exact finishes_ok _
      · refine Finishes.bind ?_ fun d hstart => ?_
        · cases first with
          | true => exact finishes_ok _
          | false => exact finishes_consumeChar _ _
        · have hle := length_itemStart hstart
          refine (hitem s d hle).bind fun r hread => ?_
          have hshorter := hshrinks s d r.1 r.2 hread
          exact ih (fun s e he => hitem s e (by omega)) (by omega)

variable {text casts} {decode : Cursor → LogicalType → Except Bytes (Value × Cursor)}

theorem finishes_orElse {what : Bytes} (h : ∀ e, ((what ++ e).take 3 == lit "unr") = false)
    (x : Except Bytes α) : Finishes (orElse what x) :=
  finishes_mapError h

theorem finishes_leaf {c : Cursor} (hbrace : (skipWhitespace c).rest.head? ≠ some 0x7B)
    (hbracket : (skipWhitespace c).rest.head? ≠ some 0x5B) (expected : LogicalType) :
    Finishes (decodeOne text casts 1 c expected) := by
  have hbool : ∀ b, Finishes (coerceBool text casts b expected) := by
    intro b
    rw [coerceBool]
    split_ifs
    · exact finishes_ok _
    · exact finishes_orElse (fun _ => rfl) _
  have hnumber : ∀ raw, Finishes (coerceJsonNumber text casts raw expected) := by
    intro raw
    rw [coerceJsonNumber]
    split_ifs
    · split
      · exact finishes_ok _
      · exact finishes_error rfl
    · split
      · exact finishes_ok _
      · exact finishes_error rfl
    · rw [coerceNumberFromString]
      split_ifs
      · exact finishes_orElse (fun _ => rfl) _
      · exact finishes_error rfl
  rw [decodeOne]
  cases hrest : (skipWhitespace c).rest with
  | nil => exact finishes_error rfl
  | cons b s =>
      rw [hrest, List.head?_cons, Option.some_inj.ne] at hbrace hbracket
      simp only [if_neg hbrace, if_neg hbracket]
      split_ifs
      · exact finishes_ok _
      · exact finishes_error rfl
      · exact (hbool true).bind fun _ _ => finishes_ok _
      · exact finishes_error rfl
      · exact (hbool false).bind fun _ _ => finishes_ok _
      · exact finishes_error rfl
      · refine (finishes_parseString _).bind fun r _ => Finishes.bind ?_ fun _ _ => finishes_ok _
        exact finishes_orElse (fun _ => rfl) _
      · exact (hnumber _).bind fun _ _ => finishes_ok _
      · exact finishes_error rfl

section Containers

variable {L : Nat} (hdecode : ∀ c t, c.rest.length < L → Finishes (decode c t))
  (hshrinks : ∀ t, Shrinks fun c => decode c t)

include hdecode

theorem finishes_listElement (child : LogicalType) (vs : List Value) {c : Cursor} (hc : c.rest.length < L) :
    Finishes (listElement decode child vs c) :=
  (hdecode c child hc).bind fun _ _ => finishes_ok _

theorem finishes_structMember (fields : List (Bytes × LogicalType)) (expected : LogicalType)
    (seen : List (Option Value)) {c : Cursor} (hc : c.rest.length < L) :
    Finishes (structMember text decode fields expected seen c) := by
  refine (finishes_parseString c).bind fun r hkey => (finishes_consumeChar _ _).bind fun d hcolon => ?_
  have hshort := @length_parseString c r.2 r.1 hkey
  have hshorter := length_consumeChar hcolon
  simp only
  split
  · exact finishes_error rfl
  · split_ifs
    · exact finishes_error rfl
    · exact (hdecode _ _ (by omega)).bind fun _ _ => finishes_ok _

include hshrinks in
theorem finishes_mapEntry (key value : LogicalType) (es : List (Value × Value)) {c : Cursor}
    (hc : c.rest.length < L) : Finishes (mapEntry decode key value es c) := by
  refine (finishes_mapError fun _ => rfl).bind fun c₁ hopen => ?_
  have h₁ := length_consumeChar (mapError_eq_ok.mp hopen)
  refine (hdecode c₁ key (by omega)).bind fun k hk => (finishes_consumeChar _ _).bind fun c₂ hcomma => ?_
  have h₂ := hshrinks key c₁ k.1 k.2 hk
  have h₃ := length_consumeChar hcomma
  refine (hdecode c₂ value (by omega)).bind fun v _ => (finishes_mapError fun _ => rfl).bind fun _ _ => ?_
  exact finishes_ok _

end Containers

theorem finishes_readAll {σ : Type} {closeCh : UInt8} {item : σ → Cursor → Except Bytes (σ × Cursor)}
    (hshrinks : ∀ s, Shrinks (item s)) {s : σ} {c : Cursor}
    (hitem : ∀ s d, d.rest.length ≤ c.rest.length → Finishes (item s d)) :
    Finishes (readAll closeCh item s c) :=
  finishes_readItems hshrinks hitem (Nat.lt_succ_self _)

theorem finishes_wrapperMember (w : Wrapper) (c : Cursor) : Finishes (wrapperMember w c) := by
  refine (finishes_parseString c).bind fun r _ => (finishes_consumeChar _ _).bind fun d _ => ?_
  simp only
  split_ifs
  · exact (finishes_parseString _).bind fun _ _ => finishes_ok _
  · exact (finishes_parseRawValue _).bind fun _ _ => finishes_ok _
  · exact (finishes_parseRawValue _).bind fun _ _ => finishes_ok _

/-- Enough depth for all calls. -/
theorem finishes_decodeOne (depth : Nat) (c : Cursor) (expected : LogicalType) (h : c.rest.length < depth) :
    Finishes (decodeOne text casts depth c expected) := by
  induction depth generalizing c expected with
  | zero => omega
  | succ depth ih =>
      have hskip := length_skipWhitespace_le c
      have hdecode : ∀ c' t, c'.rest.length < (skipWhitespace c).rest.length →
          Finishes (decodeOne text casts depth c' t) := fun c' t hc' => ih c' t (by omega)
      have hshrinks : ∀ t, Shrinks fun c => decodeOne text casts depth c t :=
        fun t => shrinks_decodeOne depth t
      rw [decodeOne_succ]
      simp only [decodeBody]
      by_cases hbrace : (skipWhitespace c).rest.head? = some 0x7B
      · rw [if_pos hbrace]
        split_ifs
        · refine (finishes_consumeChar _ _).bind fun d hd => Finishes.bind ?_ fun r hr => ?_
          · exact finishes_readAll (fun w => (reads_wrapperMember w).shrinks)
              fun w e _ => finishes_wrapperMember w e
          · have hshort := length_consumeChar hd
            obtain ⟨⟨type, value⟩, e⟩ := r
            cases type with
            | none => exact finishes_error rfl
            | some typeString =>
                cases value with
                | none => exact finishes_error rfl
                -- the wrapped value is decoded from its own text, which is shorter than the rest
                | some raw =>
                    have hle : raw.length ≤ d.rest.length := length_wrapper_value hr raw rfl
                    simp only
                    split
                    · exact finishes_error rfl
                    · refine (hdecode _ _ ?_).bind fun _ _ => finishes_ok _
                      exact Nat.lt_of_le_of_lt hle hshort
        · cases expected with
          | struct fs =>
              refine (finishes_consumeChar _ _).bind fun d hd => Finishes.bind ?_ fun r _ => ?_
              · have hshort := length_consumeChar hd
                exact finishes_readAll (fun seen => shrinks_structMember hshrinks fs.toList _ seen)
                  fun seen e he => finishes_structMember hdecode fs.toList _ seen (by omega)
              · exact (finishes_orElse (fun _ => rfl) _).bind fun _ _ => finishes_ok _
          | _ => exact finishes_error rfl
      · rw [if_neg hbrace]
        by_cases hbracket : (skipWhitespace c).rest.head? = some 0x5B
        · rw [if_pos hbracket]
          cases expected with
          | list child =>
              refine (finishes_consumeChar _ _).bind fun d hd => Finishes.bind ?_ fun r _ => ?_
              · have hshort := length_consumeChar hd
                exact finishes_readAll (fun vs => shrinks_listElement hshrinks child vs)
                  fun vs e he => finishes_listElement hdecode child vs (by omega)
              · exact (finishes_orElse (fun _ => rfl) _).bind fun _ _ => finishes_ok _
          | array child n =>
              refine (finishes_consumeChar _ _).bind fun d hd => Finishes.bind ?_ fun r _ => ?_
              · have hshort := length_consumeChar hd
                exact finishes_readAll (fun vs => shrinks_listElement hshrinks child vs)
                  fun vs e he => finishes_listElement hdecode child vs (by omega)
              · simp only
                split_ifs
                · exact finishes_error rfl
                · exact (finishes_orElse (fun _ => rfl) _).bind fun _ _ => finishes_ok _
          | map key value =>
              refine (finishes_consumeChar _ _).bind fun d hd => Finishes.bind ?_ fun r _ => ?_
              · have hshort := length_consumeChar hd
                exact finishes_readAll (fun es => shrinks_mapEntry hshrinks key value es)
                  fun es e he => finishes_mapEntry hdecode hshrinks key value es (by omega)
              · exact (finishes_orElse (fun _ => rfl) _).bind fun _ _ => finishes_ok _
          | _ => exact finishes_error rfl
        · rw [if_neg hbracket]
          -- neither an object nor an array
          rw [← skipWhitespace_idem] at hbrace hbracket
          exact finishes_leaf hbrace hbracket expected

end Finishing

/-! ## The recursion -/

section Recursion

variable {text casts}

variable (text casts) in
/-- `DecodeOne` with all the depth it may need. -/
def decodeCall (a : Call) : Except Bytes (Value × Cursor) :=
  decodeOne text casts (a.1.rest.length + 1) a.1 a.2

theorem Calls.length_lt {g : Call → Except Bytes (Value × Cursor)} (hg : ∀ t, Shrinks fun c => g (c, t))
    {a b : Call} {k : Place} (h : Calls text casts g a k b) : b.1.rest.length < a.1.rest.length := by
  have hopened : ∀ {o : UInt8} {c d : Cursor}, consumeChar o (skipWhitespace c) = .ok d →
      d.rest.length < c.rest.length :=
    fun {_ c _} h => Nat.lt_of_lt_of_le (length_consumeChar h) (length_skipWhitespace_le c)
  cases h with
  | element _ _ hbracket hvisits =>
      exact Nat.lt_of_le_of_lt (hvisits.length_le fun vs => shrinks_listElement hg _ vs) (hopened hbracket)
  | @entry c d e _ _ _ _ _ hbracket hvisits ha =>
      have hle := hvisits.length_le fun es => shrinks_mapEntry hg _ _ es
      have hlt := hopened hbracket
      obtain ⟨c₁, hopen, rfl | ⟨r, c₂, hread, hcomma, rfl⟩⟩ := ha
      · have h₁ := length_consumeChar hopen
        exact Nat.lt_trans (Nat.lt_of_lt_of_le h₁ hle) hlt
      · have h₁ := length_consumeChar hopen
        have h₂ := hg _ c₁ r.1 r.2 hread
        have h₃ := length_consumeChar hcomma
        show c₂.rest.length < c.rest.length
        omega
  | @field c d e _ _ _ _ _ hbrace hvisits ha =>
      have hle := hvisits.length_le fun seen => shrinks_structMember hg _ _ seen
      have hlt := hopened hbrace
      obtain ⟨key, c₁, field, hkey, hcolon, -⟩ := ha
      have h₁ := length_parseString hkey
      have h₂ := length_consumeChar hcolon
      show b.1.rest.length < c.rest.length
      omega
  | wrapped _ _ hbrace hloop _ hvalue _ =>
      exact Nat.lt_of_le_of_lt (length_wrapper_value hloop _ hvalue) (hopened hbrace)

theorem run_decodeBody (n : Nat) (a : Call) :
    unroll (fun h a => decodeBody text casts (fun c t => h (c, t)) a.1 a.2) (lit "unreachable") n a =
      decodeOne text casts n a.1 a.2 := by
  induction n generalizing a with
  | zero => rfl
  | succ n ih =>
      have hinner : (fun c t => unroll (fun h a => decodeBody text casts (fun c t => h (c, t)) a.1 a.2)
          (lit "unreachable") n (c, t)) = decodeOne text casts n := by
        funext c t
        exact ih (c, t)
      rw [unroll, hinner, decodeOne_succ]

/-- The depth that is left over makes no difference. -/
theorem decodeOne_of_length_lt {n : Nat} {c : Cursor} (h : c.rest.length < n) (expected : LogicalType) :
    decodeOne text casts n c expected = decodeCall text casts (c, expected) := by
  have hshrinks : ∀ t, Shrinks fun c => decodeCall text casts (c, t) :=
    fun t c v c' h => shrinks_decodeOne _ t c v c' h
  have hrun := unroll_eq_of_measure (fun a : Call => a.1.rest.length) (g := decodeCall text casts)
    (fun a => (run_decodeBody _ a).symm) (fun a => asks_decodeBody hshrinks a)
    fun a k b hcall => hcall.length_lt hshrinks
  exact (run_decodeBody n (c, expected)).symm.trans (hrun.1 n (c, expected) h)

/-- **`DecodeOne` is the recursion over its calls.** -/
theorem recursion_decodeOne :
    Recursion (fun h a => decodeBody text casts (fun c t => h (c, t)) a.1 a.2) (lit "unreachable")
      (decodeCall text casts) (Calls text casts (decodeCall text casts)) := by
  have hshrinks : ∀ t, Shrinks fun c => decodeCall text casts (c, t) :=
    fun t c v c' h => shrinks_decodeOne _ t c v c' h
  have hrun := unroll_eq_of_measure (fun a : Call => a.1.rest.length) (g := decodeCall text casts)
    (fun a => (run_decodeBody _ a).symm) (fun a => asks_decodeBody hshrinks a)
    fun a k b hcall => hcall.length_lt hshrinks
  exact ⟨fun a => asks_decodeBody hshrinks a, hrun.2, fun a => finishes_decodeOne _ _ _ (Nat.lt_succ_self _)⟩

end Recursion

end Harbor.ParamDecoder
