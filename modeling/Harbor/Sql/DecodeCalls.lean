import Harbor.Lib.Recursion
import Harbor.Sql.Extent

set_option autoImplicit false

/-! # Which values a value is decoded from

`DecodeOne` calls itself on the elements of an array, on the fields of a STRUCT and on the value inside of a
typed wrapper. `Calls` says which of these calls are made, and `asks_decodeBody` that nothing else is.
-/

namespace Harbor.ParamDecoder

open Bytes Json

/-! ## Shorter texts -/

/-- What is left is shorter. -/
def Shrinks {α : Type} (f : Cursor → Except Bytes (α × Cursor)) : Prop :=
  ∀ c a c', f c = .ok (a, c') → c'.rest.length < c.rest.length

theorem Reads.shrinks {α : Type} {mayFollow : Bytes → Prop} {f : Cursor → Except Bytes (α × Cursor)}
    (h : Reads mayFollow f) : Shrinks f := by
  intro c a c' hf
  obtain ⟨m, hm, hc, -⟩ := h c.pos c.rest a c' hf
  have hpos := List.length_pos_iff.mpr hm
  rw [hc, List.length_append]
  omega

theorem length_skipWhitespace_le (c : Cursor) : (skipWhitespace c).rest.length ≤ c.rest.length :=
  (List.dropWhile_suffix _).length_le

theorem length_consumeChar {b : UInt8} {c c' : Cursor} (h : consumeChar b c = .ok c') :
    c'.rest.length < c.rest.length := by
  obtain ⟨w, -, hs⟩ := consumeChar_eq_ok (p := c.pos) (s := c.rest) h
  rw [hs, List.length_append, List.length_cons]
  omega

theorem length_parseString {c c' : Cursor} {s : Bytes} (h : parseString c = .ok (s, c')) :
    c'.rest.length < c.rest.length :=
  reads_parseString.shrinks c s c' h

/-! ## Loops -/

section Loops

variable {σ : Type} {closeCh : UInt8} {item : σ → Cursor → Except Bytes (σ × Cursor)}

/-- Where an item starts: at once if it is the first, behind a comma otherwise. -/
def itemStart (first : Bool) (c : Cursor) : Except Bytes Cursor :=
  if first then .ok (skipWhitespace c) else consumeChar 0x2C (skipWhitespace c)

/-- The loop comes to an item at the second cursor, with what it has read until then. -/
inductive Visits (closeCh : UInt8) (item : σ → Cursor → Except Bytes (σ × Cursor)) :
    Bool → σ → Cursor → σ → Cursor → Prop where
  | here {first : Bool} {s : σ} {c d : Cursor} (hopen : (skipWhitespace c).rest.head? ≠ some closeCh)
      (hstart : itemStart first c = .ok d) : Visits closeCh item first s c s d
  | next {first : Bool} {s s₁ s' : σ} {c d c₁ e : Cursor}
      (hopen : (skipWhitespace c).rest.head? ≠ some closeCh) (hstart : itemStart first c = .ok d)
      (hitem : item s d = .ok (s₁, c₁)) (h : Visits closeCh item false s₁ c₁ s' e) :
      Visits closeCh item first s c s' e

theorem readItems_succ (n : Nat) (first : Bool) (s : σ) (c : Cursor) :
    readItems closeCh item (n + 1) first s c =
      if (skipWhitespace c).rest.head? = some closeCh then .ok (s, (skipWhitespace c).advance 1)
      else itemStart first c >>= fun c => item s c >>= fun r => readItems closeCh item n false r.1 r.2 := by
  rw [readItems, itemStart]
  cases first <;> rfl

theorem length_itemStart {first : Bool} {c d : Cursor} (h : itemStart first c = .ok d) :
    d.rest.length ≤ c.rest.length := by
  have hskip := length_skipWhitespace_le c
  cases first with
  | true =>
      obtain rfl := Except.ok.inj h
      exact hskip
  | false =>
      have hcomma := length_consumeChar (c := skipWhitespace c) h
      omega

theorem Visits.length_le (hitem : ∀ s, Shrinks (item s)) {first : Bool} {s s' : σ} {c e : Cursor}
    (h : Visits closeCh item first s c s' e) : e.rest.length ≤ c.rest.length := by
  induction h with
  | here hopen hstart => exact length_itemStart hstart
  | next hopen hstart hread hs ih =>
      have hshorter := hitem _ _ _ _ hread
      have hle := length_itemStart hstart
      omega

theorem shrinks_readItems (hitem : ∀ s, Shrinks (item s)) (n : Nat) (first : Bool) (s : σ) :
    Shrinks (readItems closeCh item n first s) := by
  induction n generalizing first s with
  | zero => exact fun c a c' h => nomatch h
  | succ n ih =>
      intro c s' c' h
      rw [readItems_succ] at h
      by_cases hend : (skipWhitespace c).rest.head? = some closeCh
      · rw [if_pos hend] at h
        obtain ⟨rfl, rfl⟩ := Prod.mk.inj (Except.ok.inj h)
        obtain ⟨t, ht⟩ := List.head?_eq_some_iff.mp hend
        have hle := length_skipWhitespace_le c
        rw [ht, List.length_cons] at hle
        rw [Cursor.advance_rest, ht, List.drop_one, List.tail_cons]
        omega
      · rw [if_neg hend] at h
        obtain ⟨d, hstart, h⟩ := bind_eq_ok.mp h
        obtain ⟨⟨s₁, c₁⟩, hread, h⟩ := bind_eq_ok.mp h
        have hrest := ih false s₁ c₁ s' c' h
        have hshorter := hitem _ _ _ _ hread
        have hle := length_itemStart hstart
        omega

/-- What every item keeps is kept by the loop. -/
theorem readItems_invariant {P : σ → Prop} {L : Nat} (hshrinks : ∀ s, Shrinks (item s))
    (hstep : ∀ s c s' c', c.rest.length ≤ L → P s → item s c = .ok (s', c') → P s') {n : Nat} {first : Bool}
    {s s' : σ} {c c' : Cursor} (hc : c.rest.length ≤ L) (hs : P s)
    (h : readItems closeCh item n first s c = .ok (s', c')) : P s' := by
  induction n generalizing first s c with
  | zero => cases h
  | succ n ih =>
      rw [readItems_succ] at h
      by_cases hend : (skipWhitespace c).rest.head? = some closeCh
      · rw [if_pos hend] at h
        obtain ⟨rfl, rfl⟩ := Prod.mk.inj (Except.ok.inj h)
        exact hs
      · rw [if_neg hend] at h
        obtain ⟨d, hstart, h⟩ := bind_eq_ok.mp h
        obtain ⟨⟨s₁, c₁⟩, hread, h⟩ := bind_eq_ok.mp h
        have hle := length_itemStart hstart
        have hshorter : c₁.rest.length < d.rest.length := hshrinks s d s₁ c₁ hread
        have hc₁ : c₁.rest.length ≤ L := by omega
        exact ih hc₁ (hstep s d s₁ c₁ (by omega) hs hread) h

end Loops

/-- The text of a value is some of the text before it. -/
theorem length_parseRawValue {c c' : Cursor} {raw : Bytes} (h : parseRawValue c = .ok (raw, c')) :
    raw.length ≤ c.rest.length := by
  obtain ⟨w, b, m, -, -, -, hs, -⟩ := parseRawValue_eq_ok (p := c.pos) (s := c.rest) h
  rw [hs, List.length_append, List.length_append]
  omega

/-- What a wrapper names as its value is some of its text. -/
theorem length_wrapper_value {w : Wrapper} {d e : Cursor} (h : readAll 0x7D wrapperMember {} d = .ok (w, e)) :
    ∀ raw, w.value = some raw → raw.length ≤ d.rest.length := by
  refine readItems_invariant (P := fun w => ∀ raw, w.value = some raw → raw.length ≤ d.rest.length)
    (fun w => (reads_wrapperMember w).shrinks) ?_ (Nat.le_refl _) (fun raw hraw => by cases hraw) h
  intro w c w' c' hc hw h raw hraw
  obtain ⟨⟨key, c₁⟩, hkey, h⟩ := bind_eq_ok.mp h
  obtain ⟨c₂, hcolon, h⟩ := bind_eq_ok.mp h
  have hshort := length_parseString hkey
  have hshorter : c₂.rest.length < c₁.rest.length := length_consumeChar hcolon
  simp only at h
  split_ifs at h
  · obtain ⟨⟨t, c₃⟩, -, h⟩ := bind_eq_ok.mp h
    obtain ⟨rfl, rfl⟩ := Prod.mk.inj (Except.ok.inj h)
    exact hw raw hraw
  · obtain ⟨⟨value, c₃⟩, hread, h⟩ := bind_eq_ok.mp h
    obtain ⟨rfl, rfl⟩ := Prod.mk.inj (Except.ok.inj h)
    obtain rfl : value = raw := Option.some.inj hraw
    have hle := length_parseRawValue hread
    omega
  · obtain ⟨⟨value, c₃⟩, -, h⟩ := bind_eq_ok.mp h
    obtain ⟨rfl, rfl⟩ := Prod.mk.inj (Except.ok.inj h)
    exact hw raw hraw

/-- A loop asks for what its items ask for. -/
theorem asks_readItems {α β σ : Type} {g : α → Except Bytes β} {closeCh : UInt8}
    {item : (α → Except Bytes β) → σ → Cursor → Except Bytes (σ × Cursor)} {asked : σ → Cursor → α → Prop}
    (hitem : ∀ s c, Asks g (fun h => item h s c) (asked s c)) (hshrinks : ∀ s, Shrinks (item g s)) (n : Nat)
    (first : Bool) (s : σ) (c : Cursor) (hn : c.rest.length < n) :
    Asks g (fun h => readItems closeCh (item h) n first s c)
      fun a => ∃ s' d, Visits closeCh (item g) first s c s' d ∧ asked s' d a := by
  induction n generalizing first s c with
  | zero => omega
  | succ n ih =>
      have heq : (fun h => readItems closeCh (item h) (n + 1) first s c) = fun h =>
          if (skipWhitespace c).rest.head? = some closeCh then .ok (s, (skipWhitespace c).advance 1)
          else itemStart first c >>= fun c => item h s c >>= fun r =>
            readItems closeCh (item h) n false r.1 r.2 := funext fun h => readItems_succ n first s c
      rw [heq]
      by_cases hend : (skipWhitespace c).rest.head? = some closeCh
      · simp only [if_pos hend]
        refine (Asks.const _).of_iff fun a => iff_of_false ?_ id
        rintro ⟨s', d, hvisits, -⟩
        cases hvisits with
        | here hopen => exact hopen hend
        | next hopen => exact hopen hend
      · simp only [if_neg hend]
        have hbody : ∀ d, itemStart first c = .ok d → Asks g
            (fun h => item h s d >>= fun r => readItems closeCh (item h) n false r.1 r.2) fun a =>
              asked s d a ∨ ∃ r, item g s d = .ok r ∧
                ∃ s' e, Visits closeCh (item g) false r.1 r.2 s' e ∧ asked s' e a := by
          intro d hstart
          refine (hitem s d).bind fun r hr => ih false r.1 r.2 ?_
          have hle := length_itemStart hstart
          have hshorter := hshrinks s d r.1 r.2 hr
          omega
        refine (Asks.const_bind (itemStart first c) hbody).of_iff fun a => ?_
        constructor
        · rintro ⟨s', e, hvisits, ha⟩
          cases hvisits with
          | here hopen hstart => exact ⟨e, hstart, Or.inl ha⟩
          | next hopen hstart hread hs => exact ⟨_, hstart, Or.inr ⟨_, hread, s', e, hs, ha⟩⟩
        · rintro ⟨d, hstart, ha | ⟨r, hread, s', e, hs, ha⟩⟩
          · exact ⟨s, d, .here hend hstart, ha⟩
          · exact ⟨s', e, .next hend hstart hread hs, ha⟩

/-! ## One call -/

variable (text : DuckText) (casts : DuckCasts)

/-- `DecodeOne` without the recursion: what it does when it calls `decode`. -/
def decodeBody (decode : Cursor → LogicalType → Except Bytes (Value × Cursor)) (c : Cursor)
    (expected : LogicalType) : Except Bytes (Value × Cursor) :=
  let c := skipWhitespace c
  if c.rest.head? = some 0x7B then
    if looksTyped c then decodeTypedWrapper casts decode c
    else decodeStruct text casts decode c expected
  else if c.rest.head? = some 0x5B then decodeArray text casts decode c expected
  else decodeOne text casts 1 c expected

theorem decodeOne_succ (depth : Nat) (c : Cursor) (expected : LogicalType) :
    decodeOne text casts (depth + 1) c expected =
      decodeBody text casts (decodeOne text casts depth) c expected := by
  rw [decodeBody, decodeOne]
  cases hrest : (skipWhitespace c).rest with
  | nil => simp [decodeOne, hrest]
  | cons b s =>
      simp only [List.head?_cons, Option.some.injEq]
      by_cases hbrace : b = 0x7B
      · subst hbrace
        rfl
      · by_cases hbracket : b = 0x5B
        · subst hbracket
          rfl
        · simp only [if_neg hbrace, if_neg hbracket]
          rw [decodeOne]
          simp only [skipWhitespace_idem, hrest, if_neg hbrace, if_neg hbracket]

/-- A call: a text, where it stands, and a type. -/
abbrev Call : Type := Cursor × LogicalType

/-- The place of a call in the value that makes it. -/
inductive Place where
  /-- A field of a STRUCT. -/
  | field
  /-- An element of a LIST or ARRAY, a key or a value of a MAP. -/
  | element
  /-- The value of a typed wrapper. -/
  | wrapped
deriving DecidableEq, Repr

/-- The place of the field that a key names. -/
def fieldPlace (fields : List (Bytes × LogicalType)) (key : Bytes) : Nat :=
  fields.findIdx fun field => lower field.1 = lower key

/-- The value of a member is decoded as the field that it names. -/
def memberCalls (fields : List (Bytes × LogicalType)) (seen : List (Option Value)) (c : Cursor) (a : Call) :
    Prop :=
  ∃ key c₁ field, parseString c = .ok (key, c₁) ∧ consumeChar 0x3A c₁ = .ok a.1 ∧
    fields[fieldPlace fields key]? = some field ∧
    (seen.getD (fieldPlace fields key) none).isSome = false ∧ a.2 = field.2

/-- A key and a value are decoded one after the other. -/
def entryCalls (g : Call → Except Bytes (Value × Cursor)) (key value : LogicalType) (c : Cursor) (a : Call) :
    Prop :=
  ∃ c₁, consumeChar 0x5B c = .ok c₁ ∧ (a = (c₁, key) ∨
    ∃ r c₂, g (c₁, key) = .ok r ∧ consumeChar 0x2C r.2 = .ok c₂ ∧ a = (c₂, value))

/-- The calls that `DecodeOne` makes when they are answered by `g`. -/
inductive Calls (g : Call → Except Bytes (Value × Cursor)) : Call → Place → Call → Prop where
  | element {c d e : Cursor} {expected child : LogicalType} {vs : List Value}
      (hexpected : expected = .list child ∨ ∃ n, expected = .array child n)
      (hopen : (skipWhitespace c).rest.head? = some 0x5B)
      (hbracket : consumeChar 0x5B (skipWhitespace c) = .ok d)
      (hvisits : Visits 0x5D (listElement (fun c t => g (c, t)) child) true [] d vs e) :
      Calls g (c, expected) .element (e, child)
  | entry {c d e : Cursor} {key value : LogicalType} {es : List (Value × Value)} {a : Call}
      (hopen : (skipWhitespace c).rest.head? = some 0x5B)
      (hbracket : consumeChar 0x5B (skipWhitespace c) = .ok d)
      (hvisits : Visits 0x5D (mapEntry (fun c t => g (c, t)) key value) true [] d es e)
      (h : entryCalls g key value e a) : Calls g (c, .map key value) .element a
  | field {c d e : Cursor} {fs : Fields} {seen : List (Option Value)} {a : Call}
      (hopen : (skipWhitespace c).rest.head? = some 0x7B) (htyped : looksTyped (skipWhitespace c) = false)
      (hbrace : consumeChar 0x7B (skipWhitespace c) = .ok d)
      (hvisits : Visits 0x7D (structMember text (fun c t => g (c, t)) fs.toList (.struct fs)) true
        (List.replicate fs.toList.length none) d seen e)
      (h : memberCalls fs.toList seen e a) : Calls g (c, .struct fs) .field a
  | wrapped {c d e : Cursor} {expected t : LogicalType} {w : Wrapper} {typeString raw : Bytes}
      (hopen : (skipWhitespace c).rest.head? = some 0x7B) (htyped : looksTyped (skipWhitespace c) = true)
      (hbrace : consumeChar 0x7B (skipWhitespace c) = .ok d)
      (hloop : readAll 0x7D wrapperMember {} d = .ok (w, e)) (htype : w.type = some typeString)
      (hvalue : w.value = some raw) (hparse : parseType casts.types typeString = .ok t) :
      Calls g (c, expected) .wrapped (.start raw, t)

section Asks

variable {text casts} {g : Call → Except Bytes (Value × Cursor)}

theorem asks_listElement (child : LogicalType) (vs : List Value) (c : Cursor) :
    Asks g (fun h => listElement (fun c t => h (c, t)) child vs c) fun a => a = (c, child) :=
  (Asks.call (c, child)).bind_const fun r : Value × Cursor => .ok (vs ++ [r.1], r.2)

/-- The value of a member is read once its field is found and free. -/
theorem asks_fieldValue (fields : List (Bytes × LogicalType)) (expected : LogicalType)
    (seen : List (Option Value)) (key : Bytes) (c : Cursor) : Asks g (fun h =>
      match fields[fieldPlace fields key]? with
      | none =>
          .error (lit "STRUCT field '" ++ key ++ lit "' not in expected type " ++
            text.typeToString expected)
      | some field =>
          if (seen.getD (fieldPlace fields key) none).isSome then
            .error (lit "STRUCT input has duplicate field '" ++ key ++
              lit "' (case-insensitive collision with '" ++ field.1 ++ lit "')")
          else h (c, field.2) >>= fun r => .ok (seen.set (fieldPlace fields key) (some r.1), r.2)) fun a =>
        ∃ field, fields[fieldPlace fields key]? = some field ∧
          (seen.getD (fieldPlace fields key) none).isSome = false ∧ a = (c, field.2) := by
  generalize fieldPlace fields key = place
  cases hfield : fields[place]? with
  | none =>
      exact (Asks.const _).of_iff fun a => by simp
  | some field =>
      cases hseen : (seen.getD place none).isSome with
      | true => exact (Asks.const _).of_iff fun a => by simp
      | false =>
          exact ((Asks.call (c, field.2)).bind_const _).of_iff fun a => by simp

theorem asks_structMember (fields : List (Bytes × LogicalType)) (expected : LogicalType)
    (seen : List (Option Value)) (c : Cursor) :
    Asks g (fun h => structMember text (fun c t => h (c, t)) fields expected seen c)
      (memberCalls fields seen c) := by
  refine (Asks.const_bind (parseString c) fun r _ =>
    Asks.const_bind (consumeChar 0x3A r.2) fun c₂ _ =>
      asks_fieldValue fields expected seen r.1 c₂).of_iff fun a => ?_
  constructor
  · rintro ⟨key, c₁, field, hkey, hcolon, hfield, hseen, htype⟩
    exact ⟨(key, c₁), hkey, a.1, hcolon, field, hfield, hseen, Prod.ext rfl htype⟩
  · rintro ⟨⟨key, c₁⟩, hkey, c₂, hcolon, field, hfield, hseen, rfl⟩
    exact ⟨key, c₁, field, hkey, hcolon, hfield, hseen, rfl⟩

theorem asks_mapEntry (key value : LogicalType) (es : List (Value × Value)) (c : Cursor) :
    Asks g (fun h => mapEntry (fun c t => h (c, t)) key value es c) (entryCalls g key value c) := by
  have hsecond : ∀ r : Value × Cursor, Asks g (fun h => consumeChar 0x2C r.2 >>= fun c₂ =>
      h (c₂, value) >>= fun v => (consumeChar 0x5D v.2).mapError (fun _ =>
        lit "MAP element must be exactly [key, value] (extra entries rejected)") >>= fun c₃ =>
          .ok (es ++ [(r.1, v.1)], c₃)) fun a => ∃ c₂, consumeChar 0x2C r.2 = .ok c₂ ∧ a = (c₂, value) :=
    fun r => Asks.const_bind _ fun c₂ _ => (Asks.call (c₂, value)).bind_const _
  have hfirst := fun c₁ => (Asks.call (g := g) (c₁, key)).bind fun r _ => hsecond r
  refine (Asks.const_bind ((consumeChar 0x5B c).mapError fun _ =>
    lit "MAP element must be a 2-element [key, value] pair") fun c₁ _ => hfirst c₁).of_iff fun a => ?_
  constructor
  · rintro ⟨c₁, hbracket, hkey | ⟨r, c₂, hread, hcomma, ha⟩⟩
    · exact ⟨c₁, mapError_eq_ok.mpr hbracket, Or.inl hkey⟩
    · exact ⟨c₁, mapError_eq_ok.mpr hbracket, Or.inr ⟨r, hread, c₂, hcomma, ha⟩⟩
  · rintro ⟨c₁, hbracket, hkey | ⟨r, hread, c₂, hcomma, ha⟩⟩
    · exact ⟨c₁, mapError_eq_ok.mp hbracket, Or.inl hkey⟩
    · exact ⟨c₁, mapError_eq_ok.mp hbracket, Or.inr ⟨r, c₂, hread, hcomma, ha⟩⟩

/-! ## All calls -/

theorem shrinks_listElement {decode : Cursor → LogicalType → Except Bytes (Value × Cursor)}
    (hdecode : ∀ t, Shrinks fun c => decode c t) (child : LogicalType) (vs : List Value) :
    Shrinks (listElement decode child vs) := by
  intro c vs' c' h
  obtain ⟨⟨v, c₁⟩, hread, h⟩ := bind_eq_ok.mp h
  obtain ⟨rfl, rfl⟩ := Prod.mk.inj (Except.ok.inj h)
  exact hdecode child c v c₁ hread

/-- A member that is read is a field that is not given yet. -/
theorem structMember_eq_ok {decode : Cursor → LogicalType → Except Bytes (Value × Cursor)}
    {fields : List (Bytes × LogicalType)} {expected : LogicalType} {seen seen' : List (Option Value)}
    {c c' : Cursor} (h : structMember text decode fields expected seen c = .ok (seen', c')) :
    ∃ key c₁ c₂ field v, parseString c = .ok (key, c₁) ∧ consumeChar 0x3A c₁ = .ok c₂ ∧
      fields[fieldPlace fields key]? = some field ∧ (seen.getD (fieldPlace fields key) none).isSome = false ∧
      decode c₂ field.2 = .ok (v, c') ∧ seen' = seen.set (fieldPlace fields key) (some v) := by
  obtain ⟨⟨key, c₁⟩, hkey, h⟩ := bind_eq_ok.mp h
  obtain ⟨c₂, hcolon, h⟩ := bind_eq_ok.mp h
  have hplace : fields.findIdx (fun field => lower field.1 = lower key) = fieldPlace fields key := rfl
  simp only [hplace] at h
  cases hfield : fields[fieldPlace fields key]? with
  | none =>
      simp only [hfield] at h
      exact nomatch h
  | some field =>
      cases hseen : (seen.getD (fieldPlace fields key) none).isSome with
      | true =>
          simp only [hfield, hseen, if_true] at h
          exact nomatch h
      | false =>
          simp only [hfield, hseen, Bool.false_eq_true, if_false] at h
          obtain ⟨⟨v, c₃⟩, hread, h⟩ := bind_eq_ok.mp h
          obtain ⟨rfl, rfl⟩ := Prod.mk.inj (Except.ok.inj h)
          exact ⟨key, c₁, c₂, field, v, hkey, hcolon, hfield, hseen, hread, rfl⟩

theorem shrinks_structMember {decode : Cursor → LogicalType → Except Bytes (Value × Cursor)}
    (hdecode : ∀ t, Shrinks fun c => decode c t) (fields : List (Bytes × LogicalType))
    (expected : LogicalType) (seen : List (Option Value)) :
    Shrinks (structMember text decode fields expected seen) := by
  intro c seen' c' h
  obtain ⟨key, c₁, c₂, field, v, hkey, hcolon, -, -, hread, -⟩ := structMember_eq_ok h
  have hshort := length_parseString hkey
  have hshorter := length_consumeChar hcolon
  have hvalue := hdecode field.2 c₂ v c' hread
  omega

theorem shrinks_mapEntry {decode : Cursor → LogicalType → Except Bytes (Value × Cursor)}
    (hdecode : ∀ t, Shrinks fun c => decode c t) (key value : LogicalType) (es : List (Value × Value)) :
    Shrinks (mapEntry decode key value es) := by
  intro c es' c' h
  obtain ⟨c₁, hopen, h⟩ := bind_eq_ok.mp h
  obtain ⟨⟨k, c₂⟩, hk, h⟩ := bind_eq_ok.mp h
  obtain ⟨c₃, hcomma, h⟩ := bind_eq_ok.mp h
  obtain ⟨⟨v, c₄⟩, hv, h⟩ := bind_eq_ok.mp h
  obtain ⟨c₅, hclose, h⟩ := bind_eq_ok.mp h
  obtain ⟨rfl, rfl⟩ := Prod.mk.inj (Except.ok.inj h)
  have h₁ := length_consumeChar (mapError_eq_ok.mp hopen)
  have h₂ := hdecode key c₁ k c₂ hk
  have h₃ : c₃.rest.length < c₂.rest.length := length_consumeChar hcomma
  have h₄ := hdecode value c₃ v c₄ hv
  have h₅ : c₅.rest.length < c₄.rest.length := length_consumeChar (mapError_eq_ok.mp hclose)
  show c₅.rest.length < c.rest.length
  omega

/-- A list, and what is made of it. -/
theorem asks_readAll {σ β : Type} {closeCh : UInt8}
    {item : (Call → Except Bytes (Value × Cursor)) → σ → Cursor → Except Bytes (σ × Cursor)}
    {asked : σ → Cursor → Call → Prop} (hitem : ∀ s c, Asks g (fun h => item h s c) (asked s c))
    (hshrinks : ∀ s, Shrinks (item g s)) (openCh : UInt8) (s : σ) (c : Cursor)
    (result : σ × Cursor → Except Bytes β) :
    Asks g (fun h => consumeChar openCh c >>= fun d => readAll closeCh (item h) s d >>= result)
      fun a => ∃ d, consumeChar openCh c = .ok d ∧
        ∃ s' e, Visits closeCh (item g) true s d s' e ∧ asked s' e a :=
  Asks.const_bind _ fun d _ =>
    (asks_readItems hitem hshrinks (d.rest.length + 1) true s d (Nat.lt_succ_self _)).bind_const result

theorem asks_decodeStruct (hg : ∀ t, Shrinks fun c => g (c, t)) {c : Cursor}
    (hopen : (skipWhitespace c).rest.head? = some 0x7B) (htyped : looksTyped (skipWhitespace c) = false)
    (expected : LogicalType) :
    Asks g (fun h => decodeStruct text casts (fun c t => h (c, t)) (skipWhitespace c) expected)
      fun a => ∃ k, Calls text casts g (c, expected) k a := by
  have hnone : (∀ fs, expected ≠ .struct fs) → ∀ a, (∃ k, Calls text casts g (c, expected) k a) ↔ False := by
    intro hother a
    refine iff_of_false ?_ id
    rintro ⟨k, hcall⟩
    cases hcall with
    | element _ hbracket => exact absurd (hbracket.symm.trans hopen) (by decide)
    | entry hbracket => exact absurd (hbracket.symm.trans hopen) (by decide)
    | field => exact hother _ rfl
    | wrapped _ hyes => exact absurd (hyes.symm.trans htyped) (by decide)
  cases expected with
  | struct fs =>
      refine (asks_readAll (fun seen c => asks_structMember fs.toList (.struct fs) seen c)
        (fun seen => shrinks_structMember hg fs.toList (.struct fs) seen) 0x7B
        (List.replicate fs.toList.length none) (skipWhitespace c) _).of_iff fun a => ?_
      constructor
      · rintro ⟨k, hcall⟩
        cases hcall with
        | element _ hbracket => exact absurd (hbracket.symm.trans hopen) (by decide)
        | field _ _ hbrace hvisits ha => exact ⟨_, hbrace, _, _, hvisits, ha⟩
        | wrapped _ hyes => exact absurd (hyes.symm.trans htyped) (by decide)
      · rintro ⟨d, hbrace, seen, e, hvisits, ha⟩
        exact ⟨.field, .field hopen htyped hbrace hvisits ha⟩
  | _ => exact (Asks.const _).of_iff (hnone fun fs => by simp)

theorem asks_decodeArray (hg : ∀ t, Shrinks fun c => g (c, t)) {c : Cursor}
    (hopen : (skipWhitespace c).rest.head? = some 0x5B) (expected : LogicalType) :
    Asks g (fun h => decodeArray text casts (fun c t => h (c, t)) (skipWhitespace c) expected)
      fun a => ∃ k, Calls text casts g (c, expected) k a := by
  -- LIST and ARRAY read their elements the same way
  have hlist : ∀ {child}, (expected = .list child ∨ ∃ n, expected = .array child n) → ∀ a,
      (∃ k, Calls text casts g (c, expected) k a) ↔ ∃ d, consumeChar 0x5B (skipWhitespace c) = .ok d ∧ ∃ vs e,
        Visits 0x5D (listElement (fun c t => g (c, t)) child) true [] d vs e ∧ a = (e, child) := by
    intro child hexpected a
    constructor
    · rintro ⟨k, hcall⟩
      cases hcall with
      | @element _ _ _ _ child' _ hsame _ hbracket hvisits =>
          obtain rfl : child = child' := by
            rcases hexpected with rfl | ⟨n, rfl⟩ <;> rcases hsame with hsame | ⟨m, hsame⟩ <;> cases hsame <;> rfl
          exact ⟨_, hbracket, _, _, hvisits, rfl⟩
      | entry => rcases hexpected with hmap | ⟨n, hmap⟩ <;> cases hmap
      | field => rcases hexpected with hstruct | ⟨n, hstruct⟩ <;> cases hstruct
      | wrapped hbrace => exact absurd (hbrace.symm.trans hopen) (by decide)
    · rintro ⟨d, hbracket, vs, e, hvisits, rfl⟩
      exact ⟨.element, .element hexpected hopen hbracket hvisits⟩
  have hnone : (∀ child, expected ≠ .list child) → (∀ child n, expected ≠ .array child n) →
      (∀ key value, expected ≠ .map key value) → ∀ a, (∃ k, Calls text casts g (c, expected) k a) ↔ False := by
    intro hnotList hnotArray hnotMap a
    refine iff_of_false ?_ id
    rintro ⟨k, hcall⟩
    cases hcall with
    | element hexpected =>
        rcases hexpected with rfl | ⟨n, rfl⟩
        · exact hnotList _ rfl
        · exact hnotArray _ _ rfl
    | entry => exact hnotMap _ _ rfl
    | field hbrace => exact absurd (hbrace.symm.trans hopen) (by decide)
    | wrapped hbrace => exact absurd (hbrace.symm.trans hopen) (by decide)
  cases expected with
  | list child =>
      exact (asks_readAll (fun vs c => asks_listElement child vs c) (fun vs => shrinks_listElement hg child vs)
        0x5B [] (skipWhitespace c) _).of_iff (hlist (Or.inl rfl))
  | array child n =>
      exact (asks_readAll (fun vs c => asks_listElement child vs c) (fun vs => shrinks_listElement hg child vs)
        0x5B [] (skipWhitespace c) _).of_iff (hlist (Or.inr ⟨n, rfl⟩))
  | map key value =>
      refine (asks_readAll (fun es c => asks_mapEntry key value es c)
        (fun es => shrinks_mapEntry hg key value es) 0x5B [] (skipWhitespace c) _).of_iff fun a => ?_
      constructor
      · rintro ⟨k, hcall⟩
        cases hcall with
        | element hexpected => rcases hexpected with hlist | ⟨n, hlist⟩ <;> cases hlist
        | entry _ hbracket hvisits ha => exact ⟨_, hbracket, _, _, hvisits, ha⟩
        | wrapped hbrace => exact absurd (hbrace.symm.trans hopen) (by decide)
      · rintro ⟨d, hbracket, es, e, hvisits, ha⟩
        exact ⟨.element, .entry hopen hbracket hvisits ha⟩
  | _ => exact (Asks.const _).of_iff (hnone (by simp) (by simp) (by simp))

/-- The value of a wrapper is read once both members are there and the type is known. -/
theorem asks_wrapped (r : Wrapper × Cursor) : Asks g (fun h =>
      match r.1.type, r.1.value with
      | none, _ => .error (lit "Mode B wrapper missing `type`")
      | some _, none => .error (lit "Mode B wrapper missing `value`")
      | some typeString, some raw =>
          match parseType casts.types typeString with
          | .error error =>
              .error (lit "Mode B `type` not recognized: " ++ typeString ++ lit " (" ++ error ++ lit ")")
          | .ok type => h (.start raw, type) >>= fun v => .ok (v.1, r.2)) fun a =>
        ∃ typeString raw t, r.1.type = some typeString ∧ r.1.value = some raw ∧
          parseType casts.types typeString = .ok t ∧ a = (.start raw, t) := by
  obtain ⟨⟨type, value⟩, e⟩ := r
  cases type with
  | none => exact (Asks.const _).of_iff fun a => by simp
  | some typeString =>
      cases value with
      | none => exact (Asks.const _).of_iff fun a => by simp
      | some raw =>
          cases hparse : parseType casts.types typeString with
          | error error =>
              simp only [hparse]
              exact (Asks.const _).of_iff fun a => by simp [hparse]
          | ok t =>
              simp only [hparse]
              exact ((Asks.call (Cursor.start raw, t)).bind_const _).of_iff fun a => by simp [hparse]

theorem asks_decodeTypedWrapper {c : Cursor} (hopen : (skipWhitespace c).rest.head? = some 0x7B)
    (htyped : looksTyped (skipWhitespace c) = true) (expected : LogicalType) :
    Asks g (fun h => decodeTypedWrapper casts (fun c t => h (c, t)) (skipWhitespace c))
      fun a => ∃ k, Calls text casts g (c, expected) k a := by
  refine (Asks.const_bind (consumeChar 0x7B (skipWhitespace c)) fun d _ =>
    Asks.const_bind (readAll 0x7D wrapperMember {} d) fun r _ => asks_wrapped r).of_iff fun a => ?_
  constructor
  · rintro ⟨k, hcall⟩
    cases hcall with
    | element _ hbracket => exact absurd (hbracket.symm.trans hopen) (by decide)
    | entry hbracket => exact absurd (hbracket.symm.trans hopen) (by decide)
    | field _ hno => exact absurd (hno.symm.trans htyped) (by decide)
    | wrapped _ _ hbrace hloop htype hvalue hparse =>
        exact ⟨_, hbrace, _, hloop, _, _, _, htype, hvalue, hparse, rfl⟩
  · rintro ⟨d, hbrace, ⟨w, e⟩, hloop, typeString, raw, t, htype, hvalue, hparse, rfl⟩
    exact ⟨.wrapped, .wrapped hopen htyped hbrace hloop htype hvalue hparse⟩

/-- **`DecodeOne` calls itself where `Calls` says.** -/
theorem asks_decodeBody (hg : ∀ t, Shrinks fun c => g (c, t)) (a : Call) :
    Asks g (fun h => decodeBody text casts (fun c t => h (c, t)) a.1 a.2) fun b =>
      ∃ k, Calls text casts g a k b := by
  obtain ⟨c, expected⟩ := a
  simp only [decodeBody]
  by_cases hbrace : (skipWhitespace c).rest.head? = some 0x7B
  · simp only [if_pos hbrace]
    cases htyped : looksTyped (skipWhitespace c) with
    | true => exact asks_decodeTypedWrapper hbrace htyped expected
    | false => exact asks_decodeStruct hg hbrace htyped expected
  · simp only [if_neg hbrace]
    by_cases hbracket : (skipWhitespace c).rest.head? = some 0x5B
    · simp only [if_pos hbracket]
      exact asks_decodeArray hg hbracket expected
    · simp only [if_neg hbracket]
      refine (Asks.const _).of_iff fun b => iff_of_false ?_ id
      rintro ⟨k, hcall⟩
      cases hcall with
      | element _ hopen => exact hbracket hopen
      | entry hopen => exact hbracket hopen
      | field hopen => exact hbrace hopen
      | wrapped hopen => exact hbrace hopen

end Asks

end Harbor.ParamDecoder
