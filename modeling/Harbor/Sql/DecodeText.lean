import Harbor.Sql.WrapperText

set_option autoImplicit false

/-! # Decoding the text of a value

On the text of a JSON value `DecodeOne` reads exactly that text, and what it makes of it depends neither
on where the text stands nor on what follows it (`decodeOne_source`). So the value of a container is put
together from what its members and elements are decoded to when each of them stands alone.
-/

namespace Harbor.ParamDecoder

open Json

variable (text : DuckText) (casts : DuckCasts)

/-- What `DecodeOne` makes of a text of its own. -/
def decodeText (raw : Bytes) (expected : LogicalType) : Option Value :=
  (decodeOne text casts (raw.length + 1) (.start raw) expected).toOption.map Prod.fst

/-- At each type the text of the value is decoded to `result`, wherever it stands. -/
def Decodes (x : Source) (result : LogicalType → Option Value) : Prop :=
  ∀ expected depth p rest, x.text.length < depth + 1 → Ended rest →
    (decodeOne text casts (depth + 1) ⟨p, x.text ++ rest⟩ expected).toOption =
      (result expected).map fun v => (v, ⟨p + x.text.length, rest⟩)

/-- The value is decoded in the same way wherever it stands. -/
def Local (x : Source) : Prop := Decodes text casts x (decodeText text casts x.text)

variable {text casts}

theorem Decodes.eq {x : Source} {result : LogicalType → Option Value}
    (h : Decodes text casts x result) : decodeText text casts x.text = result := by
  funext expected
  have halone := h expected x.text.length 0 [] (Nat.lt_succ_self _) ended_nil
  rw [List.append_nil] at halone
  rw [decodeText, Cursor.start, halone]
  cases result expected <;> rfl

theorem Decodes.local {x : Source} {result : LogicalType → Option Value}
    (h : Decodes text casts x result) : Local text casts x := by
  rw [Local, h.eq]
  exact h

theorem skips_decodeOne (depth : Nat) (expected : LogicalType) :
    Skips fun c => decodeOne text casts depth c expected := by
  intro c
  cases depth with
  | zero => rfl
  | succ depth => simp only [decodeOne, skipWhitespace_idem]

/-! ## Values without parts -/

theorem decodes_null : Decodes text casts .null fun expected => some (.null expected) := by
  intro expected depth p rest _ _
  have hshape : Source.null.text ++ rest = 0x6E :: 0x75 :: 0x6C :: 0x6C :: rest := rfl
  rw [hshape, decodeOne, skipWhitespace_cons (by decide)]
  rfl

theorem decodes_bool (b : Bool) :
    Decodes text casts (.bool b) fun expected => (coerceBool text casts b expected).toOption := by
  intro expected depth p rest _ _
  cases b with
  | true =>
      have hshape : (Source.bool true).text ++ rest = 0x74 :: 0x72 :: 0x75 :: 0x65 :: rest := rfl
      rw [hshape, decodeOne, skipWhitespace_cons (by decide)]
      exact toOption_map_ok (coerceBool text casts true expected) fun v => (v, (⟨p + 4, rest⟩ : Cursor))
  | false =>
      have hshape : (Source.bool false).text ++ rest = 0x66 :: 0x61 :: 0x6C :: 0x73 :: 0x65 :: rest := rfl
      rw [hshape, decodeOne, skipWhitespace_cons (by decide)]
      exact toOption_map_ok (coerceBool text casts false expected) fun v => (v, (⟨p + 5, rest⟩ : Cursor))

theorem decodes_str {ps : List Piece} (hps : ∀ p ∈ ps, p.Ok) :
    Decodes text casts (.str ps) fun expected =>
      (coerceJsonString text casts (ps.flatMap decodePiece) expected).toOption := by
  intro expected depth p rest _ _
  have hparse := parseString_spell hps p rest
  have hshape : (Source.str ps).text ++ rest = 0x22 :: (spell ps ++ [0x22] ++ rest) := rfl
  rw [show (Source.str ps).text = quoted ps from rfl] at hshape ⊢
  rw [hshape] at hparse ⊢
  rw [decodeOne, skipWhitespace_cons (by decide)]
  refine Eq.trans (b := (parseString ⟨p, 0x22 :: (spell ps ++ [0x22] ++ rest)⟩ >>= fun r =>
    coerceJsonString text casts r.1 expected >>= fun v => Except.ok (v, r.2)).toOption) rfl ?_
  rw [hparse]
  exact toOption_map_ok (coerceJsonString text casts (ps.flatMap decodePiece) expected)
    fun v => (v, (⟨p + (quoted ps).length, rest⟩ : Cursor))

theorem isNumberChar_of_isNumberByte (b : UInt8) : isNumberByte b = isNumberChar b :=
  forall_byte (P := fun b => isNumberByte b = isNumberChar b) (by decide +kernel) b

theorem isNumberChar_of_ended {rest : Bytes} (h : Ended rest) :
    rest.takeWhile isNumberChar = [] := by
  cases rest with
  | nil => rfl
  | cons b rest =>
      have hb : isNumberChar b = false := by
        rcases h b rfl with rfl | rfl | rfl | hws
        · rfl
        · rfl
        · rfl
        · exact forall_byte (P := fun b => isWs b = true → isNumberChar b = false)
            (by decide +kernel) b hws
      simp [hb]

/-- A minus or a digit leads to the number scan. -/
theorem decodeOne_number {b : UInt8} (hb : b = 0x2D ∨ Bytes.isDigit b = true) (s : Bytes)
    (expected : LogicalType) (depth p : Nat) :
    decodeOne text casts (depth + 1) ⟨p, b :: s⟩ expected =
      coerceJsonNumber text casts ((b :: s).takeWhile isNumberChar) expected >>= fun v =>
        .ok (v, (⟨p, b :: s⟩ : Cursor).advance ((b :: s).takeWhile isNumberChar).length) := by
  have hws : isWs b = false := by
    rcases hb with rfl | hb
    · rfl
    · exact isDigit_not_ws hb
  have hfirst : (decide (b = 0x2D) || Bytes.isDigit b) = true := by
    rcases hb with rfl | hb
    · rfl
    · simp [hb]
  have hother : b ≠ 0x6E ∧ b ≠ 0x74 ∧ b ≠ 0x66 ∧ b ≠ 0x22 := by
    rcases hb with rfl | hb
    · decide
    · grind [Bytes.isDigit]
  rw [decodeOne, skipWhitespace_cons hws]
  simp only [if_neg hother.1, if_neg hother.2.1, if_neg hother.2.2.1, if_neg hother.2.2.2, hfirst,
    if_true]

theorem decodes_num {l : Bytes} (hl : IsNumber l) :
    Decodes text casts (.num l) fun expected => (coerceJsonNumber text casts l expected).toOption := by
  intro expected depth p rest _ hrest
  have htake : (l ++ rest).takeWhile isNumberChar = l := by
    rw [List.takeWhile_append_of_pos, isNumberChar_of_ended hrest, List.append_nil]
    intro b hb
    rw [← isNumberChar_of_isNumberByte]
    exact hl.isNumberByte b hb
  obtain ⟨b, s, hbs, hb⟩ := hl.head
  have hdispatch : decodeOne text casts (depth + 1) ⟨p, l ++ rest⟩ expected =
      coerceJsonNumber text casts ((l ++ rest).takeWhile isNumberChar) expected >>= fun v =>
        .ok (v, (⟨p, l ++ rest⟩ : Cursor).advance ((l ++ rest).takeWhile isNumberChar).length) := by
    rw [hbs, List.cons_append]
    exact decodeOne_number hb (s ++ rest) expected depth p
  rw [Source.text, hdispatch, htake, toOption_map_ok, Cursor.advance_append]

/-! ## Elements -/

theorem Local.between {x : Source} (hx : Local text casts x) {u v : Bytes} (hu : IsBlank u)
    (hv : IsBlank v) {depth : Nat} (hdepth : x.text.length < depth) (expected : LogicalType) (p : Nat)
    {rest : Bytes} (hrest : Ended rest) :
    (decodeOne text casts depth ⟨p, u ++ (x.text ++ (v ++ rest))⟩ expected).toOption =
      (decodeText text casts x.text expected).map fun w => (w, ⟨p + u.length + x.text.length, v ++ rest⟩) := by
  have hskip := (@skips_decodeOne text casts depth expected).blank hu p
    (x.text ++ (v ++ rest))
  rw [hskip]
  obtain ⟨depth, rfl⟩ := Nat.exists_eq_add_one_of_ne_zero (Nat.ne_of_gt (Nat.zero_lt_of_lt hdepth))
  exact hx expected depth _ _ hdepth (hv.ended hrest)

theorem itemText_head {x : Item Source} (hx : x.Ok) (hvalue : x.value.Ok) :
    ∃ w b t, Source.itemText x = w ++ b :: t ∧ IsBlank w ∧ isWs b = false ∧ b ≠ 0x5D := by
  obtain ⟨b, s, htext, hb, -, hclose, -⟩ := hvalue.head
  have hitem : Source.itemText x = x.before ++ b :: (s ++ x.after) := by
    rw [Source.itemText_eq, htext]
    simp
  exact ⟨x.before, b, _, hitem, hx.1, hb, hclose⟩

/-- An element of a LIST or ARRAY. -/
theorem readsItem_listElement {x : Item Source} (hx : x.Ok) (hvalue : x.value.Ok)
    (hlocal : Local text casts x.value) {depth : Nat} (hdepth : x.value.text.length < depth)
    (child : LogicalType) :
    ReadsItem 0x5D (listElement (decodeOne text casts depth) child)
      (fun vs x => (decodeText text casts x.value.text child).map fun v => vs ++ [v]) Source.itemText x := by
  refine ⟨itemText_head hx hvalue, fun vs p rest hrest => ?_⟩
  have hdecode := hlocal.between hx.1 hx.2 hdepth child p hrest
  have hskip := skipWhitespace_blank hx.2 (p + x.before.length + x.value.text.length) rest
  have hlen : p + (Source.itemText x).length =
      p + x.before.length + x.value.text.length + x.after.length := by
    rw [Source.itemText_eq, List.length_append, List.length_append]
    omega
  have hshape : Source.itemText x ++ rest = x.before ++ (x.value.text ++ (x.after ++ rest)) := by
    rw [Source.itemText_eq]
    simp only [List.append_assoc]
  rw [hlen, ← hskip, hshape]
  refine Eq.trans (b := (decodeOne text casts depth
    ⟨p, x.before ++ (x.value.text ++ (x.after ++ rest))⟩ child >>= fun r =>
      Except.ok (vs ++ [r.1], r.2)).toOption.map fun r => (r.1, skipWhitespace r.2)) rfl ?_
  rw [toOption_map_ok, hdecode]
  cases decodeText text casts x.value.text child <;> rfl

theorem skips_listElement (depth : Nat) (child : LogicalType) (vs : List Value) :
    Skips (listElement (decodeOne text casts depth) child vs) := by
  intro c
  rw [listElement, listElement]
  have hskip := @skips_decodeOne text casts depth child c
  simp only at hskip
  rw [hskip]

/-! ## Arrays -/

theorem decodeOne_bracket (depth p : Nat) (s : Bytes) (expected : LogicalType) :
    decodeOne text casts (depth + 1) ⟨p, 0x5B :: s⟩ expected =
      decodeArray text casts (decodeOne text casts depth) ⟨p, 0x5B :: s⟩ expected := by
  rw [decodeOne, skipWhitespace_cons (by decide)]
  rfl

/-- Nothing is decoded from a closing bracket. -/
theorem decodeOne_close (depth p : Nat) {u : Bytes} (hu : IsBlank u) (s : Bytes)
    (expected : LogicalType) :
    (decodeOne text casts depth ⟨p, u ++ 0x5D :: s⟩ expected).toOption = none := by
  cases depth with
  | zero => rfl
  | succ depth =>
      rw [decodeOne, skipWhitespace_value hu (by decide)]
      rfl

variable (text casts) in
/-- One entry of a MAP: an array of two. -/
def decodeEntry (key value : LogicalType) : Source → Option (Value × Value)
  | .arr _ [k, v] => do
      let k ← decodeText text casts k.value.text key
      let v ← decodeText text casts v.value.text value
      some (k, v)
  | _ => none

theorem toOption_mapEntry (decode : Cursor → LogicalType → Except Bytes (Value × Cursor))
    (key value : LogicalType) (entries : List (Value × Value)) (c : Cursor) :
    (mapEntry decode key value entries c).toOption =
      (consumeChar 0x5B c).toOption.bind fun c => (decode c key).toOption.bind fun k =>
        (consumeChar 0x2C k.2).toOption.bind fun c => (decode c value).toOption.bind fun v =>
          (consumeChar 0x5D v.2).toOption.map fun c => (entries ++ [(k.1, v.1)], c) := by
  rw [mapEntry, toOption_bind, toOption_mapError]
  congr 1
  funext c
  refine (toOption_bind (decode c key) _).trans ?_
  congr 1
  funext k
  refine (toOption_bind (consumeChar 0x2C k.2) _).trans ?_
  congr 1
  funext c
  refine (toOption_bind (decode c value) _).trans ?_
  congr 1
  funext v
  refine (toOption_bind ((consumeChar 0x5D v.2).mapError _) _).trans ?_
  rw [toOption_mapError]
  cases consumeChar 0x5D v.2 <;> rfl

theorem length_item_lt {xs : List (Item Source)} {x : Item Source} (hx : x ∈ xs) (blank : Bytes) :
    x.value.text.length < (Source.arr blank xs).text.length := by
  have hle := @Bytes.length_le_intercalate [0x2C] _ _ (List.mem_map_of_mem (f := Source.itemText) hx)
  rw [Source.itemText_eq] at hle
  rw [Source.text, Source.itemTexts_eq]
  simp only [List.length_append, List.length_cons] at hle ⊢
  omega

theorem length_member_lt {ms : List (Member Source)} {m : Member Source} (hm : m ∈ ms) (blank : Bytes) :
    m.value.text.length < (Source.obj blank ms).text.length := by
  have hle := @Bytes.length_le_intercalate [0x2C] _ _ (List.mem_map_of_mem (f := Source.memberText) hm)
  rw [Source.memberText_eq] at hle
  rw [Source.text, Source.memberTexts_eq]
  simp only [List.length_append, List.length_cons] at hle ⊢
  omega

theorem isBlank_append {u v : Bytes} (hu : IsBlank u) (hv : IsBlank v) : IsBlank (u ++ v) := by
  intro b hb
  rcases List.mem_append.mp hb with hb | hb
  · exact hu b hb
  · exact hv b hb

/-- Behind the bracket that opens an entry. -/
theorem mapEntry_inside {blank : Bytes} (hblank : IsBlank blank) {ys : List (Item Source)}
    (hys : ∀ y ∈ ys, y.Ok) (hlocal : ∀ y ∈ ys, Local text casts y.value) {depth : Nat}
    (hdepth : ∀ y ∈ ys, y.value.text.length < depth) (key value : LogicalType) (p : Nat)
    (behind : Bytes) (entries : List (Value × Value)) :
    ((decodeOne text casts depth ⟨p, blank ++ [0x2C].intercalate (ys.map Source.itemText) ++
        0x5D :: behind⟩ key).toOption.bind fun k =>
      (consumeChar 0x2C k.2).toOption.bind fun c =>
        (decodeOne text casts depth c value).toOption.bind fun v =>
          (consumeChar 0x5D v.2).toOption.map fun c => (entries ++ [(k.1, v.1)], c)) =
      (decodeEntry text casts key value (.arr blank ys)).map fun e => (entries ++ [e],
        ⟨p + (blank ++ [0x2C].intercalate (ys.map Source.itemText)).length + 1, behind⟩) := by
  have hclose : (0x5D : UInt8) = 0x5D ∨ (0x5D : UInt8) = 0x7D := Or.inl rfl
  cases ys with
  | nil =>
      rw [List.map_nil, List.intercalate_nil, List.append_nil, decodeOne_close depth p hblank]
      rfl
  | cons y ys =>
      have hy := hys y (by simp)
      have hended := ended_items Source.itemText hclose ys behind
      have hkey := (hlocal y (by simp)).between (isBlank_append hblank hy.1) hy.2 (hdepth y (by simp))
        key p hended
      -- the text of the items, split behind the first
      have hshape : blank ++ [0x2C].intercalate ((y :: ys).map Source.itemText) ++ 0x5D :: behind =
          blank ++ y.before ++ (y.value.text ++ (y.after ++
            (ys.flatMap (fun x => 0x2C :: Source.itemText x) ++ 0x5D :: behind))) := by
        rw [List.map_cons, Bytes.intercalate_cons, List.flatMap_map, Source.itemText_eq]
        simp
      rw [hshape, hkey]
      cases hk : decodeText text casts y.value.text key with
      | none =>
          rcases ys with _ | ⟨z, _ | ⟨w, ws⟩⟩
          · rfl
          · simp [decodeEntry, hk]
          · rfl
      | some k =>
          rw [Option.map_some, Option.bind_some]
          cases ys with
          | nil =>
              rw [List.flatMap_nil, List.nil_append, consumeChar_ne (by decide) (by decide) hy.2]
              rfl
          | cons z zs =>
              have hz := hys z (by simp)
              have hended := ended_items Source.itemText hclose zs behind
              have hcomma := consumeChar_blank (b := 0x2C) (by decide) hy.2
                (p + (blank ++ y.before).length + y.value.text.length)
                (Source.itemText z ++ (zs.flatMap (fun x => 0x2C :: Source.itemText x) ++ 0x5D :: behind))
              have hvalue := (hlocal z (by simp)).between hz.1 hz.2 (hdepth z (by simp)) value
                (p + (blank ++ y.before).length + y.value.text.length + y.after.length + 1) hended
              have hitem : Source.itemText z ++
                    (zs.flatMap (fun x => 0x2C :: Source.itemText x) ++ 0x5D :: behind) =
                  z.before ++ (z.value.text ++ (z.after ++
                    (zs.flatMap (fun x => 0x2C :: Source.itemText x) ++ 0x5D :: behind))) := by
                rw [Source.itemText_eq]
                simp only [List.append_assoc]
              rw [List.flatMap_cons, List.cons_append, List.cons_append, List.append_assoc, hcomma]
              rw [toOption_ok, Option.bind_some, hitem, hvalue]
              cases hv : decodeText text casts z.value.text value with
              | none =>
                  cases zs with
                  | nil => simp [decodeEntry, hv]
                  | cons w ws => rfl
              | some v =>
                  rw [Option.map_some, Option.bind_some]
                  cases zs with
                  | nil =>
                      rw [List.flatMap_nil, List.nil_append, consumeChar_blank (by decide) hz.2]
                      have hentry : decodeEntry text casts key value (.arr blank [y, z]) = some (k, v) := by
                        simp [decodeEntry, hk, hv]
                      have hlen : (blank ++ [0x2C].intercalate ([y, z].map Source.itemText)).length =
                          (blank ++ y.before).length + y.value.text.length + y.after.length + 1 +
                            z.before.length + z.value.text.length + z.after.length := by
                        rw [List.map_cons, Bytes.intercalate_cons, List.map_cons, List.map_nil,
                          List.flatMap_singleton, Source.itemText_eq, Source.itemText_eq]
                        simp only [List.length_append, List.length_cons, List.length_nil]
                        omega
                      rw [hentry, toOption_ok, Option.map_some, Option.map_some, hlen]
                      simp only [Nat.add_assoc]
                  | cons w ws =>
                      rw [List.flatMap_cons, List.cons_append, List.cons_append,
                        consumeChar_ne (by decide) (by decide) hz.2]
                      rfl

theorem source_head_arr {x : Source} (hx : x.Ok) (hne : ∀ blank ys, x ≠ .arr blank ys) :
    ∃ b s, x.text = b :: s ∧ isWs b = false ∧ b ≠ 0x5B := by
  cases hx with
  | null => exact ⟨0x6E, lit "ull", rfl, by decide⟩
  | bool b =>
      cases b with
      | false => exact ⟨0x66, lit "alse", rfl, by decide⟩
      | true => exact ⟨0x74, lit "rue", rfl, by decide⟩
  | num hl =>
      obtain ⟨b, s, rfl, hb⟩ := hl.head
      refine ⟨b, s, rfl, ?_⟩
      rcases hb with rfl | hb
      · decide
      · grind [Bytes.isDigit, isWs]
  | str hps => exact ⟨0x22, _, rfl, by decide⟩
  | arr hblank hxs hvalues => exact absurd rfl (hne _ _)
  | obj hblank hms hvalues => exact ⟨0x7B, _, rfl, by decide⟩

/-- An entry of a MAP. -/
theorem readsItem_mapEntry {x : Item Source} (hx : x.Ok) (hvalue : x.value.Ok)
    (hlocal : ∀ blank ys, x.value = .arr blank ys → ∀ y ∈ ys, Local text casts y.value) {depth : Nat}
    (hdepth : x.value.text.length < depth) (key value : LogicalType) :
    ReadsItem 0x5D (mapEntry (decodeOne text casts depth) key value)
      (fun es x => (decodeEntry text casts key value x.value).map fun e => es ++ [e])
      Source.itemText x := by
  refine ⟨itemText_head hx hvalue, fun es p rest hrest => ?_⟩
  have hlen : p + (Source.itemText x).length =
      p + x.before.length + x.value.text.length + x.after.length := by
    rw [Source.itemText_eq, List.length_append, List.length_append]
    omega
  have hshape : Source.itemText x ++ rest = x.before ++ (x.value.text ++ (x.after ++ rest)) := by
    rw [Source.itemText_eq]
    simp only [List.append_assoc]
  rw [toOption_mapEntry, hlen, hshape,
    ← skipWhitespace_blank hx.2 (p + x.before.length + x.value.text.length) rest]
  by_cases harr : ∃ blank ys, x.value = .arr blank ys
  · obtain ⟨blank, ys, hys⟩ := harr
    rw [hys] at hvalue hdepth ⊢
    cases hvalue with
    | arr hblank hitems hvalues =>
        have htext : (Source.arr blank ys).text =
            0x5B :: (blank ++ [0x2C].intercalate (ys.map Source.itemText) ++ [0x5D]) := by
          rw [Source.text, Source.itemTexts_eq]
          simp
        have hinside := mapEntry_inside hblank hitems (hlocal blank ys hys)
          (fun y hy => Nat.lt_trans (length_item_lt hy blank) hdepth) key value
          (p + x.before.length + 1) (x.after ++ rest) es
        have hopen : consumeChar 0x5B ⟨p, x.before ++ ((Source.arr blank ys).text ++ (x.after ++ rest))⟩ =
            .ok ⟨p + x.before.length + 1, blank ++ [0x2C].intercalate (ys.map Source.itemText) ++
              0x5D :: (x.after ++ rest)⟩ := by
          rw [htext, List.cons_append, consumeChar_blank (by decide) hx.1, List.append_assoc,
            List.singleton_append]
        rw [hopen, toOption_ok, Option.bind_some, hinside, Option.map_map, Option.map_map]
        congr 1
        funext e
        simp only [Function.comp_apply, htext, List.length_cons, List.length_append, List.length_nil]
        congr 3
        omega
  · -- an entry that is no array is refused at its first byte
    have hnot : ∀ blank ys, x.value ≠ .arr blank ys := fun blank ys h => harr ⟨blank, ys, h⟩
    obtain ⟨b, s, htext, hb, hne⟩ := source_head_arr hvalue hnot
    have hentry : decodeEntry text casts key value x.value = none := by
      cases hx : x.value <;> first | rfl | exact absurd hx (hnot _ _)
    rw [htext, List.cons_append, consumeChar_ne hb hne hx.1, hentry]
    rfl

theorem skips_mapEntry (decode : Cursor → LogicalType → Except Bytes (Value × Cursor))
    (key value : LogicalType) (es : List (Value × Value)) : Skips (mapEntry decode key value es) := by
  intro c
  rw [mapEntry, mapEntry, skips_consumeChar]

/-- A container is assembled where its last bracket has been read. -/
theorem assemble {σ : Type} (parts : Option σ) (f : σ → Except Bytes Value) (c : Cursor) :
    (parts.bind fun s => (f s >>= fun v => Except.ok (v, c)).toOption) =
      (parts.bind fun s => (f s).toOption).map fun v => (v, c) := by
  cases parts with
  | none => rfl
  | some s => exact toOption_map_ok (f s) _

variable (text casts) in
/-- What the elements of an array are at a type. -/
def decodeElements (xs : List (Item Source)) : LogicalType → Option Value
  | .list child =>
      (xs.foldlM (fun vs x => (decodeText text casts x.value.text child).map fun v => vs ++ [v]) []).bind
        fun vs => (casts.list child vs).toOption
  | .array child size =>
      (xs.foldlM (fun vs x => (decodeText text casts x.value.text child).map fun v => vs ++ [v]) []).bind
        fun vs => if vs.length ≠ size then none else (casts.array child vs).toOption
  | .map key value =>
      (xs.foldlM (fun es x => (decodeEntry text casts key value x.value).map fun e => es ++ [e])
        []).bind fun es => (casts.map key value es).toOption
  | _ => none

theorem decodes_arr {blank : Bytes} {xs : List (Item Source)} (hblank : IsBlank blank)
    (hxs : ∀ x ∈ xs, x.Ok) (hvalues : ∀ x ∈ xs, x.value.Ok)
    (ih : ∀ x ∈ xs, Local text casts x.value)
    (ihParts : ∀ x ∈ xs, ∀ blank ys, x.value = .arr blank ys → ∀ y ∈ ys, Local text casts y.value) :
    Decodes text casts (.arr blank xs) (decodeElements text casts xs) := by
  have hopen : isWs 0x5B = false := by decide
  have hclose : (0x5D : UInt8) = 0x5D ∨ (0x5D : UInt8) = 0x7D := Or.inl rfl
  have htext : (Source.arr blank xs).text =
      0x5B :: blank ++ [0x2C].intercalate (xs.map Source.itemText) ++ [0x5D] := by
    rw [Source.text, Source.itemTexts_eq]
  -- an element is shorter than the array, so the levels left are enough for it
  have helements : ∀ depth child, (Source.arr blank xs).text.length < depth + 1 →
      ∀ x ∈ xs, ReadsItem 0x5D (listElement (decodeOne text casts depth) child)
        (fun vs x => (decodeText text casts x.value.text child).map fun v => vs ++ [v]) Source.itemText x :=
    fun depth child hdepth x hx => readsItem_listElement (hxs x hx) (hvalues x hx) (ih x hx)
      (Nat.lt_of_lt_of_le (length_item_lt hx blank) (Nat.lt_succ_iff.mp hdepth)) child
  have hentries : ∀ depth key value, (Source.arr blank xs).text.length < depth + 1 →
      ∀ x ∈ xs, ReadsItem 0x5D (mapEntry (decodeOne text casts depth) key value)
        (fun es x => (decodeEntry text casts key value x.value).map fun e => es ++ [e])
        Source.itemText x :=
    fun depth key value hdepth x hx => readsItem_mapEntry (hxs x hx) (hvalues x hx) (ihParts x hx)
      (Nat.lt_of_lt_of_le (length_item_lt hx blank) (Nat.lt_succ_iff.mp hdepth)) key value
  -- every expected type is decided behind the bracket
  have hdispatch : ∀ depth p rest expected,
      decodeOne text casts (depth + 1) ⟨p, (Source.arr blank xs).text ++ rest⟩ expected =
        decodeArray text casts (decodeOne text casts depth) ⟨p, (Source.arr blank xs).text ++ rest⟩
          expected := by
    intro depth p rest expected
    rw [htext, List.cons_append, List.cons_append, List.cons_append, decodeOne_bracket]
  intro expected depth p rest hdepth _
  rw [hdispatch]
  cases expected with
  | list child =>
      refine (readContainer hopen hclose (skips_listElement depth child) (helements depth child hdepth)
        hblank [] p rest htext fun r => orElse _ (casts.list child r.1) >>= fun v =>
          .ok (v, r.2)).trans ?_
      rw [assemble, decodeElements]
      simp only [orElse, toOption_mapError]
  | array child size =>
      refine (readContainer hopen hclose (skips_listElement depth child) (helements depth child hdepth)
        hblank [] p rest htext fun r => if r.1.length ≠ size then .error _ else
          orElse _ (casts.array child r.1) >>= fun v => .ok (v, r.2)).trans ?_
      rw [decodeElements, Option.map_bind]
      congr 1
      funext vs
      simp only [Function.comp_apply]
      split_ifs
      · rfl
      · rw [toOption_map_ok, orElse, toOption_mapError]
  | map key value =>
      refine (readContainer hopen hclose (skips_mapEntry _ key value) (hentries depth key value hdepth)
        hblank [] p rest htext fun r => orElse _ (casts.map key value r.1) >>= fun v =>
          .ok (v, r.2)).trans ?_
      rw [assemble, decodeElements]
      simp only [orElse, toOption_mapError]
  | _ => rfl

/-! ## Objects -/

variable (text casts) in
/-- What a member of an object changes in the fields of a STRUCT. -/
def structStep (fields : List (Bytes × LogicalType)) (seen : List (Option Value)) (m : Member Source) :
    Option (List (Option Value)) :=
  let place := fields.findIdx fun field => Bytes.lower field.1 = Bytes.lower (memberName m)
  match fields[place]? with
  | none => none
  | some field =>
      if (seen.getD place none).isSome then none
      else (decodeText text casts m.value.text field.2).map fun v => seen.set place (some v)

theorem readsItem_structMember {m : Member Source} (hm : m.Ok) (hlocal : Local text casts m.value)
    {depth : Nat} (hdepth : m.value.text.length < depth) (fields : List (Bytes × LogicalType))
    (expected : LogicalType) :
    ReadsItem 0x7D (structMember text (decodeOne text casts depth) fields expected)
      (structStep text casts fields) Source.memberText m := by
  refine ⟨memberText_head hm, fun seen p rest hrest => ?_⟩
  obtain ⟨q, hq, hbind⟩ := member_bind hm p rest
  have hskip := skipWhitespace_blank hm.after (q + m.afterColon.length + m.value.text.length) rest
  rw [hq] at hskip
  have hread : structMember text (decodeOne text casts depth) fields expected seen
      ⟨p, Source.memberText m ++ rest⟩ =
        match fields[fields.findIdx fun field =>
          decide (Bytes.lower field.1 = Bytes.lower (memberName m))]? with
        | none =>
            .error (lit "STRUCT field '" ++ memberName m ++ lit "' not in expected type " ++
              text.typeToString expected)
        | some field =>
            if (seen.getD (fields.findIdx fun field =>
                decide (Bytes.lower field.1 = Bytes.lower (memberName m))) none).isSome then
              .error (lit "STRUCT input has duplicate field '" ++ memberName m ++
                lit "' (case-insensitive collision with '" ++ field.1 ++ lit "')")
            else
              decodeOne text casts depth ⟨q, m.afterColon ++ (m.value.text ++ (m.after ++ rest))⟩ field.2
                >>= fun r => .ok (seen.set (fields.findIdx fun field =>
                  decide (Bytes.lower field.1 = Bytes.lower (memberName m))) (some r.1), r.2) :=
    hbind fun key c =>
      match fields[fields.findIdx fun field => Bytes.lower field.1 = Bytes.lower key]? with
      | none =>
          .error (lit "STRUCT field '" ++ key ++ lit "' not in expected type " ++
            text.typeToString expected)
      | some field =>
          if (seen.getD (fields.findIdx fun field => Bytes.lower field.1 = Bytes.lower key) none).isSome
            then
            .error (lit "STRUCT input has duplicate field '" ++ key ++
              lit "' (case-insensitive collision with '" ++ field.1 ++ lit "')")
          else
            decodeOne text casts depth c field.2 >>= fun r =>
              .ok (seen.set (fields.findIdx fun field => Bytes.lower field.1 = Bytes.lower key)
                (some r.1), r.2)
  rw [hread, structStep, ← hskip]
  -- from here the field is found or not, at whatever place
  generalize fields.findIdx (fun field =>
    decide (Bytes.lower field.1 = Bytes.lower (memberName m))) = place
  cases fields[place]? with
  | none => rfl
  | some field =>
      have hdecode := hlocal.between hm.afterColon hm.after hdepth field.2 q hrest
      simp only
      split_ifs
      · rfl
      · rw [toOption_map_ok, hdecode]
        cases decodeText text casts m.value.text field.2 <;> rfl

theorem skips_structMember (decode : Cursor → LogicalType → Except Bytes (Value × Cursor))
    (fields : List (Bytes × LogicalType)) (expected : LogicalType) (seen : List (Option Value)) :
    Skips (structMember text decode fields expected seen) := by
  intro c
  rw [structMember, structMember, skips_parseString]

/-- What a member of an object changes in a typed wrapper. -/
def wrapperStep (w : Wrapper) (m : Member Source) : Option Wrapper :=
  if memberName m = lit "type" then
    match m.value with
    | .str ps => some { w with type := some (ps.flatMap decodePiece) }
    | _ => none
  else if memberName m = lit "value" then some { w with value := some m.value.text }
  else some w

/-- Nothing but a quote starts a string. -/
theorem parseString_ne {b : UInt8} (hb : isWs b = false) (hne : b ≠ 0x22) (p : Nat) (s : Bytes) :
    (parseString ⟨p, b :: s⟩).toOption = none := by
  rw [parseString, skipWhitespace_cons hb]
  simp only [if_neg hne]
  rfl

theorem source_head_str {x : Source} (hx : x.Ok) (hne : ∀ ps, x ≠ .str ps) :
    ∃ b s, x.text = b :: s ∧ isWs b = false ∧ b ≠ 0x22 := by
  cases hx with
  | null => exact ⟨0x6E, lit "ull", rfl, by decide⟩
  | bool b =>
      cases b with
      | false => exact ⟨0x66, lit "alse", rfl, by decide⟩
      | true => exact ⟨0x74, lit "rue", rfl, by decide⟩
  | num hl =>
      obtain ⟨b, s, rfl, hb⟩ := hl.head
      refine ⟨b, s, rfl, ?_⟩
      rcases hb with rfl | hb
      · decide
      · grind [Bytes.isDigit, isWs]
  | str hps => exact absurd rfl (hne _)
  | arr hblank hxs hvalues => exact ⟨0x5B, _, rfl, by decide⟩
  | obj hblank hms hvalues => exact ⟨0x7B, _, rfl, by decide⟩

theorem readsItem_wrapperMember {m : Member Source} (hm : m.Ok) (hvalue : m.value.Ok) :
    ReadsItem 0x7D wrapperMember wrapperStep Source.memberText m := by
  refine ⟨memberText_head hm, fun w p rest hrest => ?_⟩
  obtain ⟨q, hq, hbind⟩ := member_bind hm p rest
  have hskip := skipWhitespace_blank hm.after (q + m.afterColon.length + m.value.text.length) rest
  have hraw := parseRawValue_member hm hvalue q hrest
  rw [hq] at hskip
  have hread : wrapperMember w ⟨p, Source.memberText m ++ rest⟩ =
      if memberName m = lit "type" then
        parseString ⟨q, m.afterColon ++ (m.value.text ++ (m.after ++ rest))⟩ >>= fun r =>
          .ok ({ w with type := some r.1 }, r.2)
      else if memberName m = lit "value" then
        parseRawValue ⟨q, m.afterColon ++ (m.value.text ++ (m.after ++ rest))⟩ >>= fun r =>
          .ok ({ w with value := some r.1 }, r.2)
      else
        parseRawValue ⟨q, m.afterColon ++ (m.value.text ++ (m.after ++ rest))⟩ >>= fun r =>
          .ok (w, r.2) :=
    hbind fun key c =>
      if key = lit "type" then
        parseString c >>= fun r => .ok (({ w with type := some r.1 } : Wrapper), r.2)
      else if key = lit "value" then
        parseRawValue c >>= fun r => .ok (({ w with value := some r.1 } : Wrapper), r.2)
      else parseRawValue c >>= fun r => .ok (w, r.2)
  rw [hread, wrapperStep, ← hskip]
  split_ifs
  · by_cases hstr : ∃ ps, m.value = .str ps
    · obtain ⟨ps, hps⟩ := hstr
      rw [hps] at hvalue ⊢
      cases hvalue with
      | str hok =>
          have htype := parseString_spell hok (q + m.afterColon.length) (m.after ++ rest)
          rw [skips_parseString.blank hm.afterColon, show (Source.str ps).text = quoted ps from rfl, htype]
          rfl
    · have hnot : ∀ ps, m.value ≠ .str ps := fun ps h => hstr ⟨ps, h⟩
      obtain ⟨b, s, htext, hb, hne⟩ := source_head_str hvalue hnot
      have hnone := parseString_ne hb hne (q + m.afterColon.length) (s ++ (m.after ++ rest))
      rw [skips_parseString.blank hm.afterColon, htext, List.cons_append, toOption_map_ok, hnone]
      cases hx : m.value <;> first | rfl | exact absurd hx (hnot _)
  · rw [hraw]
    rfl
  · rw [hraw]
    rfl

theorem skips_wrapperMember (w : Wrapper) : Skips (wrapperMember w) := by
  intro c
  rw [wrapperMember, wrapperMember, skips_parseString]

/-- The value of a wrapper is the text of one of its members. -/
theorem value_of_wrapperStep {ms : List (Member Source)} {w w' : Wrapper}
    (h : ms.foldlM wrapperStep w = some w') {raw : Bytes} (hraw : w'.value = some raw) :
    w.value = some raw ∨ ∃ m ∈ ms, raw = m.value.text := by
  induction ms generalizing w with
  | nil =>
      cases h
      exact Or.inl hraw
  | cons m ms ih =>
      rw [List.foldlM_cons] at h
      obtain ⟨v, hv, hrest⟩ := Option.bind_eq_some_iff.mp h
      rcases ih hrest with hin | ⟨k, hk, hval⟩
      · rw [wrapperStep] at hv
        split_ifs at hv with htype hvalue
        · split at hv
          · cases hv
            exact Or.inl hin
          · cases hv
        · cases hv
          exact Or.inr ⟨m, by simp, (Option.some.inj hin).symm⟩
        · cases hv
          exact Or.inl hin
      · exact Or.inr ⟨k, by simp [hk], hval⟩

section Object

variable {blank : Bytes} {ms : List (Member Source)}

theorem obj_text (blank : Bytes) (ms : List (Member Source)) : (Source.obj blank ms).text =
    0x7B :: blank ++ [0x2C].intercalate (ms.map Source.memberText) ++ [0x7D] := by
  rw [Source.text, Source.memberTexts_eq]

variable (text casts) in
/-- What the members of an object are as a STRUCT. -/
def decodeMembers (fs : Fields) (ms : List (Member Source)) : Option Value :=
  (ms.foldlM (structStep text casts fs.toList) (List.replicate fs.toList.length none)).bind fun seen =>
    (casts.castStruct (List.zipWith (fun (field : Bytes × LogicalType) (value : Option Value) =>
      (field.1, value.getD (.null field.2))) fs.toList seen) (.struct fs)).toOption

theorem decodeStruct_object (h : (Source.obj blank ms).Ok) (ih : ∀ m ∈ ms, Local text casts m.value)
    {depth : Nat} (hdepth : (Source.obj blank ms).text.length < depth + 1) (fs : Fields) (p : Nat)
    (rest : Bytes) :
    (decodeStruct text casts (decodeOne text casts depth) ⟨p, (Source.obj blank ms).text ++ rest⟩
        (.struct fs)).toOption =
      (decodeMembers text casts fs ms).map fun v => (v, ⟨p + (Source.obj blank ms).text.length, rest⟩) := by
  cases h with
  | obj hblank hms hvalues =>
      have hitems : ∀ m ∈ ms, ReadsItem 0x7D
          (structMember text (decodeOne text casts depth) fs.toList (.struct fs))
          (structStep text casts fs.toList) Source.memberText m :=
        fun m hm => readsItem_structMember (hms m hm) (ih m hm)
          (Nat.lt_of_lt_of_le (length_member_lt hm blank) (Nat.lt_succ_iff.mp hdepth)) fs.toList _
      refine (readContainer (by decide) (Or.inr rfl) (skips_structMember _ _ _) hitems hblank
        (List.replicate fs.toList.length none) p rest (obj_text blank ms) fun r =>
          orElse _ (casts.castStruct _ (.struct fs)) >>= fun v => .ok (v, r.2)).trans ?_
      rw [assemble, decodeMembers]
      simp only [orElse, toOption_mapError]

variable (text casts) in
/-- What a typed wrapper stands for. -/
def unwrap (w : Wrapper) : Option Value :=
  match w.type, w.value with
  | some typeString, some raw => (parseType casts.types typeString).toOption.bind (decodeText text casts raw)
  | _, _ => none

theorem decodeTypedWrapper_object (h : (Source.obj blank ms).Ok)
    (ih : ∀ m ∈ ms, Local text casts m.value) {depth : Nat}
    (hdepth : (Source.obj blank ms).text.length < depth + 1) (p : Nat) (rest : Bytes) :
    (decodeTypedWrapper casts (decodeOne text casts depth)
        ⟨p, (Source.obj blank ms).text ++ rest⟩).toOption =
      ((ms.foldlM wrapperStep {}).bind (unwrap text casts)).map fun v =>
        (v, ⟨p + (Source.obj blank ms).text.length, rest⟩) := by
  cases h with
  | obj hblank hms hvalues =>
      have hitems : ∀ m ∈ ms, ReadsItem 0x7D wrapperMember wrapperStep Source.memberText m :=
        fun m hm => readsItem_wrapperMember (hms m hm) (hvalues m hm)
      refine (readContainer (by decide) (Or.inr rfl) skips_wrapperMember hitems hblank {} p rest
        (obj_text blank ms) _).trans ?_
      rw [Option.map_bind]
      cases hfold : ms.foldlM wrapperStep {} with
      | none => rfl
      | some w =>
          -- the value was kept as text: it is decoded again, on its own
          have hinner : ∀ raw type, w.value = some raw →
              (decodeOne text casts depth (.start raw) type).toOption =
                (decodeText text casts raw type).map fun v => (v, ⟨0 + raw.length, []⟩) := by
            intro raw type hraw
            obtain hnone | ⟨m, hm, rfl⟩ := value_of_wrapperStep hfold hraw
            · cases hnone
            · have hlt := Nat.lt_of_lt_of_le (length_member_lt hm blank) (Nat.lt_succ_iff.mp hdepth)
              have hlocal := (ih m hm).between (u := []) (v := []) (by decide) (by decide) hlt type 0
                ended_nil
              simpa [Cursor.start] using hlocal
          rw [Option.bind_some, Option.bind_some, Function.comp_apply, unwrap]
          cases htype : w.type with
          | none =>
              simp only [htype]
              rfl
          | some typeString =>
              cases hvalue : w.value with
              | none =>
                  simp only [htype, hvalue]
                  rfl
              | some raw =>
                  cases htypeString : parseType casts.types typeString with
                  | error error =>
                      simp only [htype, hvalue, htypeString]
                      rfl
                  | ok type =>
                      simp only [htype, hvalue, htypeString]
                      rw [toOption_map_ok, hinner raw type hvalue, toOption_ok, Option.bind_some]
                      cases decodeText text casts raw type <;> rfl

variable (text casts) in
/-- What an object is at a type. -/
def decodeObject (blank : Bytes) (ms : List (Member Source)) (expected : LogicalType) :
    Option Value :=
  if (Source.obj blank ms).Mentions (lit "type") ∧ (Source.obj blank ms).Mentions (lit "value") then
    (ms.foldlM wrapperStep {}).bind (unwrap text casts)
  else
    match expected with
    | .struct fs => decodeMembers text casts fs ms
    | _ => none

theorem decodes_obj (h : (Source.obj blank ms).Ok) (ih : ∀ m ∈ ms, Local text casts m.value) :
    Decodes text casts (.obj blank ms) (decodeObject text casts blank ms) := by
  intro expected depth p rest hdepth hrest
  have hlooks := looksTyped_source h p hrest
  rw [decodeOne_object]
  unfold decodeObject
  by_cases hwords : (Source.obj blank ms).Mentions (lit "type") ∧
      (Source.obj blank ms).Mentions (lit "value")
  · rw [if_pos (hlooks.mpr hwords), if_pos hwords]
    exact decodeTypedWrapper_object h ih hdepth p rest
  · rw [if_neg fun htyped => hwords (hlooks.mp htyped), if_neg hwords]
    cases expected with
    | struct fs => exact decodeStruct_object h ih hdepth fs p rest
    | _ => rfl

end Object

/-! ## Every value -/

/-- A value and, if it is an array, its elements. -/
def LocalParts (text : DuckText) (casts : DuckCasts) (x : Source) : Prop :=
  Local text casts x ∧ ∀ blank xs, x = .arr blank xs → ∀ y ∈ xs, Local text casts y.value

theorem localParts_source {x : Source} (hx : x.Ok) : LocalParts text casts x := by
  induction hx with
  | null => exact ⟨decodes_null.local, fun _ _ h => by cases h⟩
  | bool b => exact ⟨(decodes_bool b).local, fun _ _ h => by cases h⟩
  | num hl => exact ⟨(decodes_num hl).local, fun _ _ h => by cases h⟩
  | str hps => exact ⟨(decodes_str hps).local, fun _ _ h => by cases h⟩
  | arr hblank hxs hvalues ih =>
      refine ⟨(decodes_arr hblank hxs hvalues (fun x hx => (ih x hx).1) fun x hx => (ih x hx).2).local, ?_⟩
      intro blank xs hx y hy
      cases hx
      exact (ih y hy).1
  | obj hblank hms hvalues ih =>
      exact ⟨(decodes_obj (.obj hblank hms hvalues) fun m hm => (ih m hm).1).local,
        fun _ _ h => by cases h⟩

/-- **A JSON value is decoded from its text alone**, wherever it stands. -/
theorem decodeOne_source {x : Source} (hx : x.Ok) : Local text casts x := (localParts_source hx).1

end Harbor.ParamDecoder
