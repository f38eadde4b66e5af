import Harbor.Json.Exact
import Harbor.Lib.JsonText

set_option autoImplicit false

/-! # What the writer writes, as trees of the grammar

Whatever the bytes of a string are, `WriteEscapedString` writes a literal of RFC 8259, and so the text
of a tree is the text of a tree of the grammar, of the same shape and without white space (`source_ok`,
`source_text`). What is known of the texts of the grammar is known of what the writer writes.
-/

namespace Harbor.Json

open Bytes

/-! ## Strings -/

/-- What an ASCII byte is written as. -/
theorem exists_piece {b : UInt8} (hb : b < 0x80) :
    ∃ p : Piece, p.Ok ∧ ∀ s, escapeFrom 0 (b :: s) = p.text ++ escapeFrom 0 s := by
  rcases byte_cases b with h | ⟨h, -, hc⟩ | ⟨h, hc⟩ | ⟨h, -⟩
  · have hval : (Char.ofNat b.toNat).val.toNat = b.toNat :=
      toNat_charOfNat (Or.inl (by have := b.toNat_lt; omega))
    have hne : ∀ d : Char, b.toNat ≠ d.val.toNat → Char.ofNat b.toNat ≠ d := by
      rintro d hd rfl
      exact hd hval.symm
    refine ⟨.char (Char.ofNat b.toNat), ⟨?_, hne '"' ?_, hne '\\' ?_⟩, fun s => ?_⟩
    · rw [hval]
      exact UInt8.le_iff_toNat_le.mp h.1
    · exact fun heq => h.2.2.1 (UInt8.toNat_inj.mp heq)
    · exact fun heq => h.2.2.2 (UInt8.toNat_inj.mp heq)
    · rw [escapeFrom_plain h, Piece.text, utf8EncodeChar_ascii hb]
      rfl
  · obtain ⟨c, hc⟩ := Option.isSome_iff_exists.mp hc
    refine ⟨.short c, ?_, fun s => ?_⟩
    · rw [Piece.Ok, unescape_shortEscape hc]
      rfl
    · rw [escapeFrom_short h hc]
      rfl
  · refine ⟨.unicode 0x30 0x30 (kHex ((b >>> 4) &&& 0x0F)) (kHex (b &&& 0x0F)), ?_, fun s => ?_⟩
    · rw [Piece.Ok, hexUnit_control b h]
      rfl
    · rw [escapeFrom_control h hc]
      rfl
  · exact absurd hb (UInt8.not_lt.mpr h)

/-- A character other than an ASCII one may stand in a string. -/
theorem char_ok {c : Char} {b : UInt8} {t : Bytes} (hb : 0x80 ≤ b) (hc : String.utf8EncodeChar c = b :: t) :
    (Piece.char c).Ok := by
  have hnot : ∀ d : Char, d.val.toNat < 0x80 → c ≠ d := by
    rintro d hd rfl
    rw [String.utf8EncodeChar, if_pos (by omega)] at hc
    have hbd := congrArg UInt8.toNat (List.cons.inj hc).1
    have hle := UInt8.le_iff_toNat_le.mp hb
    simp only [UInt8.toNat_ofNat', UInt8.reduceToNat] at hbd hle
    omega
  refine ⟨?_, hnot '"' (by decide), hnot '\\' (by decide)⟩
  by_contra hlow
  exact hnot c (by omega) rfl

/-- **What stands between the quotes is made of pieces.** -/
theorem exists_spelling (s : Bytes) : ∃ ps : List Piece, (∀ p ∈ ps, p.Ok) ∧ spell ps = escapeFrom 0 s := by
  induction s using scan_induction with
  | nil => exact ⟨[], by simp, rfl⟩
  | ascii b s hb ih =>
      obtain ⟨ps, hps, hs⟩ := ih
      obtain ⟨p, hp, hwrite⟩ := exists_piece hb
      exact ⟨p :: ps, List.forall_mem_cons.mpr ⟨hp, hps⟩, by rw [spell_cons, hs, hwrite]⟩
  | char b t s hb hc hvalid ih =>
      obtain ⟨ps, hps, hs⟩ := ih
      obtain ⟨c, hc⟩ := hc
      refine ⟨.char c :: ps, List.forall_mem_cons.mpr ⟨char_ok hb hc, hps⟩, ?_⟩
      rw [spell_cons, hs, escapeFrom_sequence hb hvalid, Piece.text, hc]
  | bad b s hb hvalid ih =>
      obtain ⟨ps, hps, hs⟩ := ih
      refine ⟨.char (Char.ofNat 0xFFFD) :: ps, List.forall_mem_cons.mpr ⟨by decide, hps⟩, ?_⟩
      rw [spell_cons, hs, escapeFrom_bad hb hvalid]
      rfl

/-- The pieces `WriteEscapedString` writes a string with. -/
noncomputable def spelling (s : Bytes) : List Piece := (exists_spelling s).choose

theorem spelling_ok (s : Bytes) : ∀ p ∈ spelling s, p.Ok := (exists_spelling s).choose_spec.1

theorem quoted_spelling (s : Bytes) : quoted (spelling s) = writeEscapedString s := by
  rw [quoted, spelling, (exists_spelling s).choose_spec.2, writeEscapedString]

/-! ## Trees -/

mutual

/-- The tree of the grammar whose text the writer writes. -/
noncomputable def source : Json → Source
  | null => .null
  | bool b => .bool b
  | num l => .num l
  | str s => .str (spelling s)
  | arr xs => .arr [] (sourceItems xs)
  | obj ms => .obj [] (sourceMembers ms)
termination_by structural j => j

noncomputable def sourceItems : List Json → List (Item Source)
  | [] => []
  | x :: xs => ⟨[], x.source, []⟩ :: sourceItems xs
termination_by structural xs => xs

noncomputable def sourceMembers : List (Bytes × Json) → List (Member Source)
  | [] => []
  | m :: ms => sourceMember m :: sourceMembers ms
termination_by structural ms => ms

noncomputable def sourceMember : Bytes × Json → Member Source
  | (k, j) => ⟨[], spelling k, [], [], j.source, []⟩
termination_by structural m => m

end

theorem sourceItems_eq (xs : List Json) : sourceItems xs = xs.map fun x => ⟨[], x.source, []⟩ := by
  induction xs with
  | nil => rfl
  | cons x xs ih => rw [sourceItems, ih, List.map_cons]

theorem sourceMembers_eq (ms : List (Bytes × Json)) : sourceMembers ms = ms.map sourceMember := by
  induction ms with
  | nil => rfl
  | cons m ms ih => rw [sourceMembers, ih, List.map_cons]

theorem texts_eq (xs : List Json) : texts xs = xs.map text := by
  induction xs with
  | nil => rfl
  | cons x xs ih => rw [texts, ih, List.map_cons]

theorem memberTexts_eq (ms : List (Bytes × Json)) : memberTexts ms = ms.map memberText := by
  induction ms with
  | nil => rfl
  | cons m ms ih => rw [memberTexts, ih, List.map_cons]

/-- **The text of the tree is the text of a tree of the grammar.** -/
theorem source_text (j : Json) : j.source.text = j.text := by
  induction j using Json.induction with
  | null => rfl
  | bool b => rfl
  | num l => rfl
  | str s => exact quoted_spelling s
  | arr xs ih =>
      have hitems : xs.map (fun x => Source.itemText ⟨[], x.source, []⟩) = xs.map text :=
        List.map_congr_left fun x hx => by
          rw [Source.itemText_eq, ih x hx, List.nil_append, List.append_nil]
      rw [source, Source.text, Source.itemTexts_eq, sourceItems_eq, List.map_map, text, texts_eq, ← hitems]
      rfl
  | obj ms ih =>
      have hmembers : ms.map (fun m => Source.memberText (sourceMember m)) = ms.map memberText :=
        List.map_congr_left fun m hm => by
          obtain ⟨k, j⟩ := m
          have hj : j.source.text = j.text := ih (k, j) hm
          rw [Source.memberText_eq, sourceMember, memberText, hj, quoted_spelling]
          simp
      rw [source, Source.text, Source.memberTexts_eq, sourceMembers_eq, List.map_map, text,
        memberTexts_eq, ← hmembers]
      rfl

theorem isBlank_nil : IsBlank [] := by decide

theorem source_ok (j : Json) (h : NumbersOk j) : j.source.Ok := by
  induction j using Json.induction with
  | null => exact .null
  | bool b => exact .bool b
  | num l => exact .num (numbersOk_num.mp h)
  | str s => exact .str (spelling_ok s)
  | arr xs ih =>
      have hxs := numbersOk_arr.mp h
      rw [source, sourceItems_eq]
      refine .arr (by decide) ?_ ?_
      · rw [List.forall_mem_map]
        exact fun x _ => ⟨isBlank_nil, isBlank_nil⟩
      · rw [List.forall_mem_map]
        exact fun x hx => ih x hx (hxs x hx)
  | obj ms ih =>
      have hms := numbersOk_obj.mp h
      rw [source, sourceMembers_eq]
      refine .obj (by decide) ?_ ?_
      · rw [List.forall_mem_map]
        rintro ⟨k, j⟩ _
        exact ⟨isBlank_nil, spelling_ok k, isBlank_nil, isBlank_nil, isBlank_nil⟩
      · rw [List.forall_mem_map]
        rintro ⟨k, j⟩ hm
        exact ih (k, j) hm (hms (k, j) hm)

end Harbor.Json
