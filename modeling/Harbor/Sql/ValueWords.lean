import Harbor.Sql.Within
import Harbor.Sql.TimestampText

set_option autoImplicit false

/-! # Values that are taken for typed wrappers

The JSON of a STRUCT is taken for a typed wrapper when the words `type` and `value` stand in quotes in it.
They come from the value: a field has the word for its name, or a text ends with it (`mentions_valueJson`).
-/

namespace Harbor

open Bytes Json Encoder

/-! ## The end of a text -/

/-- The text is the word, or has it behind a quote at its end. -/
def EndsAs (w s : Bytes) : Prop := s = w ∨ 0x22 :: w <:+ s

instance (w s : Bytes) : Decidable (EndsAs w s) := inferInstanceAs (Decidable (_ ∨ _))

theorem EndsAs.subset {w s : Bytes} (h : EndsAs w s) : w ⊆ s := by
  rcases h with rfl | h
  · exact List.Subset.refl s
  · exact List.Subset.trans (List.subset_cons_self 0x22 w) h.subset

/-! ## DuckDB's texts -/

/-- The text is ASCII and has no letter that only `type` or only `value` has. -/
def IsWordless (s : Bytes) : Prop := ∀ b ∈ s, b < 0x80 ∧ b ≠ 0x70 ∧ b ≠ 0x76

instance (s : Bytes) : Decidable (IsWordless s) :=
  inferInstanceAs (Decidable (∀ b ∈ s, b < 0x80 ∧ b ≠ 0x70 ∧ b ≠ 0x76))

/-- DuckDB's texts have digits, signs, and the letters of hexadecimal numbers, of `BC` and of `infinity`. -/
structure DuckText.Wordless (text : DuckText) : Prop where
  decimal : ∀ i w s, IsWordless (text.decimalToString i w s)
  uuid : ∀ i, IsWordless (text.uuidToString i)
  date : ∀ i, IsWordless (text.dateToString i)
  time : ∀ i, IsWordless (text.timeToString i)
  utcOffset : ∀ hours minutes, IsWordless (text.toUtcOffset hours minutes)
  timestamp : ∀ i, IsWordless (text.timestampToString i)
  timestampNs : ∀ i, IsWordless (text.timestampNsToString i)
  bit : ∀ s, IsWordless (text.bitToString s)

theorem IsWordless.ascii {s : Bytes} (h : IsWordless s) : IsAscii s := fun b hb => (h b hb).1

theorem IsWordless.cons {b : UInt8} {s : Bytes} (hb : b < 0x80 ∧ b ≠ 0x70 ∧ b ≠ 0x76) (hs : IsWordless s) :
    IsWordless (b :: s) :=
  List.forall_mem_cons.mpr ⟨hb, hs⟩

theorem IsWordless.append {s t : Bytes} (hs : IsWordless s) (ht : IsWordless t) : IsWordless (s ++ t) :=
  List.forall_mem_append.mpr ⟨hs, ht⟩

theorem IsWordless.blankToT {s : Bytes} (h : IsWordless s) : IsWordless (blankToT s) := by
  intro b hb
  rcases mem_blankToT hb with rfl | hb
  · decide
  · exact h b hb

theorem IsWordless.cutFraction {s : Bytes} (h : IsWordless s) (keep : Nat) :
    IsWordless (cutFraction keep s) := by
  intro b hb
  rcases List.mem_append.mp hb with hb | hb
  · exact h b ((List.takeWhile_prefix _).subset hb)
  · exact h b ((List.dropWhile_suffix _).subset (List.mem_of_mem_take hb))

theorem isWordless_decInt (i : Int) : IsWordless (decInt i) := by
  intro b hb
  refine ⟨decInt_ascii i b hb, ?_, ?_⟩
  · rintro rfl
    exact notMem_decInt rfl (by decide) i hb
  · rintro rfl
    exact notMem_decInt rfl (by decide) i hb

section Wordless

variable {text : DuckText} (h : text.Wordless)
include h

/-- What the encoder writes of a timestamp. -/
theorem isWordless_encoded (type : TimestampType) {v : Int} {s : Bytes} (hs : type.encoded text v = .ok s) :
    IsWordless s := by
  have hiso : ∀ i, IsWordless (timestampToIsoNaive text i) := fun i => (h.timestamp i).blankToT
  cases type with
  | timestamp =>
      obtain rfl := Except.ok.inj hs
      exact hiso v
  | timestampSec =>
      obtain ⟨canonical, -, hs⟩ := bind_eq_ok.mp hs
      obtain rfl := Except.ok.inj hs
      exact (hiso canonical).cutFraction 0
  | timestampMs =>
      obtain ⟨canonical, -, hs⟩ := bind_eq_ok.mp hs
      obtain rfl := Except.ok.inj hs
      exact (hiso canonical).cutFraction 4
  | timestampNs =>
      obtain rfl := Except.ok.inj hs
      exact (h.timestampNs v).blankToT
  | timestampTz =>
      obtain rfl := Except.ok.inj hs
      exact (hiso v).append (by decide)

end Wordless

namespace ParamDecoder

theorem suffix_of_disjoint {l u s : Bytes} (h : l <:+ u ++ s) (hdisjoint : ∀ b ∈ l, b ∉ u) : l <:+ s := by
  obtain ⟨y, hy⟩ := h
  rcases List.append_eq_append_iff.mp hy with ⟨x, hu, hl⟩ | ⟨x, -, rfl⟩
  · -- what both have in common is empty
    cases x with
    | nil => exact hl ▸ List.suffix_refl s
    | cons b x =>
        have hb : b ∈ u := by simp [hu]
        exact absurd hb (hdisjoint b (by simp [hl]))
  · exact List.suffix_append x l

/-- Where an ASCII text is at the end, it is written at the end. -/
theorem escapeFrom_suffix {l : Bytes} (hl : ∀ b ∈ l, b < 0x80) (s : Bytes) (h : l <:+ s) :
    escapeFrom 0 l <:+ escapeFrom 0 s := by
  have hhigh : ∀ b, 0x80 ≤ b → ∀ c ∈ l, c ≠ b := by
    rintro b hb c hc rfl
    exact absurd (hl c hc) (UInt8.not_lt.mpr hb)
  induction s using scan_induction with
  | nil =>
      obtain rfl := List.suffix_nil.mp h
      exact List.suffix_refl _
  | ascii b s hb ih =>
      rcases List.suffix_cons_iff.mp h with rfl | h
      · exact List.suffix_refl _
      · obtain ⟨p, -, hwrite⟩ := escapeFrom_ascii hb
        rw [hwrite]
        exact (ih h).trans (List.suffix_append p _)
  | char b t s hb hc hvalid ih =>
      rw [escapeFrom_sequence hb hvalid]
      refine (ih (suffix_of_disjoint h fun x hx hmem => ?_)).trans (List.suffix_append _ _)
      obtain ⟨c, hc⟩ := hc
      have hchar : 0x80 ≤ x := by
        refine le_of_mem_utf8EncodeChar (c := c) ?_ (hc ▸ hmem)
        by_contra hlow
        rw [String.utf8EncodeChar, if_pos (by omega)] at hc
        have hbd := congrArg UInt8.toNat (List.cons.inj hc).1
        have hle := UInt8.le_iff_toNat_le.mp hb
        simp only [UInt8.toNat_ofNat', UInt8.reduceToNat] at hbd hle
        omega
      exact hhigh x hchar x hx rfl
  | bad b s hb hvalid ih =>
      rw [escapeFrom_bad hb hvalid]
      have hsuffix : l <:+ s := suffix_of_disjoint (u := [b]) h fun x hx hmem =>
        hhigh b hb x hx (List.mem_singleton.mp hmem)
      exact (ih hsuffix).trans (List.suffix_append _ _)

theorem escapeFrom_word {w : Bytes} (hw : ∀ b ∈ w, isAlpha b = true) : escapeFrom 0 w = w := by
  have hplain : ∀ b, isAlpha b = true → 0x20 ≤ b ∧ b < 0x80 ∧ b ≠ 0x22 ∧ b ≠ 0x5C :=
    forall_byte (by decide +kernel)
  induction w with
  | nil => rfl
  | cons b w ih =>
      obtain ⟨hb, hw⟩ := List.forall_mem_cons.mp hw
      rw [escapeFrom_plain (hplain b hb), ih hw]

theorem decode_wordPieces {w : Bytes} (hw : ∀ b ∈ w, isAlpha b = true) :
    (wordPieces w).flatMap decodePiece = w := by
  induction w with
  | nil => rfl
  | cons b w ih =>
      obtain ⟨hb, hw⟩ := List.forall_mem_cons.mp hw
      have hpiece : decodePiece (.char (Char.ofNat b.toNat)) = [b] := utf8EncodeChar_ascii (isAlpha_lt b hb).1
      rw [wordPieces, List.map_cons, List.flatMap_cons, hpiece, ← wordPieces, ih hw]
      rfl

/-- **The word is read at the end of a literal** exactly if the text that is written ends as the word. -/
theorem endsQuoted_spelling {w s : Bytes} (hw : IsWord w) (hs : IsUtf8 s) :
    EndsQuoted w (spelling s) ↔ EndsAs w s := by
  have hdecode : (spelling s).flatMap decodePiece = s := by rw [decodePiece_spelling, sanitize_of_isUtf8 hs]
  constructor
  · rintro (hword | ⟨ps, hps⟩)
    · rw [hword, decode_wordPieces hw.2] at hdecode
      exact Or.inl hdecode.symm
    · rw [← hps, List.flatMap_append, List.flatMap_cons, decode_wordPieces hw.2] at hdecode
      exact Or.inr ⟨_, hdecode⟩
  · intro h
    have hascii : ∀ b ∈ w, b < 0x80 := fun b hb => (isAlpha_lt b (hw.2 b hb)).1
    have hwritten : 0x22 :: w ++ [0x22] <:+: writeEscapedString s := by
      rcases h with rfl | h
      · rw [writeEscapedString, escapeFrom_word hw.2]
      · have hquote : escapeFrom 0 (0x22 :: w) = 0x5C :: 0x22 :: w := by
          rw [escapeFrom_short (c := 0x22) (by decide) rfl, escapeFrom_word hw.2]
        obtain ⟨y, hy⟩ := escapeFrom_suffix (List.forall_mem_cons.mpr ⟨by decide, hascii⟩) s h
        rw [hquote] at hy
        exact ⟨0x22 :: (y ++ [0x5C]), [], by rw [writeEscapedString, ← hy]; simp⟩
    rw [← quoted_spelling] at hwritten
    have hfound := (contains_text_iff hw (Source.Ok.str (spelling_ok s))).mp (contains_iff.mpr hwritten)
    obtain ⟨ps, hps, hends⟩ := hfound
    obtain rfl := List.mem_singleton.mp hps
    exact hends

/-! ## The words in a value -/

/-- A word of a typed wrapper. -/
def IsWrapperWord (w : Bytes) : Prop := w = lit "type" ∨ w = lit "value"

theorem IsWrapperWord.isWord {w : Bytes} (hw : IsWrapperWord w) : IsWord w := by
  rcases hw with rfl | rfl <;> decide

theorem not_endsAs {w s : Bytes} (hw : IsWrapperWord w) (hs : IsWordless s) : ¬ EndsAs w s := by
  intro h
  rcases hw with rfl | rfl
  · exact (hs 0x70 (h.subset (by decide))).2.1 rfl
  · exact (hs 0x76 (h.subset (by decide))).2.2 rfl

theorem mentions_str {w s : Bytes} (hw : IsWord w) (hs : IsUtf8 s) :
    (str s).source.Mentions w ↔ EndsAs w s := by
  rw [← endsQuoted_spelling hw hs, source, Source.Mentions, Source.literals]
  simp

end ParamDecoder

/-- A field name in the value is the word, or a text in it ends as the word does. -/
inductive Value.Mentions (w : Bytes) : Value → Prop where
  | varchar {s : Bytes} (h : EndsAs w s) : Mentions w (.leaf (.scalar .varchar) (.str s))
  | blob {s : Bytes} (h : EndsAs w (Base64.encode s)) : Mentions w (.leaf (.scalar .blob) (.str s))
  | list {c : LogicalType} {vs : List Value} {v : Value} (hv : v ∈ vs) (h : Mentions w v) :
      Mentions w (.nested (.list c) vs)
  | array {c : LogicalType} {n : Nat} {vs : List Value} {v : Value} (hv : v ∈ vs) (h : Mentions w v) :
      Mentions w (.nested (.array c n) vs)
  | name {fs : Fields} {vs : List Value} (h : w ∈ fs.names) : Mentions w (.nested (.struct fs) vs)
  | field {fs : Fields} {vs : List Value} {v : Value} (hv : v ∈ vs) (h : Mentions w v) :
      Mentions w (.nested (.struct fs) vs)
  | key {k t : LogicalType} {es : List (Value × Value)} {e : Value × Value} (he : e ∈ es)
      (h : Mentions w e.1) : Mentions w (.nested (.map k t) (es.map fun e => .nested (.entry k t) [e.1, e.2]))
  | value {k t : LogicalType} {es : List (Value × Value)} {e : Value × Value} (he : e ∈ es)
      (h : Mentions w e.2) : Mentions w (.nested (.map k t) (es.map fun e => .nested (.entry k t) [e.1, e.2]))

namespace ParamDecoder

variable {w : Bytes}

theorem mentions_list {c : LogicalType} {vs : List Value} :
    (Value.nested (.list c) vs).Mentions w ↔ ∃ v ∈ vs, v.Mentions w := by
  constructor
  · intro h
    cases h with
    | list hv h => exact ⟨_, hv, h⟩
  · rintro ⟨v, hv, h⟩
    exact .list hv h

theorem mentions_array {c : LogicalType} {n : Nat} {vs : List Value} :
    (Value.nested (.array c n) vs).Mentions w ↔ ∃ v ∈ vs, v.Mentions w := by
  constructor
  · intro h
    cases h with
    | array hv h => exact ⟨_, hv, h⟩
  · rintro ⟨v, hv, h⟩
    exact .array hv h

theorem mentions_struct {fs : Fields} {vs : List Value} :
    (Value.nested (.struct fs) vs).Mentions w ↔ w ∈ fs.names ∨ ∃ v ∈ vs, v.Mentions w := by
  constructor
  · intro h
    cases h with
    | name h => exact Or.inl h
    | field hv h => exact Or.inr ⟨_, hv, h⟩
  · rintro (h | ⟨v, hv, h⟩)
    · exact .name h
    · exact .field hv h

theorem mentions_map {k t : LogicalType} {es : List (Value × Value)} :
    (Value.nested (.map k t) (es.map fun e => .nested (.entry k t) [e.1, e.2])).Mentions w ↔
      ∃ e ∈ es, e.1.Mentions w ∨ e.2.Mentions w := by
  constructor
  · intro h
    generalize hv : Value.nested (.map k t) (es.map fun e => .nested (.entry k t) [e.1, e.2]) = v at h
    cases h with
    | @key k' t' es' e he h =>
        simp only [Value.nested.injEq, LogicalType.map.injEq] at hv
        obtain ⟨⟨rfl, rfl⟩, hes⟩ := hv
        obtain rfl := entries_injective hes
        exact ⟨e, he, Or.inl h⟩
    | @value k' t' es' e he h =>
        simp only [Value.nested.injEq, LogicalType.map.injEq] at hv
        obtain ⟨⟨rfl, rfl⟩, hes⟩ := hv
        obtain rfl := entries_injective hes
        exact ⟨e, he, Or.inr h⟩
    | _ => cases hv
  · rintro ⟨e, he, h | h⟩
    · exact .key he h
    · exact .value he h

theorem exists_iff_of_forall₂ {α β : Type} {R : α → β → Prop} {P : α → Prop} {Q : β → Prop} {as : List α}
    {bs : List β} (h : List.Forall₂ R as bs) (hPQ : ∀ a ∈ as, ∀ b, R a b → (P a ↔ Q b)) :
    (∃ a ∈ as, P a) ↔ ∃ b ∈ bs, Q b := by
  induction h with
  | nil => simp
  | cons hab _ ih =>
      obtain ⟨hfirst, hrest⟩ := List.forall_mem_cons.mp hPQ
      simp only [List.exists_mem_cons_iff]
      exact or_congr (hfirst _ hab) (ih hrest)

/-! ## The words in the JSON of a value -/

section Value

variable (hw : IsWrapperWord w)
include hw

theorem not_mentions_str {s : Bytes} (hs : IsWordless s) : ¬ (str s).source.Mentions w := by
  rw [mentions_str hw.isWord (isUtf8_of_ascii hs.ascii)]
  exact not_endsAs hw hs

omit hw in
theorem not_mentions_num (l : Bytes) : ¬ (num l).source.Mentions w := by
  rintro ⟨ps, hps, -⟩
  exact absurd hps List.not_mem_nil

omit hw in
theorem identifier_ascii {n : Bytes} (hn : isIdentifier n = true) : ∀ b ∈ n, b < 0x80 ∧ b ≠ 0x22 := by
  have hbyte : ∀ b, (isAlpha b || isDigit b || b == 0x5F) = true → b < 0x80 ∧ b ≠ 0x22 :=
    forall_byte (by decide +kernel)
  exact fun b hb => hbyte b ((isIdentifier_bytes hn).2 b hb)

/-- A field has the word for its name, since no quote can be in it. -/
theorem endsQuoted_identifier {n : Bytes} (hn : isIdentifier n = true) :
    EndsQuoted w (spelling n) ↔ n = w := by
  have hbytes := identifier_ascii hn
  rw [endsQuoted_spelling hw.isWord (isUtf8_of_ascii fun b hb => (hbytes b hb).1)]
  refine ⟨?_, Or.inl⟩
  rintro (h | h)
  · exact h
  · exact absurd rfl (hbytes 0x22 (h.subset List.mem_cons_self)).2

theorem not_mentions_jsonSafe (safe : Int → Bool) (i : Int) : ¬ (jsonSafe safe i).source.Mentions w := by
  rw [jsonSafe]
  split_ifs
  · exact not_mentions_num _
  · exact not_mentions_str hw (isWordless_decInt i)

variable {text : DuckText} (htext : text.Wordless)

theorem not_mentions_double (d : Double) : ¬ (doubleJson text d).source.Mentions w := by
  cases d with
  | nan => exact not_mentions_str hw (by decide)
  | inf neg => cases neg <;> exact not_mentions_str hw (by decide)
  | finite d => exact not_mentions_num _

theorem not_mentions_interval (months days micros : Int) :
    ¬ (intervalJson months days micros).source.Mentions w := by
  have hname : ∀ n : Bytes, IsUtf8 n → ¬ EndsAs w n → ¬ EndsQuoted w (spelling n) :=
    fun n hn hnot => mt (endsQuoted_spelling hw.isWord hn).mp hnot
  have hends : ¬ EndsAs w (lit "months") ∧ ¬ EndsAs w (lit "days") ∧ ¬ EndsAs w (lit "micros") := by
    rcases hw with rfl | rfl <;> decide
  rw [intervalJson, source, sourceMembers_eq, Source.mentions_obj]
  simp only [List.map_cons, List.map_nil, List.exists_mem_cons_iff, List.not_mem_nil, false_and,
    exists_false, or_false, not_or, sourceMember]
  exact ⟨⟨hname _ (isUtf8_of_ascii (by decide)) hends.1, not_mentions_num _⟩,
    ⟨hname _ (isUtf8_of_ascii (by decide)) hends.2.1, not_mentions_num _⟩,
    hname _ (isUtf8_of_ascii (by decide)) hends.2.2, not_mentions_str hw (isWordless_decInt micros)⟩

include htext

/-- The words come from the texts of VARCHAR and from Base64. -/
theorem mentions_scalar {id : ScalarType} {d : Datum} (hd : id.Has d) {j : Json}
    (hj : valueJson text (.scalar id) (.leaf (.scalar id) d) = .ok j) :
    j.source.Mentions w ↔ (Value.leaf (.scalar id) d).Mentions w := by
  have hleaf : id ≠ .varchar → id ≠ .blob → ¬ (Value.leaf (.scalar id) d).Mentions w := by
    intro hvarchar hblob h
    cases h with
    | varchar => exact hvarchar rfl
    | blob => exact hblob rfl
  have hj : scalarJson text id (.leaf (.scalar id) d) = .ok j := hj
  cases id with
  | boolean =>
      obtain ⟨b, -, hj⟩ := bind_eq_ok.mp hj
      obtain rfl := Except.ok.inj hj
      refine iff_of_false ?_ (hleaf (by decide) (by decide))
      rintro ⟨ps, hps, -⟩
      exact absurd hps List.not_mem_nil
  | tinyint | smallint | integer | utinyint | usmallint | uinteger =>
      obtain ⟨i, -, hj⟩ := bind_eq_ok.mp hj
      obtain rfl := Except.ok.inj hj
      exact iff_of_false (not_mentions_num _) (hleaf (by decide) (by decide))
  | bigint | ubigint | hugeint | uhugeint =>
      obtain ⟨i, -, hj⟩ := bind_eq_ok.mp hj
      obtain rfl := Except.ok.inj hj
      exact iff_of_false (not_mentions_jsonSafe hw _ i) (hleaf (by decide) (by decide))
  | float | double =>
      obtain ⟨x, -, hj⟩ := bind_eq_ok.mp hj
      obtain rfl := Except.ok.inj hj
      exact iff_of_false (not_mentions_double hw x) (hleaf (by decide) (by decide))
  | varchar =>
      obtain ⟨s, rfl, hj⟩ := of_getString hj
      obtain rfl := Except.ok.inj hj
      rw [mentions_str hw.isWord hd]
      refine ⟨.varchar, fun h => ?_⟩
      cases h with
      | varchar h => exact h
  | uuid =>
      obtain ⟨i, -, hj⟩ := bind_eq_ok.mp hj
      obtain rfl := Except.ok.inj hj
      exact iff_of_false (not_mentions_str hw (htext.uuid i)) (hleaf (by decide) (by decide))
  | date =>
      obtain ⟨i, -, hj⟩ := bind_eq_ok.mp hj
      obtain rfl := Except.ok.inj hj
      exact iff_of_false (not_mentions_str hw (htext.date i)) (hleaf (by decide) (by decide))
  | time =>
      obtain ⟨i, -, hj⟩ := bind_eq_ok.mp hj
      obtain rfl := Except.ok.inj hj
      exact iff_of_false (not_mentions_str hw (htext.time i)) (hleaf (by decide) (by decide))
  | timeTz =>
      obtain ⟨⟨micros, offset⟩, -, hj⟩ := bind_eq_ok.mp hj
      obtain rfl := Except.ok.inj hj
      exact iff_of_false (not_mentions_str hw ((htext.time micros).append (htext.utcOffset _ _)))
        (hleaf (by decide) (by decide))
  | timestamp =>
      obtain ⟨i, -, hj⟩ := bind_eq_ok.mp hj
      obtain rfl := Except.ok.inj hj
      exact iff_of_false (not_mentions_str hw (isWordless_encoded htext .timestamp (v := i) rfl))
        (hleaf (by decide) (by decide))
  | timestampSec =>
      obtain ⟨i, -, hj⟩ := bind_eq_ok.mp hj
      obtain ⟨s, hs, hj⟩ := bind_eq_ok.mp hj
      obtain rfl := Except.ok.inj hj
      exact iff_of_false (not_mentions_str hw (isWordless_encoded htext .timestampSec hs))
        (hleaf (by decide) (by decide))
  | timestampMs =>
      obtain ⟨i, -, hj⟩ := bind_eq_ok.mp hj
      obtain ⟨s, hs, hj⟩ := bind_eq_ok.mp hj
      obtain rfl := Except.ok.inj hj
      exact iff_of_false (not_mentions_str hw (isWordless_encoded htext .timestampMs hs))
        (hleaf (by decide) (by decide))
  | timestampNs =>
      obtain ⟨i, -, hj⟩ := bind_eq_ok.mp hj
      obtain rfl := Except.ok.inj hj
      exact iff_of_false (not_mentions_str hw (isWordless_encoded htext .timestampNs (v := i) rfl))
        (hleaf (by decide) (by decide))
  | timestampTz =>
      obtain ⟨i, -, hj⟩ := bind_eq_ok.mp hj
      obtain rfl := Except.ok.inj hj
      exact iff_of_false (not_mentions_str hw (isWordless_encoded htext .timestampTz (v := i) rfl))
        (hleaf (by decide) (by decide))
  | interval =>
      obtain ⟨⟨months, days, micros⟩, -, hj⟩ := bind_eq_ok.mp hj
      obtain rfl := Except.ok.inj hj
      exact iff_of_false (not_mentions_interval hw months days micros) (hleaf (by decide) (by decide))
  | blob =>
      obtain ⟨s, rfl, hj⟩ := of_getString hj
      obtain rfl := Except.ok.inj hj
      rw [mentions_str hw.isWord (isUtf8_of_ascii (Base64.encode_ascii s))]
      refine ⟨.blob, fun h => ?_⟩
      cases h with
      | blob h => exact h
  | bit =>
      obtain ⟨s, -, hj⟩ := bind_eq_ok.mp hj
      obtain rfl := Except.ok.inj hj
      exact iff_of_false (not_mentions_str hw (htext.bit s)) (hleaf (by decide) (by decide))
  | sqlNull => cases d <;> exact absurd hd id

/-- **A word stands in quotes in the JSON of a value** exactly if the value mentions it. -/
theorem mentions_valueJson (T : LogicalType) : Nameable T → ∀ v, Has T v → ∀ j, valueJson text T v = .ok j →
    (j.source.Mentions w ↔ v.Mentions w) := by
  have hnull : ∀ {T : LogicalType} {j : Json}, valueJson text T (.null T) = .ok j →
      (j.source.Mentions w ↔ (Value.null T).Mentions w) := by
    intro T j hj
    rw [valueJson_null] at hj
    obtain rfl := Except.ok.inj hj
    refine iff_of_false ?_ (by rintro ⟨⟩)
    rintro ⟨ps, hps, -⟩
    exact absurd hps List.not_mem_nil
  have harr : ∀ js : List Json, (arr js).source.Mentions w ↔ ∃ j ∈ js, j.source.Mentions w := by
    intro js
    rw [source, sourceItems_eq, Source.mentions_arr]
    simp
  induction T using LogicalType.induction_on with
  | scalar id =>
      intro hname v hv j hj
      cases hv with
      | null => exact hnull hj
      | scalar h => exact mentions_scalar hw htext h hj
  | decimal p s =>
      intro hname v hv j hj
      cases hv with
      | null => exact hnull hj
      | decimal h =>
          obtain rfl := Except.ok.inj hj
          exact iff_of_false (not_mentions_str hw (htext.decimal _ _ _)) (by rintro ⟨⟩)
  | list c ih =>
      intro hname v hv j hj
      cases hv with
      | null => exact hnull hj
      | list h =>
          obtain ⟨js, hjs, rfl⟩ := valueJson_list.mp hj
          rw [harr, mentions_list]
          exact (exists_iff_of_forall₂ hjs fun v hv j hj => (ih hname.list v (h v hv) j hj).symm).symm
  | array c n ih =>
      intro hname v hv j hj
      cases hv with
      | null => exact hnull hj
      | array hlen h =>
          obtain ⟨js, hjs, rfl⟩ := valueJson_array.mp hj
          rw [harr, mentions_array]
          exact (exists_iff_of_forall₂ hjs fun v hv j hj => (ih hname.array v (h v hv) j hj).symm).symm
  | struct fs ih =>
      intro hname v hv j hj
      cases hv with
      | null => exact hnull hj
      | struct h =>
          obtain ⟨ms, hms, rfl⟩ := valueJson_struct.mp hj
          obtain ⟨rows, hfields, rfl, rfl, hrows⟩ := exists_rows h hms
          have hrow : ∀ row ∈ rows, (EndsQuoted w (spelling row.field.1) ↔ row.field.1 = w) ∧
              (row.json.source.Mentions w ↔ row.value.Mentions w) := by
            intro row hrow
            have hfield : row.field ∈ fs.toList := hfields ▸ List.mem_map_of_mem hrow
            obtain ⟨hident, hnameable⟩ := hname.struct row.field hfield
            obtain ⟨hhas, hjson⟩ := hrows row hrow
            exact ⟨endsQuoted_identifier hw hident,
              ih row.field hfield hnameable row.value hhas row.json hjson⟩
          have hnames : fs.names = rows.map fun row => row.field.1 := by
            rw [Fields.names, hfields, List.map_map]
            rfl
          rw [mentions_struct, hnames, source, sourceMembers_eq, Source.mentions_obj]
          simp only [List.map_map, List.mem_map, exists_exists_and_eq_and, Function.comp_apply, sourceMember]
          constructor
          · rintro ⟨row, hmem, hkey | hvalue⟩
            · exact Or.inl ⟨row, hmem, (hrow row hmem).1.mp hkey⟩
            · exact Or.inr ⟨row, hmem, (hrow row hmem).2.mp hvalue⟩
          · rintro (⟨row, hmem, hkey⟩ | ⟨row, hmem, hvalue⟩)
            · exact ⟨row, hmem, Or.inl ((hrow row hmem).1.mpr hkey)⟩
            · exact ⟨row, hmem, Or.inr ((hrow row hmem).2.mpr hvalue)⟩
  | map k t ihk iht =>
      intro hname v hv j hj
      cases hv with
      | null => exact hnull hj
      | map hkey hvalue =>
          obtain ⟨ps, hps, rfl⟩ := valueJson_map.mp hj
          have hentry : ∀ p : Json × Json, (arr [p.1, p.2]).source.Mentions w ↔
              p.1.source.Mentions w ∨ p.2.source.Mentions w := by
            intro p
            rw [harr]
            simp
          rw [harr, mentions_map]
          simp only [List.mem_map, exists_exists_and_eq_and, hentry]
          exact (exists_iff_of_forall₂ hps fun e he p hp =>
            or_congr (ihk hname.map.1 e.1 (hkey e he) p.1 hp.1).symm
              (iht hname.map.2 e.2 (hvalue e he) p.2 hp.2).symm).symm
  | union ms ih =>
      intro hname
      obtain ⟨s, h⟩ := hname
      cases h
  | enum ls =>
      intro hname
      obtain ⟨s, h⟩ := hname
      cases h
  | other n =>
      intro hname
      obtain ⟨s, h⟩ := hname
      cases h

omit hw in
/-- **When a STRUCT is taken for a typed wrapper.** -/
theorem looksTyped_struct_iff {fs : Fields} (hname : Nameable (.struct fs)) {v : Value}
    (hv : Has (.struct fs) v) {ms : List (Bytes × Json)} (hms : NumbersOk (obj ms))
    (hj : valueJson text (.struct fs) v = .ok (obj ms)) :
    looksTyped (.start (obj ms).text) = true ↔ v.Mentions (lit "type") ∧ v.Mentions (lit "value") := by
  rw [looksTyped_obj hms, mentions_valueJson (Or.inl rfl) htext _ hname v hv _ hj,
    mentions_valueJson (Or.inr rfl) htext _ hname v hv _ hj]

end Value

end ParamDecoder

end Harbor
