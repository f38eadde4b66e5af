import Harbor.Sql.TypeParser
import Harbor.Lib.Find

set_option autoImplicit false

/-! # The parser of type strings reads what the grammar writes

`Renders t s` is the grammar of type strings: `s` writes the type `t`, with the keywords in any case
and no white space but the blank between two words. The parser changes nothing of such a text when it
normalises it (`tight_of_renders`), finds its brackets and commas because they are balanced, and reads
the type back (`parseType_of_renders`).
-/

namespace Harbor.ParamDecoder

open Bytes

/-! ## The grammar -/

/-- The digits are a numeral of the number. -/
def IsNumeral (ds : Bytes) (n : Nat) : Prop :=
  ds ≠ [] ∧ (∀ b ∈ ds, isDigit b = true) ∧ natOfDigits 0 ds = n

mutual

/-- The text writes the type. -/
inductive Renders : LogicalType → Bytes → Prop where
  | scalar {id : ScalarType} {s : Bytes} (h : (upper s, id) ∈ simpleTypeNames) :
      Renders (.scalar id) s
  | decimal {w n : Nat} {k ds es : Bytes} (hk : upper k = lit "DECIMAL") (hw : IsNumeral ds w)
      (hn : IsNumeral es n) (hrange : 1 ≤ w ∧ w ≤ 38 ∧ n ≤ w) :
      Renders (.decimal w n) (k ++ 0x28 :: (ds ++ 0x2C :: es) ++ [0x29])
  | list {c : LogicalType} {k s : Bytes} (hk : upper k = lit "LIST") (h : Renders c s) :
      Renders (.list c) (k ++ 0x3C :: s ++ [0x3E])
  | array {c : LogicalType} {n : Nat} {k s ds : Bytes} (hk : upper k = lit "ARRAY")
      (h : Renders c s) (hn : IsNumeral ds n) (hrange : 1 ≤ n ∧ n < 2 ^ 64) :
      Renders (.array c n) (k ++ 0x3C :: (s ++ 0x2C :: ds) ++ [0x3E])
  | map {key value : LogicalType} {k s r : Bytes} (hk : upper k = lit "MAP")
      (hkey : Renders key s) (hvalue : Renders value r) :
      Renders (.map key value) (k ++ 0x3C :: (s ++ 0x2C :: r) ++ [0x3E])
  | struct {fs : Fields} {k s : Bytes} (hk : upper k = lit "STRUCT") (h : RendersFields fs s) :
      Renders (.struct fs) (k ++ 0x28 :: s ++ [0x29])

/-- The text writes the fields, which are not none. -/
inductive RendersFields : Fields → Bytes → Prop where
  | last {n : Bytes} {t : LogicalType} {s : Bytes} (hn : isIdentifier n = true) (h : Renders t s) :
      RendersFields (.cons n t .nil) (n ++ 0x20 :: s)
  | more {n : Bytes} {t : LogicalType} {fs : Fields} {s r : Bytes} (hn : isIdentifier n = true)
      (h : Renders t s) (hs : RendersFields fs r) :
      RendersFields (.cons n t fs) ((n ++ 0x20 :: s) ++ 0x2C :: r)

end

mutual

/-- How deep the type is nested. -/
def nesting : LogicalType → Nat
  | .list c | .array c _ => nesting c + 1
  | .map k v => max (nesting k) (nesting v) + 1
  | .struct fs | .union fs => fieldsNesting fs + 1
  | .scalar _ | .decimal _ _ | .enum _ | .other _ => 0

def fieldsNesting : Fields → Nat
  | .nil => 0
  | .cons _ t fs => max (nesting t) (fieldsNesting fs)

end

section Makes

variable (types : DuckTypes)

mutual

/-- DuckDB has the type: all constructors in it return. -/
def Makes : LogicalType → Prop
  | .decimal w s => types.decimal w s = true
  | .list c => Makes c
  | .array c n => Makes c ∧ types.array c n = true
  | .map k v => Makes k ∧ Makes v
  | .struct fs | .union fs => MakesFields fs
  | .scalar _ | .enum _ | .other _ => True

def MakesFields : Fields → Prop
  | .nil => True
  | .cons _ t fs => Makes t ∧ MakesFields fs

end

end Makes

/-! ## White space -/

/-- A byte that may stand next to a blank. -/
def isWordByte (b : UInt8) : Bool := !isSpace b && !isSpecial b

/-- All white space is single blanks between words; `last` stands before the text. -/
def tightFrom : Option UInt8 → Bytes → Bool
  | _, [] => true
  | last, b :: s =>
      (!isSpace b || (b == 0x20 && last.any isWordByte && s.head?.any isWordByte)) &&
        tightFrom (some b) s

abbrev Tight (s : Bytes) : Prop := tightFrom none s = true

/-- Nothing is left to normalise. -/
theorem normalizeFrom_of_tight {last : Option UInt8} {s : Bytes} (h : tightFrom last s = true) :
    normalizeFrom last s = s := by
  induction s generalizing last with
  | nil => rfl
  | cons b s ih =>
      rw [tightFrom, Bool.and_eq_true, Bool.or_eq_true] at h
      obtain ⟨hb, hs⟩ := h
      by_cases hspace : isSpace b = true
      · -- the only space of a tight text: one blank between two word bytes
        have hblank : (b == 0x20 && last.any isWordByte && s.head?.any isWordByte) = true := by
          simpa [hspace] using hb
        cases s with
        | nil => simp at hblank
        | cons next s =>
            cases last with
            | none => simp at hblank
            | some a =>
                simp [isWordByte] at hblank
                obtain ⟨⟨rfl, -, ha⟩, hnext, hspecial⟩ := hblank
                rw [normalizeFrom, if_pos hspace, ih hs]
                simp [hnext, ha, hspecial]
      · rw [normalizeFrom.eq_def]
        simp [hspace, ih hs]

/-- The text may stand anywhere when it starts tight. -/
theorem tightFrom_of_tight {s : Bytes} (h : Tight s) (last : Option UInt8) :
    tightFrom last s = true := by
  cases s with
  | nil => rfl
  | cons b s =>
      simp only [Tight, tightFrom, Option.any_none, Bool.and_false, Bool.false_and, Bool.or_false,
        Bool.and_eq_true] at h
      simp [tightFrom, h.1, h.2]

theorem tightFrom_append {last : Option UInt8} {s t : Bytes} (hs : tightFrom last s = true)
    (ht : Tight t) : tightFrom last (s ++ t) = true := by
  induction s generalizing last with
  | nil => exact tightFrom_of_tight ht last
  | cons b s ih =>
      simp only [tightFrom, Bool.and_eq_true] at hs
      rw [List.cons_append, tightFrom, ih hs.2, Bool.and_true]
      cases s with
      | nil =>
          have hb : isSpace b = false := by simpa using hs.1
          simp [hb]
      | cons c s => exact hs.1

theorem tight_of_noSpace {s : Bytes} (h : ∀ b ∈ s, isSpace b = false) (last : Option UInt8) :
    tightFrom last s = true := by
  induction s generalizing last with
  | nil => rfl
  | cons b s ih =>
      rw [tightFrom, h b (by simp), ih fun c hc => h c (by simp [hc])]
      rfl

/-- Behind bytes that are no white space the last of them stands before the rest. -/
theorem tightFrom_word {n : Bytes} (h : ∀ b ∈ n, isSpace b = false) (last : Option UInt8) (t : Bytes) :
    tightFrom last (n ++ t) = tightFrom (n.getLast?.or last) t := by
  induction n generalizing last with
  | nil => rfl
  | cons b n ih =>
      rw [List.cons_append, tightFrom, h b (by simp), ih fun c hc => h c (by simp [hc]),
        List.getLast?_cons]
      cases n.getLast? <;> rfl

/-- A word, a blank, and a text that starts with a word. -/
theorem tight_blank {n s : Bytes} (hn : n ≠ []) (hword : ∀ b ∈ n, isWordByte b = true) (hs : Tight s)
    (hhead : s.head?.any isWordByte = true) : Tight (n ++ 0x20 :: s) := by
  have hlast : n.getLast?.any isWordByte = true := by
    rw [List.getLast?_eq_some_getLast hn]
    exact hword _ (List.getLast_mem hn)
  have hspace : ∀ b ∈ n, isSpace b = false := by
    intro b hb
    have hbyte := hword b hb
    rw [isWordByte, Bool.and_eq_true, Bool.not_eq_true'] at hbyte
    exact hbyte.1
  rw [Tight, tightFrom_word hspace, Option.or_none, tightFrom, hlast, hhead, tightFrom_of_tight hs]
  rfl

/-! ## Brackets and commas -/

/-- The two kinds of brackets. -/
def Brackets (o c : UInt8) : Prop := (o = 0x3C ∧ c = 0x3E) ∨ (o = 0x28 ∧ c = 0x29)

/-- A byte that `FindMatchingBracket` and `SplitTopLevelCommas` pass over. -/
def isPlain (b : UInt8) : Bool := !isSpecial b

/-- `FindMatchingBracket` passes over the text between brackets. -/
def Nested (s : Bytes) : Prop := ∀ closeCh depth r, 1 ≤ depth →
  findMatchingBracket closeCh depth (s ++ r) =
    (findMatchingBracket closeCh depth r).map fun p => (s ++ p.1, p.2)

/-- `SplitTopLevelCommas` passes over the text between brackets. -/
def Inner (s : Bytes) : Prop := ∀ angle paren r, 0 ≤ angle → 0 ≤ paren → 0 < angle + paren →
  splitSegments angle paren (s ++ r) =
    (s ++ (splitSegments angle paren r).1, (splitSegments angle paren r).2)

/-- `SplitTopLevelCommas` passes over the text anywhere. -/
def Solid (s : Bytes) : Prop := ∀ angle paren r, 0 ≤ angle → 0 ≤ paren →
  splitSegments angle paren (s ++ r) =
    (s ++ (splitSegments angle paren r).1, (splitSegments angle paren r).2)

theorem Solid.inner {s : Bytes} (h : Solid s) : Inner s :=
  fun angle paren r ha hp _ => h angle paren r ha hp

theorem Nested.append {s t : Bytes} (hs : Nested s) (ht : Nested t) : Nested (s ++ t) := by
  intro closeCh depth r hdepth
  rw [List.append_assoc, hs _ _ _ hdepth, ht _ _ _ hdepth]
  simp [Function.comp_def]

theorem Inner.append {s t : Bytes} (hs : Inner s) (ht : Inner t) : Inner (s ++ t) := by
  intro angle paren r ha hp hdepth
  rw [List.append_assoc, hs _ _ _ ha hp hdepth, ht _ _ _ ha hp hdepth, List.append_assoc]

theorem Solid.append {s t : Bytes} (hs : Solid s) (ht : Solid t) : Solid (s ++ t) := by
  intro angle paren r ha hp
  rw [List.append_assoc, hs _ _ _ ha hp, ht _ _ _ ha hp, List.append_assoc]

theorem nested_of_plain {s : Bytes} (h : ∀ b ∈ s, isPlain b = true) : Nested s := by
  intro closeCh depth r hdepth
  induction s with
  | nil => simp
  | cons b s ih =>
      have hb : isOpen b = false ∧ isClose b = false := by
        have hplain := h b (by simp)
        simp [isPlain, isSpecial] at hplain
        exact ⟨hplain.1.1, hplain.1.2⟩
      rw [List.cons_append, findMatchingBracket, hb.1, hb.2, ih fun c hc => h c (by simp [hc])]
      simp [Function.comp_def]

theorem solid_of_plain {s : Bytes} (h : ∀ b ∈ s, isPlain b = true) : Solid s := by
  intro angle paren r ha hp
  induction s with
  | nil => rfl
  | cons b s ih =>
      have hb : b ≠ 0x3C ∧ b ≠ 0x3E ∧ b ≠ 0x28 ∧ b ≠ 0x29 ∧ b ≠ 0x2C := by
        have hplain := h b (by simp)
        simp [isPlain, isSpecial, isOpen, isClose] at hplain
        tauto
      rw [List.cons_append, splitSegments]
      simp [hb, ih fun c hc => h c (by simp [hc])]

theorem nested_comma : Nested [0x2C] := by
  intro closeCh depth r hdepth
  rfl

theorem inner_comma : Inner [0x2C] := by
  intro angle paren r ha hp hdepth
  rw [List.singleton_append, splitSegments, if_neg (by omega)]
  rfl

/-- Brackets around a text. -/
theorem Nested.wrap {o c : UInt8} {s : Bytes} (hoc : Brackets o c) (h : Nested s) :
    Nested (o :: s ++ [c]) := by
  intro closeCh depth r hdepth
  have hopen : isOpen o = true := by rcases hoc with ⟨rfl, rfl⟩ | ⟨rfl, rfl⟩ <;> rfl
  have hclose : isOpen c = false ∧ isClose c = true := by
    rcases hoc with ⟨rfl, rfl⟩ | ⟨rfl, rfl⟩ <;> exact ⟨rfl, rfl⟩
  have hstep : findMatchingBracket closeCh (depth + 1) ([c] ++ r) =
      (findMatchingBracket closeCh depth r).map fun p => ([c] ++ p.1, p.2) := by
    rw [List.singleton_append, findMatchingBracket, hclose.1, hclose.2,
      if_neg (by simp), if_pos rfl, if_neg (by omega), Int.add_sub_cancel]
    rfl
  rw [List.cons_append, List.cons_append, findMatchingBracket, if_pos hopen, List.append_assoc,
    h _ _ _ (by omega), hstep]
  simp [Function.comp_def]

theorem splitSegments_open_angle (angle paren : Int) (s : Bytes) : splitSegments angle paren (0x3C :: s) =
    (0x3C :: (splitSegments (angle + 1) paren s).1, (splitSegments (angle + 1) paren s).2) := rfl

theorem splitSegments_close_angle (angle paren : Int) (s : Bytes) : splitSegments angle paren (0x3E :: s) =
    (0x3E :: (splitSegments (angle - 1) paren s).1, (splitSegments (angle - 1) paren s).2) := rfl

theorem splitSegments_open_paren (angle paren : Int) (s : Bytes) : splitSegments angle paren (0x28 :: s) =
    (0x28 :: (splitSegments angle (paren + 1) s).1, (splitSegments angle (paren + 1) s).2) := rfl

theorem splitSegments_close_paren (angle paren : Int) (s : Bytes) : splitSegments angle paren (0x29 :: s) =
    (0x29 :: (splitSegments angle (paren - 1) s).1, (splitSegments angle (paren - 1) s).2) := rfl

theorem Inner.wrap {o c : UInt8} {s : Bytes} (hoc : Brackets o c) (h : Inner s) :
    Solid (o :: s ++ [c]) := by
  intro angle paren r ha hp
  rw [List.cons_append, List.cons_append, List.append_assoc, List.singleton_append]
  rcases hoc with ⟨rfl, rfl⟩ | ⟨rfl, rfl⟩
  · rw [splitSegments_open_angle, h _ _ _ (by omega) hp (by omega), splitSegments_close_angle,
      Int.add_sub_cancel]
    simp
  · rw [splitSegments_open_paren, h _ _ _ ha (by omega) (by omega), splitSegments_close_paren,
      Int.add_sub_cancel]
    simp

/-- What stands before a comma outside of all brackets is a segment. -/
theorem splitSegments_comma (s : Bytes) : splitSegments 0 0 (0x2C :: s) =
    ([], (splitSegments 0 0 s).1 :: (splitSegments 0 0 s).2) := rfl

/-! ## What the parser needs of a text -/

/-- The text is in its normal form, and its brackets are balanced. -/
structure Passes (s : Bytes) : Prop where
  tight : Tight s
  nested : Nested s
  inner : Inner s

theorem Passes.append {s t : Bytes} (hs : Passes s) (ht : Passes t) : Passes (s ++ t) :=
  ⟨tightFrom_append hs.tight ht.tight, hs.nested.append ht.nested, hs.inner.append ht.inner⟩

theorem passes_of_word {s : Bytes} (h : ∀ b ∈ s, isWordByte b = true) : Passes s := by
  have hboth : ∀ b ∈ s, isSpace b = false ∧ isPlain b = true := by
    intro b hb
    have hbyte := h b hb
    rwa [isWordByte, Bool.and_eq_true, Bool.not_eq_true'] at hbyte
  have hplain : ∀ b ∈ s, isPlain b = true := fun b hb => (hboth b hb).2
  exact ⟨tight_of_noSpace (fun b hb => (hboth b hb).1) none, nested_of_plain hplain,
    (solid_of_plain hplain).inner⟩

theorem passes_comma : Passes [0x2C] := ⟨rfl, nested_comma, inner_comma⟩

theorem Passes.wrap {o c : UInt8} {s : Bytes} (hoc : Brackets o c) (h : Passes s) :
    Passes (o :: s ++ [c]) := by
  have hopen : Tight [o] := by rcases hoc with ⟨rfl, rfl⟩ | ⟨rfl, rfl⟩ <;> rfl
  have hclose : Tight [c] := by rcases hoc with ⟨rfl, rfl⟩ | ⟨rfl, rfl⟩ <;> rfl
  exact ⟨tightFrom_append (tightFrom_append hopen h.tight) hclose, h.nested.wrap hoc,
    (h.inner.wrap hoc).inner⟩

/-- A tight text has no white space at its ends. -/
theorem trim_of_tight {s : Bytes} (h : Tight s) : trim s = s := by
  refine Bytes.trim_of_ends (fun b hb => ?_) ?_
  · cases s with
    | nil => simp at hb
    | cons c s =>
        obtain rfl : c = b := by simpa using hb
        simp only [Tight, tightFrom, Option.any_none, Bool.and_false, Bool.false_and,
          Bool.or_false, Bool.and_eq_true, Bool.not_eq_true'] at h
        exact h.1
  · have hlast : ∀ last, tightFrom last s = true → ∀ b ∈ s.getLast?, isSpace b = false := by
      clear h
      induction s with
      | nil => simp
      | cons b s ih =>
          intro last h c hc
          simp only [tightFrom, Bool.and_eq_true] at h
          cases s with
          | nil =>
              obtain rfl : b = c := by simpa using hc
              simpa using h.1
          | cons d s =>
              rw [List.getLast?_cons_cons] at hc
              exact ih (some b) h.2 c hc
    exact hlast none h

/-! ## Keywords -/

theorem upper_append (s t : Bytes) : upper (s ++ t) = upper s ++ upper t := List.map_append

theorem length_upper (s : Bytes) : (upper s).length = s.length := List.length_map _

/-- What the classes of bytes say about a byte does not depend on its case. -/
theorem classes_toUpper (b : UInt8) : isSpace (toUpper b) = isSpace b ∧
    isSpecial (toUpper b) = isSpecial b ∧ isAlpha (toUpper b) = isAlpha b ∧
    (toUpper b = 0x20 ↔ b = 0x20) :=
  forall_byte (P := fun b => isSpace (toUpper b) = isSpace b ∧ isSpecial (toUpper b) = isSpecial b ∧
    isAlpha (toUpper b) = isAlpha b ∧ (toUpper b = 0x20 ↔ b = 0x20)) (by decide +kernel) b

theorem isWordByte_of_isAlpha (b : UInt8) : isAlpha b = true → isWordByte b = true :=
  forall_byte (P := fun b => isAlpha b = true → isWordByte b = true) (by decide +kernel) b

theorem isWordByte_of_isDigit (b : UInt8) : isDigit b = true → isWordByte b = true :=
  forall_byte (P := fun b => isDigit b = true → isWordByte b = true) (by decide +kernel) b

theorem isWordByte_toUpper (b : UInt8) : isWordByte (toUpper b) = isWordByte b := by
  obtain ⟨hspace, hspecial, -, -⟩ := classes_toUpper b
  rw [isWordByte, isWordByte, hspace, hspecial]

theorem tightFrom_upper (last : Option UInt8) (s : Bytes) :
    tightFrom (last.map toUpper) (upper s) = tightFrom last s := by
  induction s generalizing last with
  | nil => rfl
  | cons b s ih =>
      obtain ⟨hspace, -, -, hblank⟩ := classes_toUpper b
      have hlast : (last.map toUpper).any isWordByte = last.any isWordByte := by
        cases last <;> simp [isWordByte_toUpper]
      have hhead : (upper s).head?.any isWordByte = s.head?.any isWordByte := by
        cases s <;> simp [upper, isWordByte_toUpper]
      have hbeq : (toUpper b == 0x20) = (b == 0x20) := by
        rw [Bool.eq_iff_iff, beq_iff_eq, beq_iff_eq]
        exact hblank
      have htail := ih (some b)
      rw [show upper (b :: s) = toUpper b :: upper s from rfl, tightFrom, tightFrom, hspace, hlast,
        hhead, hbeq]
      exact congrArg _ htail

/-- The bytes of a word that is a word of letters in capitals. -/
theorem isAlpha_of_upper {s : Bytes} (h : ∀ b ∈ upper s, isAlpha b = true) :
    ∀ b ∈ s, isAlpha b = true := by
  intro b hb
  rw [← (classes_toUpper b).2.2.1]
  exact h _ (List.mem_map_of_mem hb)

/-- The text starts with a letter. -/
abbrev StartsAlpha (s : Bytes) : Prop := s.head?.any isAlpha = true

theorem startsAlpha_of_upper {s : Bytes} (h : StartsAlpha (upper s)) : StartsAlpha s := by
  cases s with
  | nil => exact h
  | cons b s =>
      have hb : isAlpha (toUpper b) = true := h
      rw [(classes_toUpper b).2.2.1] at hb
      exact hb

theorem StartsAlpha.append {s : Bytes} (h : StartsAlpha s) (t : Bytes) : StartsAlpha (s ++ t) := by
  cases s with
  | nil => exact nomatch h
  | cons b s => exact h

theorem StartsAlpha.ne_nil {s : Bytes} (h : StartsAlpha s) : s ≠ [] := by
  rintro rfl
  exact nomatch h

theorem StartsAlpha.head_word {s : Bytes} (h : StartsAlpha s) : s.head?.any isWordByte = true := by
  cases s with
  | nil => exact nomatch h
  | cons b s => exact isWordByte_of_isAlpha b h

/-! ## Every rendering passes -/

/-- What holds of the text of a type, wherever it stands. -/
structure TypeText (s : Bytes) : Prop extends Passes s where
  solid : Solid s
  startsAlpha : StartsAlpha s

theorem simpleTypeNames_text : ∀ e ∈ simpleTypeNames,
    Tight e.1 ∧ (∀ b ∈ e.1, isSpecial b = false) ∧ StartsAlpha e.1 := by
  decide

theorem typeText_scalar {id : ScalarType} {s : Bytes} (h : (upper s, id) ∈ simpleTypeNames) :
    TypeText s := by
  obtain ⟨htight, hplain, hhead⟩ := simpleTypeNames_text _ h
  have hs : ∀ b ∈ s, isPlain b = true := by
    intro b hb
    rw [isPlain, ← (classes_toUpper b).2.1, hplain _ (List.mem_map_of_mem hb)]
    rfl
  have hsolid := solid_of_plain hs
  refine ⟨⟨?_, nested_of_plain hs, hsolid.inner⟩, hsolid, startsAlpha_of_upper hhead⟩
  rw [Tight, ← tightFrom_upper]
  exact htight

/-- A keyword, and something in brackets behind it. -/
theorem typeText_wrap {k s : Bytes} {o c : UInt8} (hk : ∀ b ∈ upper k, isAlpha b = true)
    (hne : StartsAlpha (upper k)) (hoc : Brackets o c) (h : Passes s) :
    TypeText (k ++ o :: s ++ [c]) := by
  have hword : ∀ b ∈ k, isWordByte b = true :=
    fun b hb => isWordByte_of_isAlpha b (isAlpha_of_upper hk b hb)
  have hsolid : Solid k := solid_of_plain fun b hb => (Bool.and_eq_true_iff.mp (hword b hb)).2
  rw [List.append_assoc]
  exact ⟨(passes_of_word hword).append (h.wrap hoc), hsolid.append (h.inner.wrap hoc),
    (startsAlpha_of_upper hne).append _⟩

theorem IsNumeral.plain {ds : Bytes} {n : Nat} (h : IsNumeral ds n) : ∀ b ∈ ds, isPlain b = true :=
  fun b hb => (Bool.and_eq_true_iff.mp (isWordByte_of_isDigit b (h.2.1 b hb))).2

theorem IsNumeral.passes {ds : Bytes} {n : Nat} (h : IsNumeral ds n) : Passes ds :=
  passes_of_word fun b hb => isWordByte_of_isDigit b (h.2.1 b hb)

/-- Letters, digits and underscores. -/
theorem isIdentifier_bytes {n : Bytes} (h : isIdentifier n = true) :
    n ≠ [] ∧ ∀ b ∈ n, (isAlpha b || isDigit b || b == 0x5F) = true := by
  cases n with
  | nil => exact nomatch h
  | cons b n =>
      simp only [isIdentifier, Bool.and_eq_true, List.all_eq_true] at h
      refine ⟨by simp, List.forall_mem_cons.mpr ⟨?_, h.2⟩⟩
      simpa [or_right_comm] using Or.inl (b := isDigit b = true) h.1

theorem isIdentifier_word {n : Bytes} (h : isIdentifier n = true) :
    n ≠ [] ∧ ∀ b ∈ n, isWordByte b = true := by
  have hbyte : ∀ b, (isAlpha b || isDigit b || b == 0x5F) = true → isWordByte b = true :=
    forall_byte (by decide +kernel)
  obtain ⟨hne, hall⟩ := isIdentifier_bytes h
  exact ⟨hne, fun b hb => hbyte b (hall b hb)⟩

/-- A field: a name, a blank and a type. -/
theorem passes_field {n s : Bytes} (hn : isIdentifier n = true) (hs : TypeText s) :
    Passes (n ++ 0x20 :: s) ∧ Solid (n ++ 0x20 :: s) := by
  obtain ⟨hne, hword⟩ := isIdentifier_word hn
  have hplain : ∀ b ∈ n ++ [0x20], isPlain b = true :=
    List.forall_mem_append.mpr ⟨fun b hb => (Bool.and_eq_true_iff.mp (hword b hb)).2, by decide⟩
  have hassoc : n ++ 0x20 :: s = (n ++ [0x20]) ++ s := by simp
  refine ⟨⟨tight_blank hne hword hs.tight hs.startsAlpha.head_word, ?_, ?_⟩, ?_⟩
  · rw [hassoc]
    exact (nested_of_plain hplain).append hs.nested
  · rw [hassoc]
    exact (solid_of_plain hplain).inner.append hs.inner
  · rw [hassoc]
    exact (solid_of_plain hplain).append hs.solid

/-- The fields of a STRUCT with the commas between them. -/
theorem passes_of_fields {fs : Fields} {s : Bytes}
    (htypes : ∀ f ∈ fs.toList, ∀ s, Renders f.2 s → TypeText s) (h : RendersFields fs s) :
    Passes s := by
  induction fs using Fields.induction generalizing s with
  | nil => cases h
  | cons n t fs ih =>
      have ht : ∀ s, Renders t s → TypeText s := htypes (n, t) List.mem_cons_self
      cases h with
      | last hn h => exact (passes_field hn (ht _ h)).1
      | more hn h hs =>
          have hrest := ih (fun f hf => htypes f (List.mem_cons_of_mem _ hf)) hs
          exact (passes_field hn (ht _ h)).1.append (passes_comma.append hrest)

theorem typeText_of_renders (t : LogicalType) : ∀ {s}, Renders t s → TypeText s := by
  induction t using LogicalType.induction_on with
  | scalar id =>
      intro s h
      cases h with
      | scalar h => exact typeText_scalar h
  | decimal w n =>
      intro s h
      cases h with
      | decimal hk hw hn _ =>
          exact typeText_wrap (by rw [hk]; decide) (by rw [hk]; decide) (Or.inr ⟨rfl, rfl⟩)
            (hw.passes.append (passes_comma.append hn.passes))
  | list c ih =>
      intro s h
      cases h with
      | list hk h =>
          exact typeText_wrap (by rw [hk]; decide) (by rw [hk]; decide) (Or.inl ⟨rfl, rfl⟩)
            (ih h).toPasses
  | array c n ih =>
      intro s h
      cases h with
      | array hk h hn _ =>
          exact typeText_wrap (by rw [hk]; decide) (by rw [hk]; decide) (Or.inl ⟨rfl, rfl⟩)
            ((ih h).toPasses.append (passes_comma.append hn.passes))
  | map k v ihk ihv =>
      intro s h
      cases h with
      | map hk hkey hvalue =>
          exact typeText_wrap (by rw [hk]; decide) (by rw [hk]; decide) (Or.inl ⟨rfl, rfl⟩)
            ((ihk hkey).toPasses.append (passes_comma.append (ihv hvalue).toPasses))
  | struct fs ih =>
      intro s h
      cases h with
      | struct hk h =>
          exact typeText_wrap (by rw [hk]; decide) (by rw [hk]; decide) (Or.inr ⟨rfl, rfl⟩)
            (passes_of_fields (fun f hf s => ih f hf) h)
  | union ms ih =>
      intro s h
      cases h
  | enum ls =>
      intro s h
      cases h
  | other n =>
      intro s h
      cases h

/-! ## Reading a type back -/

/-- Digits are read as the number they denote, below `2 ^ 64`. -/
theorem stoull_of_digits {ds : Bytes} (hne : ds ≠ []) (hdigits : ∀ b ∈ ds, isDigit b = true) :
    stoull ds = if 2 ^ 64 ≤ natOfDigits 0 ds then none else some (natOfDigits 0 ds) := by
  cases ds with
  | nil => exact absurd rfl hne
  | cons b ds =>
      have hb := hdigits b (by simp)
      obtain ⟨hspace, hminus, hplus⟩ : isSpace b = false ∧ b ≠ 0x2D ∧ b ≠ 0x2B := by
        grind [isDigit, isSpace]
      have hall : (b :: ds).takeWhile isDigit = b :: ds := List.takeWhile_eq_self_iff.mpr hdigits
      simp [stoull, hspace, hminus, hplus, hall]

theorem IsNumeral.stoull {ds : Bytes} {n : Nat} (h : IsNumeral ds n) (hn : n < 2 ^ 64) :
    Bytes.stoull ds = some n := by
  obtain ⟨hne, hdigits, rfl⟩ := h
  rw [stoull_of_digits hne hdigits, if_neg (Nat.not_le.mpr hn)]

/-- The brackets behind a keyword are found. -/
theorem bracketedArgs_wrap {k s : Bytes} {o c : UInt8} (name : Bytes) (hoc : Brackets o c)
    (h : Passes s) : bracketedArgs name k.length o c (k ++ o :: s ++ [c]) = .ok s := by
  have hopen : isOpen o = true := by rcases hoc with ⟨rfl, rfl⟩ | ⟨rfl, rfl⟩ <;> rfl
  have hclose : isOpen c = false ∧ isClose c = true := by
    rcases hoc with ⟨rfl, rfl⟩ | ⟨rfl, rfl⟩ <;> exact ⟨rfl, rfl⟩
  have hfind : findMatchingBracket c 0 (o :: s ++ [c]) = some (o :: s, []) := by
    have hlast : findMatchingBracket c 1 [c] = some ([], []) := by
      simp [findMatchingBracket, hclose]
    rw [List.cons_append, findMatchingBracket, if_pos hopen, Int.zero_add,
      h.nested _ _ _ (by omega), hlast]
    simp
  have hdrop : (k ++ o :: s ++ [c]).drop k.length = o :: s ++ [c] := by simp
  rw [bracketedArgs, hdrop, hfind, if_neg (by simp)]
  simp

theorem length_of_upper {k u : Bytes} (h : upper k = u) : k.length = u.length := by
  rw [← h, length_upper]

theorem startsWith_append (s t : Bytes) : startsWith (s ++ t) s = true := by
  simp [startsWith]

/-- The keyword of a text that is one, and brackets behind it. -/
theorem upper_wrap {k u : Bytes} (hk : upper k = u) (o : UInt8) (s : Bytes) (c : UInt8) :
    upper (k ++ o :: s ++ [c]) = u ++ toUpper o :: upper (s ++ [c]) := by
  rw [List.append_assoc, upper_append, hk]
  rfl

/-- Two texts with a comma between them. -/
theorem splitTopLevelCommas_two {s t : Bytes} (hs : Solid s) (hts : Tight s) (ht : Solid t)
    (htt : Tight t) (hne : t ≠ []) : splitTopLevelCommas (s ++ 0x2C :: t) = [s, t] := by
  have hlast : splitSegments 0 0 t = (t, []) := by
    have h := ht 0 0 [] le_rfl le_rfl
    rwa [List.append_nil, splitSegments, List.append_nil] at h
  have hsplit : splitSegments 0 0 (s ++ 0x2C :: t) = (s, [t]) := by
    rw [hs 0 0 _ le_rfl le_rfl, splitSegments_comma, hlast, List.append_nil]
  simp [splitTopLevelCommas, hsplit, hne, trim_of_tight hts, trim_of_tight htt]

/-- A text the parser takes as it is. -/
structure Admissible (s : Bytes) : Prop where
  text : TypeText s
  length_le : s.length ≤ kMaxTypeStringLength

section Levels

variable {types : DuckTypes} {levels : Nat} {k s : Bytes}

theorem Admissible.normalize (h : Admissible s) : normalize s = s := normalizeFrom_of_tight h.text.tight

theorem Admissible.ne_nil (h : Admissible s) : s ≠ [] := h.text.startsAlpha.ne_nil

theorem parse_list {c : LogicalType} (hk : upper k = lit "LIST")
    (h : Admissible (k ++ 0x3C :: s ++ [0x3E])) (hs : Passes s)
    (hc : parseLogicalType types levels s = .ok c) :
    parseLogicalType types (levels + 1) (k ++ 0x3C :: s ++ [0x3E]) = .ok (.list c) := by
  have hargs := bracketedArgs_wrap (k := k) (lit "LIST<...>") (Or.inl ⟨rfl, rfl⟩) hs
  rw [length_of_upper hk, show (lit "LIST").length = 4 from rfl] at hargs
  have hlist : ∀ r, startsWith (lit "LIST" ++ toUpper 0x3C :: r) (lit "LIST<") = true := fun _ => rfl
  rw [parseLogicalType, if_neg (Nat.not_lt.mpr h.length_le)]
  simp only [h.normalize, if_neg h.ne_nil, upper_wrap hk, hlist, if_true]
  exact bind_eq_ok.mpr ⟨s, hargs, bind_eq_ok.mpr ⟨c, hc, rfl⟩⟩

theorem parse_array {c : LogicalType} {n : Nat} {ds : Bytes} (hk : upper k = lit "ARRAY")
    (h : Admissible (k ++ 0x3C :: (s ++ 0x2C :: ds) ++ [0x3E])) (hs : TypeText s)
    (hn : IsNumeral ds n) (hrange : 1 ≤ n ∧ n < 2 ^ 64) (hmade : types.array c n = true)
    (hc : parseLogicalType types levels s = .ok c) :
    parseLogicalType types (levels + 1) (k ++ 0x3C :: (s ++ 0x2C :: ds) ++ [0x3E]) = .ok (.array c n) := by
  have hargs := bracketedArgs_wrap (k := k) (lit "ARRAY<T,N>") (Or.inl ⟨rfl, rfl⟩)
    (hs.toPasses.append (passes_comma.append hn.passes))
  rw [length_of_upper hk, show (lit "ARRAY").length = 5 from rfl] at hargs
  have hlist : ∀ r, startsWith (lit "ARRAY" ++ toUpper 0x3C :: r) (lit "LIST<") = false := fun _ => rfl
  have harray : ∀ r, startsWith (lit "ARRAY" ++ toUpper 0x3C :: r) (lit "ARRAY<") = true := fun _ => rfl
  have hsplit : splitTopLevelCommas (s ++ ([0x2C] ++ ds)) = [s, ds] :=
    splitTopLevelCommas_two hs.solid hs.tight (solid_of_plain hn.plain) hn.passes.tight hn.1
  rw [parseLogicalType, if_neg (Nat.not_lt.mpr h.length_le)]
  simp only [h.normalize, if_neg h.ne_nil, upper_wrap hk, hlist, harray, Bool.false_eq_true, if_false,
    if_true]
  refine bind_eq_ok.mpr ⟨_, hargs, ?_⟩
  simp only [hsplit]
  refine bind_eq_ok.mpr ⟨c, hc, ?_⟩
  rw [hn.stoull hrange.2]
  exact (if_neg (by omega)).trans (if_pos hmade)

theorem parse_map {key value : LogicalType} {r : Bytes} (hk : upper k = lit "MAP")
    (h : Admissible (k ++ 0x3C :: (s ++ 0x2C :: r) ++ [0x3E])) (hs : TypeText s) (hr : TypeText r)
    (hkey : parseLogicalType types levels s = .ok key) (hvalue : parseLogicalType types levels r = .ok value) :
    parseLogicalType types (levels + 1) (k ++ 0x3C :: (s ++ 0x2C :: r) ++ [0x3E]) = .ok (.map key value) := by
  have hargs := bracketedArgs_wrap (k := k) (lit "MAP<K,V>") (Or.inl ⟨rfl, rfl⟩)
    (hs.toPasses.append (passes_comma.append hr.toPasses))
  rw [length_of_upper hk, show (lit "MAP").length = 3 from rfl] at hargs
  have hlist : ∀ r, startsWith (lit "MAP" ++ toUpper 0x3C :: r) (lit "LIST<") = false := fun _ => rfl
  have harray : ∀ r, startsWith (lit "MAP" ++ toUpper 0x3C :: r) (lit "ARRAY<") = false := fun _ => rfl
  have hmap : ∀ r, startsWith (lit "MAP" ++ toUpper 0x3C :: r) (lit "MAP<") = true := fun _ => rfl
  have hsplit : splitTopLevelCommas (s ++ ([0x2C] ++ r)) = [s, r] :=
    splitTopLevelCommas_two hs.solid hs.tight hr.solid hr.tight hr.startsAlpha.ne_nil
  rw [parseLogicalType, if_neg (Nat.not_lt.mpr h.length_le)]
  simp only [h.normalize, if_neg h.ne_nil, upper_wrap hk, hlist, harray, hmap, Bool.false_eq_true,
    if_false, if_true]
  refine bind_eq_ok.mpr ⟨_, hargs, ?_⟩
  simp only [hsplit]
  exact bind_eq_ok.mpr ⟨key, hkey, bind_eq_ok.mpr ⟨value, hvalue, rfl⟩⟩

theorem parse_struct {fs : Fields} (hk : upper k = lit "STRUCT")
    (h : Admissible (k ++ 0x28 :: s ++ [0x29])) (hs : Passes s) (hne : splitTopLevelCommas s ≠ [])
    (hfs : parseFields (parseLogicalType types levels) (splitTopLevelCommas s) = .ok fs) :
    parseLogicalType types (levels + 1) (k ++ 0x28 :: s ++ [0x29]) = .ok (.struct fs) := by
  have hargs := bracketedArgs_wrap (k := k) (lit "STRUCT(...)") (Or.inr ⟨rfl, rfl⟩) hs
  rw [length_of_upper hk, show (lit "STRUCT").length = 6 from rfl] at hargs
  have hlist : ∀ r, startsWith (lit "STRUCT" ++ toUpper 0x28 :: r) (lit "LIST<") = false := fun _ => rfl
  have harray : ∀ r, startsWith (lit "STRUCT" ++ toUpper 0x28 :: r) (lit "ARRAY<") = false :=
    fun _ => rfl
  have hmap : ∀ r, startsWith (lit "STRUCT" ++ toUpper 0x28 :: r) (lit "MAP<") = false := fun _ => rfl
  have hstruct : ∀ r, startsWith (lit "STRUCT" ++ toUpper 0x28 :: r) (lit "STRUCT(") = true :=
    fun _ => rfl
  rw [parseLogicalType, if_neg (Nat.not_lt.mpr h.length_le)]
  simp only [h.normalize, if_neg h.ne_nil, upper_wrap hk, hlist, harray, hmap, hstruct,
    Bool.false_eq_true, if_false, if_true]
  refine bind_eq_ok.mpr ⟨s, hargs, ?_⟩
  simp only [if_neg hne]
  exact bind_eq_ok.mpr ⟨fs, hfs, rfl⟩

/-- A name, a blank and a type are read as a field. -/
theorem parseFields_cons {parse : Bytes → Except Bytes LogicalType} {n : Bytes} {t : LogicalType}
    {fs : Fields} {fields : List Bytes} (hn : isIdentifier n = true) (hs : Tight s)
    (ht : parse s = .ok t) (hfs : parseFields parse fields = .ok fs) :
    parseFields parse ((n ++ 0x20 :: s) :: fields) = .ok (.cons n t fs) := by
  obtain ⟨hne, hword⟩ := isIdentifier_word hn
  have hstop : ∀ b, isWordByte b = true → (b ≠ 0x20 && b ≠ 0x09) = true := by
    intro b hb
    grind [isWordByte, isSpace]
  -- the name is a word, so it ends at the blank
  have hspan : ((n ++ 0x20 :: s).span fun b => b ≠ 0x20 && b ≠ 0x09) = (n, 0x20 :: s) := by
    rw [List.span_eq_takeWhile_dropWhile, List.takeWhile_append_of_pos fun b hb => hstop b (hword b hb),
      List.dropWhile_append_of_pos fun b hb => hstop b (hword b hb)]
    simp
  have hname : checkFieldName n = .ok () := by
    cases n with
    | nil => exact absurd rfl hne
    | cons b n =>
        simp only [isIdentifier, Bool.and_eq_true, List.all_eq_true] at hn
        have hhead : ((b :: n).head?.any fun b => isAlpha b || b == 0x5F) = true := hn.1
        have hall : ((b :: n).all fun b => isAlpha b || isDigit b || b == 0x5F) = true := by
          rw [List.all_cons, Bool.and_eq_true, List.all_eq_true]
          refine ⟨?_, hn.2⟩
          rw [Bool.or_right_comm, hn.1]
          rfl
        rw [checkFieldName, hhead, hall]
        rfl
  have htrim : trim n = n := trim_of_tight (passes_of_word hword).tight
  rw [parseFields, hspan]
  simp only [htrim, trim_of_tight hs]
  exact bind_eq_ok.mpr ⟨(), hname, bind_eq_ok.mpr ⟨t, ht, bind_eq_ok.mpr ⟨fs, hfs, rfl⟩⟩⟩

theorem simpleTypeNames_tests : ∀ e ∈ simpleTypeNames,
    simpleTypeNames.lookup e.1 = some e.2 ∧ startsWith e.1 (lit "LIST<") = false ∧
      startsWith e.1 (lit "ARRAY<") = false ∧ startsWith e.1 (lit "MAP<") = false ∧
      startsWith e.1 (lit "STRUCT(") = false ∧ startsWith e.1 (lit "UNION(") = false ∧
      startsWith e.1 (lit "DECIMAL(") = false := by
  decide

theorem parse_scalar {id : ScalarType} (hs : (upper s, id) ∈ simpleTypeNames) (h : Admissible s) :
    parseLogicalType types (levels + 1) s = .ok (.scalar id) := by
  obtain ⟨hlookup, hlist, harray, hmap, hstruct, hunion, -⟩ := simpleTypeNames_tests _ hs
  have htrim : trim (upper s) = upper s := trim_of_tight (simpleTypeNames_text _ hs).1
  rw [parseLogicalType, if_neg (Nat.not_lt.mpr h.length_le)]
  simp only [h.normalize, if_neg h.ne_nil, hlist, harray, hmap, hstruct, hunion, Bool.false_eq_true,
    if_false]
  simp only [parseSimpleLogicalType, htrim, hlookup]

/-- Digits have no case. -/
theorem upper_digits {ds : Bytes} (h : ∀ b ∈ ds, isDigit b = true) : upper ds = ds := by
  refine (List.map_congr_left fun b hb => ?_).trans (List.map_id ds)
  have hdigit := h b hb
  grind [toUpper, isDigit]

theorem span_digits {ds : Bytes} (h : ∀ b ∈ ds, isDigit b = true) {c : UInt8}
    (hc : isDigit c = false) (s : Bytes) : (ds ++ c :: s).span (· ≠ c) = (ds, c :: s) := by
  have hne : ∀ b ∈ ds, decide (b ≠ c) = true := by
    intro b hb
    refine decide_eq_true ?_
    rintro rfl
    rw [h b hb] at hc
    cases hc
  rw [List.span_eq_takeWhile_dropWhile, List.takeWhile_append_of_pos hne,
    List.dropWhile_append_of_pos hne]
  simp

theorem parseDecimal_eq {w n : Nat} {ds es : Bytes} (hw : IsNumeral ds w) (hn : IsNumeral es n)
    (hrange : 1 ≤ w ∧ w ≤ 38 ∧ n ≤ w) (hmade : types.decimal w n = true) :
    parseDecimal types (ds ++ 0x2C :: (es ++ [0x29])) = .ok (.decimal w n) := by
  have hwidth := span_digits hw.2.1 (c := 0x2C) (by decide) (es ++ [0x29])
  have hscale := span_digits hn.2.1 (c := 0x29) (by decide) []
  rw [parseDecimal, hwidth]
  simp only [hscale, hw.stoull (by omega), hn.stoull (by omega)]
  rw [Nat.mod_eq_of_lt (by omega), Nat.mod_eq_of_lt (by omega), if_pos hmade]

theorem parse_decimal {w n : Nat} {ds es : Bytes} (hk : upper k = lit "DECIMAL") (hw : IsNumeral ds w)
    (hn : IsNumeral es n) (hrange : 1 ≤ w ∧ w ≤ 38 ∧ n ≤ w) (hmade : types.decimal w n = true)
    (h : Admissible (k ++ 0x28 :: (ds ++ 0x2C :: es) ++ [0x29])) :
    parseLogicalType types (levels + 1) (k ++ 0x28 :: (ds ++ 0x2C :: es) ++ [0x29]) = .ok (.decimal w n) := by
  have hupper : upper (k ++ 0x28 :: (ds ++ 0x2C :: es) ++ [0x29]) =
      lit "DECIMAL(" ++ (ds ++ 0x2C :: (es ++ [0x29])) := by
    have hinner : upper (ds ++ 0x2C :: es ++ [0x29]) = ds ++ 0x2C :: (es ++ [0x29]) := by
      have hes : upper (0x2C :: es ++ [0x29]) = 0x2C :: (upper es ++ [0x29]) := by
        rw [upper_append]
        rfl
      rw [List.append_assoc, upper_append, hes, upper_digits hw.2.1, upper_digits hn.2.1]
    rw [upper_wrap hk, hinner]
    rfl
  have htrim : trim (lit "DECIMAL(" ++ (ds ++ 0x2C :: (es ++ [0x29]))) =
      lit "DECIMAL(" ++ (ds ++ 0x2C :: (es ++ [0x29])) := by
    have htight := (tightFrom_upper none _).trans h.text.tight
    rw [hupper] at htight
    exact trim_of_tight htight
  -- no simple name starts with `DECIMAL(`
  have hlookup : simpleTypeNames.lookup (lit "DECIMAL(" ++ (ds ++ 0x2C :: (es ++ [0x29]))) = none := by
    rw [List.lookup_eq_none_iff]
    intro e he
    have hdecimal := (simpleTypeNames_tests e he).2.2.2.2.2.2
    rw [bne_iff_ne]
    intro heq
    rw [← heq, startsWith_append] at hdecimal
    cases hdecimal
  have hlist : ∀ r, startsWith (lit "DECIMAL(" ++ r) (lit "LIST<") = false := fun _ => rfl
  have harray : ∀ r, startsWith (lit "DECIMAL(" ++ r) (lit "ARRAY<") = false := fun _ => rfl
  have hmap : ∀ r, startsWith (lit "DECIMAL(" ++ r) (lit "MAP<") = false := fun _ => rfl
  have hstruct : ∀ r, startsWith (lit "DECIMAL(" ++ r) (lit "STRUCT(") = false := fun _ => rfl
  have hunion : ∀ r, startsWith (lit "DECIMAL(" ++ r) (lit "UNION(") = false := fun _ => rfl
  rw [parseLogicalType, if_neg (Nat.not_lt.mpr h.length_le)]
  simp only [h.normalize, if_neg h.ne_nil, hupper, hlist, harray, hmap, hstruct, hunion,
    Bool.false_eq_true, if_false]
  simp only [parseSimpleLogicalType, hupper, htrim, hlookup, startsWith_append, if_true]
  exact parseDecimal_eq hw hn hrange hmade

end Levels

/-! ## The parser reads every rendering -/

/-- The segments that the commas of a text part. -/
structure Segments (s : Bytes) (fields : List Bytes) : Prop where
  ne_nil : fields ≠ []
  split : splitSegments 0 0 s = (fields.headD [], fields.tail)
  tight : ∀ field ∈ fields, field ≠ [] ∧ Tight field

theorem segments_one {s : Bytes} (hs : Solid s) (hne : s ≠ []) (ht : Tight s) : Segments s [s] := by
  refine ⟨by simp, ?_, by simpa using ⟨hne, ht⟩⟩
  have h := hs 0 0 [] le_rfl le_rfl
  rwa [List.append_nil, splitSegments, List.append_nil] at h

theorem segments_cons {s t : Bytes} {fields : List Bytes} (hs : Solid s) (hne : s ≠ []) (ht : Tight s)
    (h : Segments t fields) : Segments (s ++ 0x2C :: t) (s :: fields) := by
  refine ⟨by simp, ?_, List.forall_mem_cons.mpr ⟨⟨hne, ht⟩, h.tight⟩⟩
  rw [hs 0 0 _ le_rfl le_rfl, splitSegments_comma, h.split, List.append_nil]
  cases fields with
  | nil => exact absurd rfl h.ne_nil
  | cons field fields => rfl

theorem Segments.splitTopLevelCommas {s : Bytes} {fields : List Bytes} (h : Segments s fields) :
    splitTopLevelCommas s = fields := by
  have hall : (splitSegments 0 0 s).1 :: (splitSegments 0 0 s).2 = fields := by
    rw [h.split]
    cases fields with
    | nil => exact absurd rfl h.ne_nil
    | cons field fields => rfl
  have hlast : fields.getLast? ≠ some [] :=
    fun hlast => (h.tight [] (List.mem_of_getLast? hlast)).1 rfl
  have htrim : fields.map trim = fields :=
    (List.map_congr_left fun field hfield => trim_of_tight (h.tight field hfield).2).trans (List.map_id _)
  rw [ParamDecoder.splitTopLevelCommas]
  simp only [hall, if_neg hlast, htrim]

/-- **The parser reads every rendering of a type back** that DuckDB has, to the depth and the length it
allows. -/
theorem parseLogicalType_of_renders {types : DuckTypes} (t : LogicalType) : Makes types t →
    ∀ {levels s}, Renders t s → nesting t ≤ levels → s.length ≤ kMaxTypeStringLength →
      parseLogicalType types (levels + 1) s = .ok t := by
  -- on the type, together with the fields of a STRUCT; a nested type leaves one level for its parts
  induction t using LogicalType.induction
    (Q := fun fs => MakesFields types fs → ∀ levels s, RendersFields fs s → fieldsNesting fs ≤ levels →
      s.length ≤ kMaxTypeStringLength → ∃ fields, Segments s fields ∧
        parseFields (parseLogicalType types (levels + 1)) fields = .ok fs) with
  | scalar id =>
      intro _ levels s h _ hlen
      have htext := typeText_of_renders _ h
      cases h with
      | scalar h => exact parse_scalar h ⟨htext, hlen⟩
  | decimal w n =>
      intro hmade levels s h _ hlen
      have htext := typeText_of_renders _ h
      cases h with
      | decimal hk hw hn hrange => exact parse_decimal hk hw hn hrange hmade ⟨htext, hlen⟩
  | list c ih =>
      intro hmade levels s h hnest hlen
      have htext := typeText_of_renders _ h
      cases h with
      | list hk h =>
          obtain ⟨levels, rfl⟩ : ∃ l, levels = l + 1 := ⟨levels - 1, by simp only [nesting] at hnest; omega⟩
          refine parse_list hk ⟨htext, hlen⟩ (typeText_of_renders _ h).toPasses (ih hmade h ?_ ?_)
          · simpa [nesting] using hnest
          · simp at hlen
            omega
  | array c n ih =>
      intro hmade levels s h hnest hlen
      have htext := typeText_of_renders _ h
      cases h with
      | array hk h hn hrange =>
          obtain ⟨levels, rfl⟩ : ∃ l, levels = l + 1 := ⟨levels - 1, by simp only [nesting] at hnest; omega⟩
          refine parse_array hk ⟨htext, hlen⟩ (typeText_of_renders _ h) hn hrange hmade.2
            (ih hmade.1 h ?_ ?_)
          · simpa [nesting] using hnest
          · simp at hlen
            omega
  | map key value ihkey ihvalue =>
      intro hmade levels s h hnest hlen
      have htext := typeText_of_renders _ h
      cases h with
      | map hk hkey hvalue =>
          obtain ⟨levels, rfl⟩ : ∃ l, levels = l + 1 := ⟨levels - 1, by simp only [nesting] at hnest; omega⟩
          simp only [nesting] at hnest
          simp at hlen
          exact parse_map hk ⟨htext, by simpa using hlen⟩ (typeText_of_renders _ hkey)
            (typeText_of_renders _ hvalue) (ihkey hmade.1 hkey (by omega) (by omega))
            (ihvalue hmade.2 hvalue (by omega) (by omega))
  | struct fs ih =>
      intro hmade levels s h hnest hlen
      have htext := typeText_of_renders _ h
      cases h with
      | struct hk h =>
          obtain ⟨levels, rfl⟩ : ∃ l, levels = l + 1 := ⟨levels - 1, by simp only [nesting] at hnest; omega⟩
          simp only [nesting] at hnest
          obtain ⟨fields, hfields, hparse⟩ := ih hmade levels _ h (by omega) (by simp at hlen; omega)
          rw [← hfields.splitTopLevelCommas] at hparse
          refine parse_struct hk ⟨htext, hlen⟩ ?_ ?_ hparse
          · exact passes_of_fields (fun f _ s => typeText_of_renders f.2) h
          · rw [hfields.splitTopLevelCommas]
            exact hfields.ne_nil
  | union ms ih =>
      intro _ levels s h
      cases h
  | enum ls =>
      intro _ levels s h
      cases h
  | other n =>
      intro _ levels s h
      cases h
  | nil _ levels s h => cases h
  | cons n t fs iht ihfs hmade levels s h hnest hlen =>
      simp only [fieldsNesting] at hnest
      cases h with
      | last hn h =>
          have htext := typeText_of_renders t h
          have hfield := passes_field hn htext
          refine ⟨_, segments_one hfield.2 (by simp) hfield.1.tight, ?_⟩
          exact parseFields_cons hn htext.tight (iht hmade.1 h (by omega) (by simp at hlen; omega)) rfl
      | more hn h hs =>
          have htext := typeText_of_renders t h
          have hfield := passes_field hn htext
          simp at hlen
          obtain ⟨fields, hfields, hparse⟩ := ihfs hmade.2 levels _ hs (by omega) (by omega)
          refine ⟨_, segments_cons hfield.2 (by simp) hfield.1.tight hfields, ?_⟩
          exact parseFields_cons hn htext.tight (iht hmade.1 h (by omega) (by omega)) hparse

/-- What `ParseLogicalType` reads at the top. -/
theorem parseType_of_renders {types : DuckTypes} {t : LogicalType} {s : Bytes} (h : Renders t s)
    (hmade : Makes types t) (hnest : nesting t ≤ kMaxTypeNesting) (hlen : s.length ≤ kMaxTypeStringLength) :
    parseType types s = .ok t :=
  parseLogicalType_of_renders t hmade h hnest hlen

end Harbor.ParamDecoder
