import Harbor.Lib.Json
import Harbor.Lib.Utf8

set_option autoImplicit false

/-! # JSON texts

The grammar of RFC 8259 as trees that keep what the text is written with: the white space, the spelling
of each string, the literal of each number, the order of members and their duplicates. `Source.text` is
the text of a tree, and the JSON texts are the texts of the trees that are `Ok`.
-/

namespace Harbor.Json

/-! ## Strings -/

/-- A character of a string, as the literal spells it. -/
inductive Piece where
  | char (c : Char)
  | short (b : UInt8)
  | unicode (a b c d : UInt8)
deriving DecidableEq, Repr

namespace Piece

def text : Piece → Bytes
  | char c => String.utf8EncodeChar c
  | short b => [0x5C, b]
  | unicode a b c d => [0x5C, 0x75, a, b, c, d]

/-- `unescaped = %x20-21 / %x23-5B / %x5D-10FFFF`, or one of the escapes. -/
def Ok : Piece → Prop
  | char c => 0x20 ≤ c.val.toNat ∧ c ≠ '"' ∧ c ≠ '\\'
  | short b => (unescape b).isSome
  | unicode a b c d => (hexUnit a b c d).isSome

instance (p : Piece) : Decidable p.Ok := by
  cases p <;> rw [Ok] <;> infer_instance

end Piece

/-- What stands between the quotes. -/
def spell (ps : List Piece) : Bytes := ps.flatMap Piece.text

def quoted (ps : List Piece) : Bytes := 0x22 :: spell ps ++ [0x22]

@[simp] theorem spell_nil : spell [] = [] := rfl

@[simp] theorem spell_cons (p : Piece) (ps : List Piece) : spell (p :: ps) = p.text ++ spell ps := rfl

/-- An escape for one half of a surrogate pair. -/
def Piece.isSurrogate : Piece → Bool
  | unicode a b c d => (hexUnit a b c d).any fun u => 0xD800 ≤ u && u < 0xE000
  | _ => false

/-- The character that a piece stands for on its own, in UTF-8. -/
def Piece.chars : Piece → Bytes
  | char c => String.utf8EncodeChar c
  | short b => [(unescape b).getD 0]
  | unicode a b c d => String.utf8EncodeChar (Char.ofNat ((hexUnit a b c d).getD 0))

/-- The bytes of a character stand in a string as they are. -/
theorem plain_of_mem_chars {c : Char} (hc : (Piece.char c).Ok) {b : UInt8}
    (hb : b ∈ String.utf8EncodeChar c) : 0x20 ≤ b ∧ b ≠ 0x22 ∧ b ≠ 0x5C := by
  obtain ⟨hlow, hquote, hslash⟩ := hc
  by_cases hascii : c.val.toNat ≤ 0x7F
  · rw [String.utf8EncodeChar, if_pos hascii, List.mem_singleton] at hb
    have hval : b.toNat = c.val.toNat := by
      rw [hb, UInt8.toNat_ofNat']
      omega
    have hne : ∀ d : Char, c ≠ d → b.toNat ≠ d.val.toNat := by
      intro d hcd heq
      exact hcd (Char.ext (UInt32.toNat_inj.mp (hval.symm.trans heq)))
    refine ⟨?_, ?_, ?_⟩
    · rw [UInt8.le_iff_toNat_le, hval]
      exact hlow
    · rintro rfl
      exact hne _ hquote rfl
    · rintro rfl
      exact hne _ hslash rfl
  · have hhigh : 0x80 ≤ b := Bytes.le_of_mem_utf8EncodeChar (by omega) hb
    refine ⟨UInt8.le_trans (by decide) hhigh, ?_, ?_⟩
    · rintro rfl
      exact absurd hhigh (by decide)
    · rintro rfl
      exact absurd hhigh (by decide)

theorem hexValue_plain {b : UInt8} (h : (hexValue b).isSome) : b ≠ 0x22 ∧ b ≠ 0x5C := by
  constructor <;> rintro rfl <;> exact absurd h (by decide)

theorem hexUnit_plain {a b c d : UInt8} (h : (hexUnit a b c d).isSome) :
    ∀ x ∈ [a, b, c, d], x ≠ 0x22 ∧ x ≠ 0x5C := by
  obtain ⟨u, hu⟩ := Option.isSome_iff_exists.mp h
  simp only [hexUnit, Option.bind_eq_bind, Option.bind_eq_some_iff] at hu
  obtain ⟨va, ha, vb, hb, vc, hc, vd, hd, -⟩ := hu
  intro x hx
  simp only [List.mem_cons, List.not_mem_nil, or_false] at hx
  refine hexValue_plain ?_
  rcases hx with rfl | rfl | rfl | rfl
  · exact Option.isSome_of_mem ha
  · exact Option.isSome_of_mem hb
  · exact Option.isSome_of_mem hc
  · exact Option.isSome_of_mem hd

/-- Without surrogates a piece stands for a character. -/
theorem Piece.Ok.exists_char {p : Piece} (hp : p.Ok) (hsur : p.isSurrogate = false) :
    ∃ c, p.chars = String.utf8EncodeChar c := by
  cases p with
  | char c => exact ⟨c, rfl⟩
  | unicode a b c d => exact ⟨_, rfl⟩
  | short b =>
      obtain ⟨x, hx⟩ := Option.isSome_iff_exists.mp hp
      have hascii : x < 0x80 := by
        unfold unescape at hx
        split_ifs at hx with hself
        all_goals
          cases hx
          first
          | decide
          | rcases hself with rfl | rfl | rfl <;> decide
      refine ⟨Char.ofNat x.toNat, ?_⟩
      rw [Bytes.utf8EncodeChar_ascii hascii, Piece.chars, hx]
      rfl

theorem readString_plains {t : Bytes} (h : ∀ b ∈ t, 0x20 ≤ b ∧ b ≠ 0x22 ∧ b ≠ 0x5C) (s : Bytes) :
    readString none (t ++ s) = (readString none s).map fun r => (t ++ r.1, r.2) := by
  induction t with
  | nil => simp
  | cons b t ih =>
      obtain ⟨hlow, hquote, hslash⟩ := h b (by simp)
      rw [List.cons_append, readString_plain hlow hquote hslash, ih fun x hx => h x (by simp [hx])]
      cases readString none s <;> rfl

theorem readString_unicode {a b c d : UInt8} {u : Nat} (h : hexUnit a b c d = some u)
    (hu : ¬ (0xD800 ≤ u ∧ u < 0xE000)) (s : Bytes) :
    readString none (0x5C :: 0x75 :: a :: b :: c :: d :: s) =
      (readString none s).map fun r => (String.utf8EncodeChar (Char.ofNat u) ++ r.1, r.2) := by
  have hjoin : joinUnit none u = some (String.utf8EncodeChar (Char.ofNat u), none) := by
    rw [joinUnit, if_neg (by omega), if_neg (by omega)]
  rw [readString.eq_def]
  simp only [if_true, h, hjoin, Option.bind_eq_bind, Option.bind_some]
  cases readString none s <;> rfl

/-- **A literal without surrogates stands for the characters of its pieces.** -/
theorem readString_spell {ps : List Piece} (hps : ∀ p ∈ ps, p.Ok)
    (hsur : ∀ p ∈ ps, p.isSurrogate = false) (rest : Bytes) :
    readString none (spell ps ++ 0x22 :: rest) = some (ps.flatMap Piece.chars, rest) := by
  induction ps with
  | nil => exact readString_quote rest
  | cons p ps ih =>
      have htail := ih (fun q hq => hps q (by simp [hq])) fun q hq => hsur q (by simp [hq])
      have hp := hps p (by simp)
      rw [spell_cons, List.append_assoc, List.flatMap_cons]
      cases p with
      | char c =>
          have hplain := readString_plains (fun b hb => plain_of_mem_chars hp hb)
            (spell ps ++ 0x22 :: rest)
          rw [Piece.text, hplain, htail]
          rfl
      | short b =>
          obtain ⟨x, hx⟩ := Option.isSome_iff_exists.mp hp
          have hshort := readString_escape hx (spell ps ++ 0x22 :: rest)
          rw [htail] at hshort
          rw [Piece.chars, hx]
          exact hshort
      | unicode a b c d =>
          obtain ⟨u, hu⟩ := Option.isSome_iff_exists.mp hp
          have hunit : ¬ (0xD800 ≤ u ∧ u < 0xE000) := by
            simpa [Piece.isSurrogate, hu] using hsur _ (List.mem_cons_self ..)
          have hread := readString_unicode hu hunit (spell ps ++ 0x22 :: rest)
          rw [htail] at hread
          rw [Piece.chars, hu]
          exact hread

/-! ## Values -/

/-- An element of an array, with the white space around it. -/
structure Item (α : Type) where
  before : Bytes
  value : α
  after : Bytes

/-- A member of an object, with the white space around its name and its value. -/
structure Member (α : Type) where
  before : Bytes
  key : List Piece
  beforeColon : Bytes
  afterColon : Bytes
  value : α
  after : Bytes

inductive Source where
  | null
  | bool (b : Bool)
  | num (literal : Bytes)
  | str (ps : List Piece)
  | arr (blank : Bytes) (xs : List (Item Source))
  | obj (blank : Bytes) (ms : List (Member Source))

mutual

def Source.text : Source → Bytes
  | .null => lit "null"
  | .bool b => if b then lit "true" else lit "false"
  | .num l => l
  | .str ps => quoted ps
  | .arr blank xs => 0x5B :: blank ++ [0x2C].intercalate (Source.itemTexts xs) ++ [0x5D]
  | .obj blank ms => 0x7B :: blank ++ [0x2C].intercalate (Source.memberTexts ms) ++ [0x7D]
termination_by structural x => x

def Source.itemTexts : List (Item Source) → List Bytes
  | [] => []
  | x :: xs => Source.itemText x :: Source.itemTexts xs
termination_by structural xs => xs

def Source.itemText : Item Source → Bytes
  | ⟨before, value, after⟩ => before ++ value.text ++ after
termination_by structural x => x

def Source.memberTexts : List (Member Source) → List Bytes
  | [] => []
  | m :: ms => Source.memberText m :: Source.memberTexts ms
termination_by structural ms => ms

def Source.memberText : Member Source → Bytes
  | ⟨before, key, beforeColon, afterColon, value, after⟩ =>
      before ++ quoted key ++ beforeColon ++ 0x3A :: afterColon ++ value.text ++ after
termination_by structural m => m

end

namespace Source

theorem itemTexts_eq (xs : List (Item Source)) : itemTexts xs = xs.map itemText := by
  induction xs with
  | nil => rfl
  | cons x xs ih => rw [itemTexts, List.map_cons, ih]

theorem memberTexts_eq (ms : List (Member Source)) : memberTexts ms = ms.map memberText := by
  induction ms with
  | nil => rfl
  | cons m ms ih => rw [memberTexts, List.map_cons, ih]

theorem itemText_eq (x : Item Source) : itemText x = x.before ++ x.value.text ++ x.after := by
  cases x
  rfl

theorem memberText_eq (m : Member Source) : memberText m =
    m.before ++ quoted m.key ++ m.beforeColon ++ 0x3A :: m.afterColon ++ m.value.text ++ m.after := by
  cases m
  rfl

end Source

/-- White space. -/
def IsBlank (w : Bytes) : Prop := ∀ b ∈ w, isWs b = true

instance (w : Bytes) : Decidable (IsBlank w) := inferInstanceAs (Decidable (∀ b ∈ w, _))

def Item.Ok {α : Type} (x : Item α) : Prop := IsBlank x.before ∧ IsBlank x.after

structure Member.Ok {α : Type} (m : Member α) : Prop where
  before : IsBlank m.before
  key : ∀ p ∈ m.key, p.Ok
  beforeColon : IsBlank m.beforeColon
  afterColon : IsBlank m.afterColon
  after : IsBlank m.after

/-- The tree is one of the grammar. -/
inductive Source.Ok : Source → Prop where
  | null : Ok .null
  | bool (b : Bool) : Ok (.bool b)
  | num {l : Bytes} (hl : IsNumber l) : Ok (.num l)
  | str {ps : List Piece} (hps : ∀ p ∈ ps, p.Ok) : Ok (.str ps)
  | arr {blank : Bytes} {xs : List (Item Source)} (hblank : IsBlank blank) (hxs : ∀ x ∈ xs, x.Ok)
      (hvalues : ∀ x ∈ xs, Ok x.value) : Ok (.arr blank xs)
  | obj {blank : Bytes} {ms : List (Member Source)} (hblank : IsBlank blank) (hms : ∀ m ∈ ms, m.Ok)
      (hvalues : ∀ m ∈ ms, Ok m.value) : Ok (.obj blank ms)

/-- Decided along the text, not over all characters. -/
instance (priority := 2000) decidableForallChar {P : Char → Prop} [DecidablePred P] (s : List Char) :
    Decidable (∀ c ∈ s, P c) :=
  List.decidableBAll P s

/-- A string without escapes. -/
def Source.plain (s : List Char) : Source := .str (s.map Piece.char)

/-- A member without escapes in its name and without white space. -/
def Member.plain (key : List Char) (value : Source) : Member Source :=
  ⟨[], key.map Piece.char, [], [], value, []⟩

theorem Source.plain_ok {s : List Char} (hs : ∀ c ∈ s, (Piece.char c).Ok) : (Source.plain s).Ok := by
  refine Ok.str fun p hp => ?_
  obtain ⟨c, hc, rfl⟩ := List.mem_map.mp hp
  exact hs c hc

theorem Member.plain_ok {key : List Char} (hkey : ∀ c ∈ key, (Piece.char c).Ok) (value : Source) :
    (Member.plain key value).Ok := by
  refine ⟨by simp [IsBlank, plain], fun p hp => ?_, by simp [IsBlank, plain], by simp [IsBlank, plain],
    by simp [IsBlank, plain]⟩
  obtain ⟨c, hc, rfl⟩ := List.mem_map.mp hp
  exact hkey c hc

/-- What may follow a value: a comma, a closing bracket, white space or nothing. -/
def Ended (rest : Bytes) : Prop :=
  ∀ b ∈ rest.head?, b = 0x2C ∨ b = 0x5D ∨ b = 0x7D ∨ isWs b = true

theorem ended_nil : Ended [] := by simp [Ended]

theorem ended_cons {b : UInt8} (h : b = 0x2C ∨ b = 0x5D ∨ b = 0x7D ∨ isWs b = true) (s : Bytes) :
    Ended (b :: s) := by
  simpa [Ended] using h

theorem IsBlank.ended {w rest : Bytes} (hw : IsBlank w) (h : Ended rest) : Ended (w ++ rest) := by
  cases w with
  | nil => exact h
  | cons b w => exact ended_cons (Or.inr (Or.inr (Or.inr (hw b (by simp))))) _

theorem IsBlank.skipWs_append {w : Bytes} (hw : IsBlank w) (s : Bytes) :
    skipWs (w ++ s) = skipWs s :=
  List.dropWhile_append_of_pos hw

/-- What a value starts with is neither white space nor a delimiter. -/
theorem Source.Ok.head {x : Source} (h : x.Ok) :
    ∃ b s, x.text = b :: s ∧ isWs b = false ∧ b ≠ 0x2C ∧ b ≠ 0x5D ∧ b ≠ 0x7D := by
  cases h with
  | null => exact ⟨0x6E, lit "ull", rfl, by decide⟩
  | bool b =>
      cases b with
      | false => exact ⟨0x66, lit "alse", rfl, by decide⟩
      | true => exact ⟨0x74, lit "rue", rfl, by decide⟩
  | num hl =>
      obtain ⟨b, s, rfl, hb⟩ := hl.head
      refine ⟨b, s, rfl, ?_⟩
      rcases hb with rfl | hb
      · decide
      · grind [Bytes.isDigit, isWs]
  | str hps => exact ⟨0x22, _, rfl, by decide⟩
  | arr hblank hxs hvalues => exact ⟨0x5B, _, rfl, by decide⟩
  | obj hblank hms hvalues => exact ⟨0x7B, _, rfl, by decide⟩

end Harbor.Json
