import Harbor.Lib.JsonText

set_option autoImplicit false

/-! # Words in quotes

Where a word stands in quotes in a JSON text. A search for `"word"` in the text does not only find the
strings that are the word: it also finds the end of a string where an escaped quote comes before the word,
and it finds neither of them when a letter is escaped.
-/

namespace Harbor.Json

open Bytes

/-! ## String literals -/

mutual

/-- The string literals of a text, names and values at any depth. -/
def Source.literals : Source → List (List Piece)
  | .null => []
  | .bool _ => []
  | .num _ => []
  | .str ps => [ps]
  | .arr _ xs => Source.itemsLiterals xs
  | .obj _ ms => Source.membersLiterals ms
termination_by structural x => x

def Source.itemsLiterals : List (Item Source) → List (List Piece)
  | [] => []
  | x :: xs => Source.itemLiterals x ++ Source.itemsLiterals xs
termination_by structural xs => xs

def Source.itemLiterals : Item Source → List (List Piece)
  | ⟨_, value, _⟩ => value.literals
termination_by structural x => x

def Source.membersLiterals : List (Member Source) → List (List Piece)
  | [] => []
  | m :: ms => Source.memberLiterals m ++ Source.membersLiterals ms
termination_by structural ms => ms

def Source.memberLiterals : Member Source → List (List Piece)
  | ⟨_, key, _, _, value, _⟩ => key :: value.literals
termination_by structural m => m

end

/-- The plain spelling of a word. -/
def wordPieces (w : Bytes) : List Piece := w.map fun b => .char (Char.ofNat b.toNat)

/-- A literal that has the word before its closing quote, behind its opening one or an escaped one. -/
def EndsQuoted (w : Bytes) (ps : List Piece) : Prop :=
  ps = wordPieces w ∨ .short 0x22 :: wordPieces w <:+ ps

instance (w : Bytes) (ps : List Piece) : Decidable (EndsQuoted w ps) :=
  inferInstanceAs (Decidable (_ ∨ _))

def Source.Mentions (x : Source) (w : Bytes) : Prop := ∃ ps ∈ x.literals, EndsQuoted w ps

instance (x : Source) (w : Bytes) : Decidable (x.Mentions w) :=
  inferInstanceAs (Decidable (∃ ps ∈ x.literals, _))

/-! ## The search inside a literal -/

/-- A word: letters, at least one. -/
def IsWord (w : Bytes) : Prop := w ≠ [] ∧ ∀ b ∈ w, isAlpha b = true

instance (w : Bytes) : Decidable (IsWord w) := inferInstanceAs (Decidable (_ ∧ _))

/-- The text does not start with a letter. -/
def NoLetter (t : Bytes) : Prop := ∀ b ∈ t.head?, isAlpha b = false

theorem noLetter_cons {b : UInt8} (hb : isAlpha b = false) (t : Bytes) : NoLetter (b :: t) := by
  simpa [NoLetter] using hb

theorem IsBlank.noLetter {u t : Bytes} (hu : IsBlank u) (ht : NoLetter t) : NoLetter (u ++ t) := by
  cases u with
  | nil => exact ht
  | cons b u =>
      have hb := hu b (by simp)
      exact noLetter_cons (by grind [isWs, isAlpha]) _

theorem isAlpha_lt (b : UInt8) : isAlpha b = true → b < 0x80 ∧ b ≠ 0x22 ∧ b ≠ 0x5C :=
  forall_byte (P := fun b => isAlpha b = true → b < 0x80 ∧ b ≠ 0x22 ∧ b ≠ 0x5C) (by decide +kernel) b

/-- An ASCII byte is at the start of the encoding of its own character only. -/
theorem prefix_utf8EncodeChar {a : UInt8} (ha : a < 0x80) (c : Char) (x y : Bytes) :
    a :: x <+: String.utf8EncodeChar c ++ y ↔ c = Char.ofNat a.toNat ∧ x <+: y := by
  constructor
  · intro h
    by_cases hc : c.val.toNat ≤ 0x7F
    · rw [String.utf8EncodeChar, if_pos hc, List.singleton_append, List.cons_prefix_cons] at h
      refine ⟨?_, h.2⟩
      rw [h.1, UInt8.toNat_ofNat', Nat.mod_eq_of_lt (by omega)]
      exact (Char.ofNat_toNat c).symm
    · exfalso
      obtain ⟨b, t, hbt, -⟩ := utf8EncodeChar_shape c
      rw [hbt, List.cons_append, List.cons_prefix_cons] at h
      have hhigh : 0x80 ≤ b := le_of_mem_utf8EncodeChar (c := c) (by omega) (by simp [hbt])
      rw [h.1] at ha
      exact absurd ha (UInt8.not_lt.mpr hhigh)
  · rintro ⟨rfl, h⟩
    rw [utf8EncodeChar_ascii ha, List.singleton_append, List.cons_prefix_cons]
    exact ⟨rfl, h⟩

/-- A character starts with a quote only when it is escaped. -/
theorem Piece.Ok.text_head {p : Piece} (hp : p.Ok) : ∃ b s, p.text = b :: s ∧ b ≠ 0x22 := by
  cases p with
  | char c =>
      obtain ⟨b, t, hbt, -⟩ := utf8EncodeChar_shape c
      exact ⟨b, t, hbt, (plain_of_mem_chars hp (by simp [hbt])).2.1⟩
  | short b => exact ⟨0x5C, [b], rfl, by decide⟩
  | unicode a b c d => exact ⟨0x5C, _, rfl, by decide⟩

/-- The word and the closing quote are all of the literal. -/
theorem word_prefix_iff {w : Bytes} (hw : ∀ b ∈ w, isAlpha b = true) {ps : List Piece}
    (hps : ∀ p ∈ ps, p.Ok) (t : Bytes) :
    w ++ [0x22] <+: spell ps ++ 0x22 :: t ↔ ps = wordPieces w := by
  induction w generalizing ps with
  | nil =>
      cases ps with
      | nil => simp [wordPieces]
      | cons p ps =>
          obtain ⟨b, s, htext, hb⟩ := (hps p (by simp)).text_head
          rw [spell_cons, htext, List.nil_append, List.cons_append, List.cons_append,
            List.cons_prefix_cons]
          simp [wordPieces, hb.symm]
  | cons a w ih =>
      obtain ⟨ha, hquote, hslash⟩ := isAlpha_lt a (hw a (by simp))
      cases ps with
      | nil => simp [wordPieces, hquote]
      | cons p ps =>
          have htail := @ih (fun b hb => hw b (by simp [hb])) ps fun q hq => hps q (by simp [hq])
          rw [spell_cons, List.cons_append, List.append_assoc, wordPieces, List.map_cons,
            List.cons.injEq, ← wordPieces, ← htail]
          cases p with
          | char c => rw [Piece.text, prefix_utf8EncodeChar ha, Piece.char.injEq]
          -- a letter of the word is spelled plainly, and an escape starts with a backslash
          | short b =>
              rw [Piece.text, List.cons_append, List.cons_prefix_cons]
              simp [hslash]
          | unicode b c d e =>
              rw [Piece.text, List.cons_append, List.cons_prefix_cons]
              simp [hslash]

section Search

variable {w : Bytes}

/-- The search passes over a text without quotes. -/
theorem search_append {u : Bytes} (hu : ∀ b ∈ u, b ≠ 0x22) (t : Bytes) :
    0x22 :: w ++ [0x22] <:+: u ++ t ↔ 0x22 :: w ++ [0x22] <:+: t := by
  induction u with
  | nil => rfl
  | cons b u ih =>
      have hb : (0x22 : UInt8) ≠ b := (hu b (by simp)).symm
      rw [List.cons_append, List.cons_append, List.infix_cons_iff, List.cons_prefix_cons,
        ← List.cons_append, ih fun c hc => hu c (by simp [hc])]
      simp [hb]

/-- The search behind the opening quote of a literal. -/
theorem search_spell (hw : IsWord w) {ps : List Piece} (hps : ∀ p ∈ ps, p.Ok) {t : Bytes}
    (ht : NoLetter t) : 0x22 :: w ++ [0x22] <:+: spell ps ++ 0x22 :: t ↔
      .short 0x22 :: wordPieces w <:+ ps ∨ 0x22 :: w ++ [0x22] <:+: t := by
  -- on the pieces: the quoted word starts at an escaped quote among them, or behind them
  induction ps with
  | nil =>
      have hno : ¬ w ++ [0x22] <+: t := by
        obtain ⟨b, v, rfl⟩ := List.exists_cons_of_ne_nil hw.1
        rintro ⟨s, rfl⟩
        have hb := ht b rfl
        rw [hw.2 b (by simp)] at hb
        cases hb
      rw [spell_nil, List.nil_append, List.cons_append, List.infix_cons_iff, List.cons_prefix_cons]
      simp [hno]
  | cons p ps ih =>
      have hp := hps p (by simp)
      have htail := ih fun q hq => hps q (by simp [hq])
      rw [spell_cons, List.append_assoc, List.suffix_cons_iff, List.cons.injEq, or_assoc, ← htail]
      cases p with
      | char c =>
          rw [Piece.text, search_append fun b hb => (plain_of_mem_chars hp hb).2.1]
          simp
      | unicode a b c d =>
          have hplain : ∀ x ∈ (Piece.unicode a b c d).text, x ≠ 0x22 := by
            intro x hx
            simp only [Piece.text, List.mem_cons] at hx
            rcases hx with rfl | rfl | hx
            · decide
            · decide
            · exact (hexUnit_plain hp x (by simpa using hx)).1
          rw [search_append hplain]
          simp
      | short b =>
          have hword := @word_prefix_iff w hw.2 ps (fun q hq => hps q (by simp [hq])) t
          have hslash : ¬ (0x22 : UInt8) = 0x5C := by decide
          have hshape : (Piece.short b).text ++ (spell ps ++ 0x22 :: t) =
              0x5C :: b :: (spell ps ++ 0x22 :: t) := rfl
          rw [hshape, List.cons_append, List.infix_cons_iff, List.cons_prefix_cons, List.infix_cons_iff,
            List.cons_prefix_cons, hword, Piece.short.injEq, eq_comm (a := ps)]
          simp only [hslash, false_and, false_or]

/-- The text contains the word in quotes if `L`, wherever it stands. -/
def Says (w s : Bytes) (L : Prop) : Prop := ∀ t, NoLetter t →
  (0x22 :: w ++ [0x22] <:+: s ++ t ↔ L ∨ 0x22 :: w ++ [0x22] <:+: t)

theorem says_quoted (hw : IsWord w) {ps : List Piece} (hps : ∀ p ∈ ps, p.Ok) :
    Says w (quoted ps) (EndsQuoted w ps) := by
  intro t ht
  have hword := word_prefix_iff hw.2 hps t
  have hshape : quoted ps ++ t = 0x22 :: (spell ps ++ 0x22 :: t) := by simp [quoted]
  rw [hshape, EndsQuoted, or_assoc, ← search_spell hw hps ht, List.cons_append, List.infix_cons_iff,
    List.cons_prefix_cons, hword]
  simp

theorem says_plain {u : Bytes} (hu : ∀ b ∈ u, b ≠ 0x22) : Says w u False := by
  intro t _
  rw [search_append hu, false_or]

theorem Says.append_left {u s : Bytes} {L : Prop} (hu : ∀ b ∈ u, b ≠ 0x22) (hs : Says w s L) :
    Says w (u ++ s) L := by
  intro t ht
  rw [List.append_assoc, search_append hu, hs t ht]

theorem Says.append {s s' : Bytes} {L L' : Prop} (hs : Says w s L) (hs' : Says w s' L')
    (hhead : ∀ t, NoLetter t → NoLetter (s' ++ t)) : Says w (s ++ s') (L ∨ L') := by
  intro t ht
  rw [List.append_assoc, hs _ (hhead t ht), hs' t ht, or_assoc]

theorem IsBlank.quoteless {u : Bytes} (hu : IsBlank u) : ∀ b ∈ u, b ≠ 0x22 := by
  rintro b hb rfl
  exact absurd (hu _ hb) (by decide)

/-- A value between white space. -/
theorem Says.surround {u s v : Bytes} {L : Prop} (hu : ∀ b ∈ u, b ≠ 0x22) (hs : Says w s L)
    (hv : ∀ b ∈ v, b ≠ 0x22) (hhead : ∀ t, NoLetter t → NoLetter (v ++ t)) : Says w (u ++ s ++ v) L := by
  have h := (hs.append_left hu).append (says_plain hv) hhead
  rwa [or_false] at h

theorem says_intercalate {α : Type} {text : α → Bytes} {L : α → Prop} {xs : List α}
    (h : ∀ x ∈ xs, Says w (text x) (L x)) :
    Says w ([0x2C].intercalate (xs.map text)) (∃ x ∈ xs, L x) := by
  induction xs with
  | nil => simpa using says_plain (w := w) (u := []) (by simp)
  | cons x xs ih =>
      have hx := h x (by simp)
      have hrest := ih fun y hy => h y (by simp [hy])
      cases xs with
      | nil => simpa using hx
      | cons y ys =>
          have hcomma := hrest.append_left (u := [0x2C]) (by decide)
          have hall := hx.append hcomma fun t _ => noLetter_cons (b := 0x2C) (by decide) _
          rw [List.map_cons, List.map_cons, List.intercalate_cons_cons, List.append_assoc,
            ← List.map_cons]
          simpa using hall

/-- Between brackets. -/
theorem Says.container {o c : UInt8} (ho : o ≠ 0x22) (hc : c ≠ 0x22) (hletter : isAlpha c = false)
    {u s : Bytes} {L : Prop} (hu : IsBlank u) (hs : Says w s L) : Says w (o :: u ++ s ++ [c]) L := by
  have hopen : ∀ b ∈ o :: u, b ≠ 0x22 := List.forall_mem_cons.mpr ⟨ho, hu.quoteless⟩
  exact Says.surround hopen hs (by simpa using hc) fun t _ => noLetter_cons hletter t

theorem Source.mentions_arr (blank : Bytes) (xs : List (Item Source)) :
    (Source.arr blank xs).Mentions w ↔ ∃ x ∈ xs, x.value.Mentions w := by
  have hall : Source.itemsLiterals xs = xs.flatMap fun x => x.value.literals := by
    induction xs with
    | nil => rfl
    | cons x xs ih => rw [Source.itemsLiterals, List.flatMap_cons, ih, Source.itemLiterals]
  rw [Source.Mentions, Source.literals, hall]
  simp only [List.mem_flatMap, Source.Mentions]
  grind

theorem Source.mentions_obj (blank : Bytes) (ms : List (Member Source)) :
    (Source.obj blank ms).Mentions w ↔ ∃ m ∈ ms, EndsQuoted w m.key ∨ m.value.Mentions w := by
  have hall : Source.membersLiterals ms = ms.flatMap fun m => m.key :: m.value.literals := by
    induction ms with
    | nil => rfl
    | cons m ms ih => rw [Source.membersLiterals, List.flatMap_cons, ih, Source.memberLiterals]
  rw [Source.Mentions, Source.literals, hall]
  simp only [List.mem_flatMap, List.mem_cons, Source.Mentions]
  grind

theorem says_member (hw : IsWord w) {m : Member Source} (hm : m.Ok)
    (hvalue : Says w m.value.text (m.value.Mentions w)) :
    Says w (Source.memberText m) (EndsQuoted w m.key ∨ m.value.Mentions w) := by
  have hcolon : ∀ b ∈ m.beforeColon ++ 0x3A :: m.afterColon, b ≠ 0x22 := by
    intro b hb
    rcases List.mem_append.mp hb with hb | hb
    · exact hm.beforeColon.quoteless b hb
    · rcases List.mem_cons.mp hb with rfl | hb
      · decide
      · exact hm.afterColon.quoteless b hb
  have hright := Says.surround hcolon hvalue hm.after.quoteless fun t ht => hm.after.noLetter ht
  have hkey := (says_quoted hw hm.key).append_left hm.before.quoteless
  have hall := hkey.append hright fun t _ => by
    rw [List.append_assoc, List.append_assoc, List.append_assoc]
    exact hm.beforeColon.noLetter (noLetter_cons (by decide) _)
  rw [Source.memberText_eq]
  simpa using hall

/-- **The word is found in quotes exactly if a literal ends with it.** -/
theorem says_source (hw : IsWord w) {x : Source} (hx : x.Ok) : Says w x.text (x.Mentions w) := by
  have hnone : ∀ {u : Bytes} {y : Source}, y.literals = [] → (∀ b ∈ u, b ≠ 0x22) →
      Says w u (y.Mentions w) := by
    intro u y hy hu
    simpa [Source.Mentions, hy] using says_plain (w := w) hu
  induction hx with
  | null => exact hnone rfl (by decide)
  | bool b => exact hnone rfl (by cases b <;> decide)
  | num hl =>
      refine hnone rfl fun b hb => ?_
      rintro rfl
      exact absurd (hl.isNumberByte _ hb) (by decide)
  | str hps => simpa [Source.Mentions, Source.literals, Source.text] using says_quoted hw hps
  | @arr blank xs hblank hxs _ ih =>
      have hitems : ∀ x ∈ xs, Says w (Source.itemText x) (x.value.Mentions w) := by
        intro x hx
        rw [Source.itemText_eq]
        exact Says.surround (hxs x hx).1.quoteless (ih x hx) (hxs x hx).2.quoteless
          fun t ht => (hxs x hx).2.noLetter ht
      rw [Source.text, Source.itemTexts_eq, Source.mentions_arr]
      exact Says.container (by decide) (by decide) (by decide) hblank (says_intercalate hitems)
  | @obj blank ms hblank hms _ ih =>
      have hmembers : ∀ m ∈ ms, Says w (Source.memberText m)
          (EndsQuoted w m.key ∨ m.value.Mentions w) :=
        fun m hm => says_member hw (hms m hm) (ih m hm)
      rw [Source.text, Source.memberTexts_eq, Source.mentions_obj]
      exact Says.container (by decide) (by decide) (by decide) hblank (says_intercalate hmembers)

/-- The search of a whole text. -/
theorem contains_text_iff (hw : IsWord w) {x : Source} (hx : x.Ok) :
    contains x.text (0x22 :: w ++ [0x22]) = true ↔ x.Mentions w := by
  have h := says_source hw hx [] (by simp [NoLetter])
  rw [contains_iff]
  simpa using h

end Search

end Harbor.Json
