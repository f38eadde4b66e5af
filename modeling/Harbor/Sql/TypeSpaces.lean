import Harbor.Sql.TypeText

set_option autoImplicit false

/-! # Type strings with white space

White space may stand at both ends of a type string and next to its brackets and commas, and what is
between two words may be any run of it. The parser drops all of this before it looks at anything, so it
reads every such text (`parseType_of_spaced`).
-/

namespace Harbor.ParamDecoder

open Bytes

/-- White space, for `std::isspace`. -/
def IsSpaces (w : Bytes) : Prop := ∀ b ∈ w, isSpace b = true

instance (w : Bytes) : Decidable (IsSpaces w) := inferInstanceAs (Decidable (∀ b ∈ w, _))

/-- The second text is the first one with more white space, where the grammar allows it; `last` is the
byte before them. -/
inductive Spaced : Option UInt8 → Bytes → Bytes → Prop where
  /-- At the end. -/
  | nil {last : Option UInt8} {w : Bytes} (hw : IsSpaces w) : Spaced last [] w
  /-- At the start, and before and behind a bracket or a comma. -/
  | byte {last : Option UInt8} {w s s' : Bytes} {b : UInt8} (hw : IsSpaces w)
      (hplace : w = [] ∨ last.all isSpecial = true ∨ isSpecial b = true) (hb : isSpace b = false)
      (h : Spaced (some b) s s') : Spaced last (b :: s) (w ++ b :: s')
  /-- Between two words. -/
  | blank {last : Option UInt8} {w s s' : Bytes} (hw : IsSpaces w) (hne : w ≠ [])
      (h : Spaced (some 0x20) s s') : Spaced last (0x20 :: s) (w ++ s')

theorem normalizeFrom_spaces (last : Option UInt8) {w : Bytes} (hw : IsSpaces w) :
    normalizeFrom last w = [] := by
  induction w with
  | nil => rfl
  | cons b w ih =>
      have hrest := ih fun c hc => hw c (by simp [hc])
      rw [normalizeFrom.eq_def]
      cases w with
      | nil => simp [hw b (by simp)]
      | cons c w => simp [hw b (by simp), hw c (by simp), hrest]

/-- A run of white space before another byte. -/
theorem normalizeFrom_run (last : Option UInt8) {w : Bytes} (hw : IsSpaces w) (hne : w ≠ []) {b : UInt8}
    (hb : isSpace b = false) (s : Bytes) : normalizeFrom last (w ++ b :: s) =
      if last.all isSpecial || isSpecial b then normalizeFrom last (b :: s)
      else 0x20 :: normalizeFrom (some 0x20) (b :: s) := by
  induction w with
  | nil => exact absurd rfl hne
  | cons c w ih =>
      have hc : isSpace c = true := hw c (by simp)
      rw [List.cons_append, normalizeFrom.eq_def]
      cases w with
      | nil => simp [hc, hb]
      | cons d w =>
          have hd : isSpace d = true := hw d (by simp)
          have hrest := ih (fun x hx => hw x (by simp [hx])) (by simp)
          simpa [hc, hd] using hrest

theorem normalizeFrom_cons (last : Option UInt8) {b : UInt8} (hb : isSpace b = false) (s : Bytes) :
    normalizeFrom last (b :: s) = b :: normalizeFrom (some b) s := by
  rw [normalizeFrom.eq_def]
  simp [hb]

/-- **What was added is dropped again.** -/
theorem normalizeFrom_of_spaced {last : Option UInt8} {s s' : Bytes} (h : Spaced last s s')
    (hs : tightFrom last s = true) : normalizeFrom last s' = s := by
  induction h with
  | nil hw => exact normalizeFrom_spaces _ hw
  | @byte last w s s' b hw hplace hb h ih =>
      rw [tightFrom, Bool.and_eq_true] at hs
      by_cases hne : w = []
      · rw [hne, List.nil_append, normalizeFrom_cons last hb, ih hs.2]
      · have hdrop : (last.all isSpecial || isSpecial b) = true := by simpa [hne] using hplace
        rw [normalizeFrom_run last hw hne hb, if_pos hdrop, normalizeFrom_cons last hb, ih hs.2]
  | @blank last w s s' hw hne h ih =>
      simp only [tightFrom, Bool.and_eq_true, Bool.or_eq_true] at hs
      obtain ⟨hblank, hrest⟩ := hs
      have hwords : last.any isWordByte = true ∧ s.head?.any isWordByte = true := by
        simpa [show isSpace 0x20 = true from rfl] using hblank
      cases h with
      | nil hw' => simp at hwords
      | @byte _ w' s s' b hw' hplace hb h =>
          have hb' : isSpecial b = false := by
            simpa [isWordByte, hb] using hwords.2
          obtain ⟨a, rfl⟩ : ∃ a, last = some a := by
            cases last with
            | none => simp at hwords
            | some a => exact ⟨a, rfl⟩
          have ha : isSpecial a = false := by
            have hword : isWordByte a = true := hwords.1
            simp only [isWordByte, Bool.and_eq_true, Bool.not_eq_true'] at hword
            exact hword.2
          obtain rfl : w' = [] := by simpa [hb', show isSpecial 0x20 = false from rfl] using hplace
          have hread := ih hrest
          rw [List.nil_append] at hread ⊢
          rw [normalizeFrom_run _ hw hne hb, if_neg (by simp [ha, hb']), hread]
      | blank hw' hne' h => simp [isWordByte, isSpace] at hwords

theorem Spaced.length_le {last : Option UInt8} {s s' : Bytes} (h : Spaced last s s') :
    s.length ≤ s'.length := by
  induction h with
  | nil hw => exact Nat.zero_le _
  | byte hw hplace hb h ih =>
      rw [List.length_append, List.length_cons, List.length_cons]
      omega
  | blank hw hne h ih =>
      have hpos := List.length_pos_iff.mpr hne
      rw [List.length_append, List.length_cons]
      omega

/-- The parser only looks at the normalised text. -/
theorem parseLogicalType_normalize {types : DuckTypes} {levels : Nat} {s s' : Bytes}
    (h : normalize s' = normalize s)
    (hlen : s.length ≤ kMaxTypeStringLength) (hlen' : s'.length ≤ kMaxTypeStringLength) :
    parseLogicalType types levels s' = parseLogicalType types levels s := by
  cases levels with
  | zero => rfl
  | succ levels =>
      rw [parseLogicalType, parseLogicalType, if_neg (Nat.not_lt.mpr hlen),
        if_neg (Nat.not_lt.mpr hlen'), h]

/-- **The parser is complete.** Every text of a type in the grammar, with any case of the keywords and any
white space where it may stand, is read as that type, if DuckDB has it, within the limits for its nesting and
its length. -/
theorem parseType_of_spaced {types : DuckTypes} {t : LogicalType} {s s' : Bytes} (h : Renders t s)
    (hmade : Makes types t) (hspaced : Spaced none s s') (hnest : nesting t ≤ kMaxTypeNesting)
    (hlen : s'.length ≤ kMaxTypeStringLength) : parseType types s' = .ok t := by
  have htight : Tight s := (typeText_of_renders t h).tight
  have hshort : s.length ≤ kMaxTypeStringLength := Nat.le_trans hspaced.length_le hlen
  have hnormal : normalize s' = normalize s := by
    rw [normalize, normalize, normalizeFrom_of_spaced hspaced htight, normalizeFrom_of_tight htight]
  rw [parseType, parseLogicalType_normalize hnormal hshort hlen]
  exact parseType_of_renders h hmade hnest hshort

/-- A word stays as it is. -/
theorem Spaced.word {n : Bytes} (hn : ∀ b ∈ n, isSpace b = false) {last : Option UInt8} {s s' : Bytes}
    (h : Spaced (n.getLast?.or last) s s') : Spaced last (n ++ s) (n ++ s') := by
  induction n generalizing last with
  | nil => exact h
  | cons b n ih =>
      have hrest : Spaced (some b) (n ++ s) (n ++ s') := by
        refine ih (fun c hc => hn c (by simp [hc])) ?_
        rw [List.getLast?_cons] at h
        cases hlast : n.getLast? <;> simpa [hlast] using h
      exact .byte (w := []) (by decide) (Or.inl rfl) (hn b (by simp)) hrest

theorem parseType_of_spaced_array :
    parseType .documented (lit "Array <\tdate ,3>") = .ok (.array (.scalar .date) 3) := by
  have h : Renders (.array (.scalar .date) 3)
      (lit "Array" ++ 0x3C :: (lit "date" ++ 0x2C :: lit "3") ++ [0x3E]) :=
    .array rfl (.scalar (by decide)) ⟨by decide, by decide, rfl⟩ (by decide)
  have hspaced : Spaced none (lit "Array" ++ 0x3C :: (lit "date" ++ 0x2C :: (lit "3" ++ [0x3E])))
      (lit "Array" ++ ([0x20] ++ 0x3C :: ([0x09] ++ 0x64 :: (lit "ate" ++ ([0x20] ++ 0x2C :: lit "3>"))))) := by
    refine .word (by decide) (.byte (by decide) (by decide) (by decide) ?_)
    refine .byte (by decide) (by decide) (by decide) (.word (by decide) ?_)
    refine .byte (by decide) (by decide) (by decide) (@Spaced.word (lit "3") (by decide) _ [0x3E] [0x3E] ?_)
    exact .byte (w := []) (by decide) (by decide) (by decide) (.nil (w := []) (by decide))
  exact parseType_of_spaced h ⟨trivial, rfl⟩ hspaced (by decide) (by decide)

end Harbor.ParamDecoder
