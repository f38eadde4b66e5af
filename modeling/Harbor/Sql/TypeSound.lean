import Harbor.Sql.TypeSpaces

set_option autoImplicit false

/-! # The type strings that are accepted

The parser leaves a trailing comma unread, takes a number from the digits it starts with, narrows the width
and the scale of a DECIMAL to a byte and ignores what stands behind its bracket. A text it accepts is one
of the grammar exactly where none of this happens in it (`parseType_sound_iff`).
-/

namespace Harbor.ParamDecoder

open Bytes

/-! ## The texts that are read to their end -/

/-- What is between the brackets behind a keyword of `n` bytes. -/
def argumentsOf (n : Nat) (s : Bytes) : Bytes := (s.drop (n + 1)).dropLast

def endsInComma (s : Bytes) : Bool := s.getLast? == some 0x2C

/-- What stands behind the name of a field. -/
def fieldType (field : Bytes) : Bytes := (field.dropWhile (· ≠ 0x20)).tail

/-- Width and scale of a DECIMAL, from behind the `(` on: digits in the range of DuckDB's DECIMAL, and the
bracket at the end. -/
def isStrictDecimal (s : Bytes) : Bool :=
  let width := s.takeWhile (· ≠ 0x2C)
  let scale := (s.drop (width.length + 1)).dropLast
  s == width ++ 0x2C :: (scale ++ [0x29]) && width.all isDigit && scale.all isDigit &&
    1 ≤ natOfDigits 0 width && natOfDigits 0 width ≤ 38 && natOfDigits 0 scale ≤ natOfDigits 0 width

/-- No arguments end in a comma, the length of an ARRAY is digits, and a DECIMAL is strict; in a normalised
text, to the depth the parser goes to. -/
def isStrict : (levels : Nat) → Bytes → Bool
  | 0, _ => true
  | levels + 1, s =>
      let keyword := upper s
      if startsWith keyword (lit "LIST<") then isStrict levels (argumentsOf 4 s)
      else if startsWith keyword (lit "ARRAY<") then
        let parts := splitTopLevelCommas (argumentsOf 5 s)
        !endsInComma (argumentsOf 5 s) && (parts.take 1).all (isStrict levels) &&
          (parts.drop 1).all fun length => length.all isDigit
      else if startsWith keyword (lit "MAP<") then
        !endsInComma (argumentsOf 3 s) && (splitTopLevelCommas (argumentsOf 3 s)).all (isStrict levels)
      else if startsWith keyword (lit "STRUCT(") then
        !endsInComma (argumentsOf 6 s) &&
          (splitTopLevelCommas (argumentsOf 6 s)).all fun field => isStrict levels (fieldType field)
      else if startsWith keyword (lit "DECIMAL(") then isStrictDecimal (s.drop 8)
      else true

example : isStrict 3 (lit "STRUCT(a MAP<int,DECIMAL(3,2)>)") = true ∧
    isStrict 3 (lit "STRUCT(a MAP<int,DECIMAL(3,2)>,)") = false := by decide

/-! ## White space -/

/-- White space and the byte behind it, or white space alone. -/
theorem exists_spaces (s : Bytes) : ∃ w r, s = w ++ r ∧ IsSpaces w ∧
    (r = [] ∨ ∃ b r', r = b :: r' ∧ isSpace b = false) := by
  refine ⟨s.takeWhile isSpace, s.dropWhile isSpace, List.takeWhile_append_dropWhile.symm, ?_, ?_⟩
  · intro b hb
    exact List.mem_takeWhile_imp hb
  · cases h : s.dropWhile isSpace with
    | nil => exact Or.inl rfl
    | cons b r =>
        have hb := List.head?_dropWhile_not isSpace s
        rw [h] at hb
        exact Or.inr ⟨b, r, rfl, by simpa using hb⟩

/-- What normalising makes of a text, with the places where it dropped white space. -/
theorem spaced_normalizeFrom (last : Option UInt8) (s : Bytes) : Spaced last (normalizeFrom last s) s := by
  induction hn : s.length using Nat.strong_induction_on generalizing last s with
  | _ n ih =>
      obtain ⟨w, r, rfl, hw, rfl | ⟨b, r, rfl, hb⟩⟩ := exists_spaces s
      · rw [List.append_nil, normalizeFrom_spaces last hw]
        exact .nil hw
      · have hrest : Spaced (some b) (normalizeFrom (some b) r) r := by
          refine ih r.length ?_ (some b) r rfl
          rw [← hn, List.length_append, List.length_cons]
          omega
        by_cases hne : w = []
        · rw [hne, List.nil_append, normalizeFrom_cons last hb]
          exact .byte (w := []) (by decide) (Or.inl rfl) hb hrest
        · rw [normalizeFrom_run last hw hne hb]
          by_cases hplace : (last.all isSpecial || isSpecial b) = true
          · rw [if_pos hplace, normalizeFrom_cons last hb]
            exact .byte hw (Or.inr (Bool.or_eq_true_iff.mp hplace)) hb hrest
          · rw [if_neg hplace, normalizeFrom_cons _ hb]
            exact .blank hw hne (.byte (w := []) (by decide) (Or.inl rfl) hb hrest)

/-- The normal form is tight, where the text does not continue white space. -/
theorem tightFrom_normalizeFrom (last : Option UInt8) (s : Bytes)
    (h : last.all isSpace = true → last = none) : tightFrom last (normalizeFrom last s) = true := by
  induction hn : s.length using Nat.strong_induction_on generalizing last s with
  | _ n ih =>
      obtain ⟨w, r, rfl, hw, rfl | ⟨b, r, rfl, hb⟩⟩ := exists_spaces s
      · rw [List.append_nil, normalizeFrom_spaces last hw]
        rfl
      · have hrest : tightFrom (some b) (normalizeFrom (some b) r) = true := by
          refine ih r.length ?_ (some b) r (fun hspace => ?_) rfl
          · rw [← hn, List.length_append, List.length_cons]
            omega
          · exact absurd hspace (by simp [hb])
        have hbyte : ∀ last', tightFrom last' (normalizeFrom last' (b :: r)) = true := by
          intro last'
          rw [normalizeFrom_cons last' hb, tightFrom, hb, hrest]
          rfl
        by_cases hne : w = []
        · rw [hne, List.nil_append]
          exact hbyte last
        · rw [normalizeFrom_run last hw hne hb]
          by_cases hplace : (last.all isSpecial || isSpecial b) = true
          · rw [if_pos hplace]
            exact hbyte last
          · have hlast : last.any isWordByte = true := by
              cases last with
              | none => exact absurd rfl hplace
              | some a =>
                  have ha : isSpace a = false := by
                    by_contra hspace
                    cases h (by simpa using hspace)
                  simp at hplace
                  simp [isWordByte, ha, hplace]
            have hword : isWordByte b = true := by
              simp at hplace
              simp [isWordByte, hb, hplace]
            rw [if_neg hplace, tightFrom, hbyte (some 0x20), hlast, normalizeFrom_cons _ hb]
            simp [hword]

theorem tight_normalize (s : Bytes) : Tight (normalize s) := tightFrom_normalizeFrom none s fun _ => rfl

/-- A text of the grammar with white space is its normal form with white space. -/
theorem spaced_iff {s s' : Bytes} (hs : Tight s) : Spaced none s s' ↔ normalize s' = s := by
  constructor
  · intro h
    exact normalizeFrom_of_spaced h hs
  · rintro rfl
    exact spaced_normalizeFrom none s'

/-- What stands before and behind a bracket or a comma is tight again. -/
theorem tightFrom_split {last : Option UInt8} {s r : Bytes} {c : UInt8} (hc : isSpecial c = true)
    (h : tightFrom last (s ++ c :: r) = true) : tightFrom last s = true ∧ Tight r := by
  induction s generalizing last with
  | nil =>
      rw [List.nil_append, tightFrom, Bool.and_eq_true] at h
      refine ⟨rfl, ?_⟩
      cases r with
      | nil => rfl
      | cons b r =>
          have hword : isWordByte c = false := by simp [isWordByte, hc]
          rw [Tight, tightFrom]
          rw [tightFrom] at h
          simpa [hword] using h.2
  | cons b s ih =>
      rw [List.cons_append, tightFrom, Bool.and_eq_true] at h
      obtain ⟨hs, hr⟩ := ih h.2
      refine ⟨?_, hr⟩
      rw [tightFrom, hs, Bool.and_true]
      cases s with
      | nil =>
          have hword : isWordByte c = false := by simp [isWordByte, hc]
          simpa [hword] using h.1
      | cons d s => exact h.1

/-! ## Brackets and commas of an accepted text -/

/-- The matching bracket stands between what is before it and what is behind it. -/
theorem findMatchingBracket_eq {closeCh : UInt8} {depth : Int} {s inside behind : Bytes}
    (h : findMatchingBracket closeCh depth s = some (inside, behind)) :
    s = inside ++ closeCh :: behind := by
  have hmap : ∀ {b : UInt8} {depth' : Int} {s : Bytes} {inside : Bytes},
      (∀ {inside}, findMatchingBracket closeCh depth' s = some (inside, behind) →
        s = inside ++ closeCh :: behind) →
      ((findMatchingBracket closeCh depth' s).map fun p => (b :: p.1, p.2)) = some (inside, behind) →
      b :: s = inside ++ closeCh :: behind := by
    intro b depth' s inside ih h
    obtain ⟨⟨inside', behind'⟩, hfind, heq⟩ := Option.map_eq_some_iff.mp h
    obtain ⟨rfl, rfl⟩ := Prod.mk.inj heq
    rw [List.cons_append, ← ih hfind]
  induction s generalizing depth inside with
  | nil => exact nomatch h
  | cons b s ih =>
      rw [findMatchingBracket] at h
      by_cases hopen : isOpen b = true
      · rw [if_pos hopen] at h
        exact hmap (fun h => ih h) h
      · rw [if_neg hopen] at h
        by_cases hclose : isClose b = true
        · rw [if_pos hclose] at h
          by_cases hend : depth - 1 = 0 ∧ b = closeCh
          · rw [if_pos hend] at h
            obtain ⟨rfl, rfl⟩ := Prod.mk.inj (Option.some.inj h)
            rw [hend.2, List.nil_append]
          · rw [if_neg hend] at h
            exact hmap (fun h => ih h) h
        · rw [if_neg hclose] at h
          exact hmap (fun h => ih h) h

/-- A keyword, and the arguments between its brackets, to the end of the text. -/
theorem bracketedArgs_eq_ok {name s inner : Bytes} {n : Nat} {o c : UInt8} (hoc : Brackets o c)
    (hs : Tight s) (h : bracketedArgs name n o c s = .ok inner) :
    ∃ k, k.length = n ∧ s = k ++ o :: inner ++ [c] := by
  have hopen : isOpen o = true ∧ isSpecial c = true := by
    rcases hoc with ⟨rfl, rfl⟩ | ⟨rfl, rfl⟩ <;> exact ⟨rfl, rfl⟩
  rw [bracketedArgs] at h
  by_cases hlen : s.length < n + 2
  · rw [if_pos hlen] at h
    cases h
  · by_cases hhead : (s.drop n).head? ≠ some o
    · rw [if_neg hlen, if_pos hhead] at h
      cases h
    · rw [if_neg hlen, if_neg hhead] at h
      obtain ⟨rest, hrest⟩ : ∃ rest, s.drop n = o :: rest := by
        cases hdrop : s.drop n with
        | nil => simp [hdrop] at hhead
        | cons b rest =>
            rw [hdrop] at hhead
            exact ⟨rest, by simpa using hhead⟩
      rw [hrest] at h
      cases hfind : findMatchingBracket c 0 (o :: rest) with
      | none =>
          rw [hfind] at h
          cases h
      | some p =>
          obtain ⟨inside, behind⟩ := p
          simp only [hfind] at h
          by_cases hbehind : behind.dropWhile isSpace ≠ []
          · rw [if_pos hbehind] at h
            cases h
          · rw [if_neg hbehind] at h
            have hsplit := findMatchingBracket_eq hfind
            obtain ⟨inside', rfl⟩ : ∃ inside', inside = o :: inside' := by
              rw [findMatchingBracket, if_pos hopen.1] at hfind
              obtain ⟨p, -, heq⟩ := Option.map_eq_some_iff.mp hfind
              exact ⟨p.1, (Prod.mk.inj heq).1.symm⟩
            have hinner : inside' = inner := Except.ok.inj h
            have htext : s = s.take n ++ o :: inner ++ c :: behind := by
              rw [List.append_assoc, List.cons_append]
              rw [hsplit, List.cons_append, hinner] at hrest
              rw [← hrest, List.take_append_drop]
            -- blanks behind the bracket would not be tight
            have hnone : behind = [] := by
              rw [htext] at hs
              have htight := (tightFrom_split hopen.2 hs).2
              have hspaces : IsSpaces behind := by
                rw [IsSpaces]
                simpa using hbehind
              rw [← normalizeFrom_of_tight htight, normalizeFrom_spaces none hspaces]
            refine ⟨s.take n, ?_, ?_⟩
            · rw [List.length_take]
              omega
            · rw [hnone] at htext
              exact htext

theorem argumentsOf_wrap {n : Nat} {k inner : Bytes} {o c : UInt8} (hk : k.length = n) :
    argumentsOf n (k ++ o :: inner ++ [c]) = inner := by
  have hdrop : (k ++ o :: inner ++ [c]).drop (n + 1) = inner ++ [c] := by
    rw [List.append_assoc, List.cons_append, ← List.drop_drop, ← hk, List.drop_left]
    rfl
  rw [argumentsOf, hdrop, List.dropLast_concat]

/-- The arguments of a tight text are tight. -/
theorem Tight.arguments {k inner : Bytes} {o c : UInt8} (hoc : Brackets o c)
    (hs : Tight (k ++ o :: inner ++ [c])) : Tight inner := by
  have hspecial : isSpecial o = true ∧ isSpecial c = true := by
    rcases hoc with ⟨rfl, rfl⟩ | ⟨rfl, rfl⟩ <;> exact ⟨rfl, rfl⟩
  exact (tightFrom_split hspecial.1 (tightFrom_split hspecial.2 hs).1).2

/-- The segments with the commas between them. -/
theorem splitSegments_join (angle paren : Int) (s : Bytes) :
    (splitSegments angle paren s).1 ++ ((splitSegments angle paren s).2.map (0x2C :: ·)).flatten = s := by
  induction s generalizing angle paren with
  | nil => rfl
  | cons b s ih =>
      rw [splitSegments]
      by_cases hcomma : b = 0x2C ∧ angle = 0 ∧ paren = 0
      · have hrest := ih angle paren
        simp only [if_pos hcomma, List.map_cons, List.flatten_cons, List.nil_append, List.cons_append]
        rw [hrest, hcomma.1]
      · simp only [if_neg hcomma, List.cons_append]
        exact congrArg (b :: ·) (ih _ _)

theorem tight_of_join {segment : Bytes} {segments : List Bytes} {last : Option UInt8}
    (h : tightFrom last (segment ++ (segments.map (0x2C :: ·)).flatten) = true) :
    tightFrom last segment = true ∧ ∀ piece ∈ segments, Tight piece := by
  induction segments generalizing segment last with
  | nil =>
      rw [List.map_nil, List.flatten_nil, List.append_nil] at h
      exact ⟨h, fun _ hpiece => nomatch hpiece⟩
  | cons next segments ih =>
      rw [List.map_cons, List.flatten_cons, List.cons_append] at h
      obtain ⟨hsegment, hrest⟩ := tightFrom_split (c := 0x2C) rfl h
      obtain ⟨hnext, hpieces⟩ := ih hrest
      exact ⟨hsegment, List.forall_mem_cons.mpr ⟨hnext, hpieces⟩⟩

theorem intercalate_comma (segment : Bytes) (segments : List Bytes) :
    List.intercalate [0x2C] (segment :: segments) = segment ++ (segments.map (0x2C :: ·)).flatten := by
  induction segments generalizing segment with
  | nil => simp
  | cons next segments ih =>
      rw [List.intercalate_cons_cons, ih, List.map_cons, List.flatten_cons]
      simp

theorem intercalate_two (s r : Bytes) : List.intercalate [0x2C] [s, r] = s ++ 0x2C :: r := by
  rw [intercalate_comma]
  simp

/-- Without a comma at its end a text is what it is split into. -/
theorem splitTopLevelCommas_join {s : Bytes} (hs : Tight s) (hend : endsInComma s = false) :
    List.intercalate [0x2C] (splitTopLevelCommas s) = s ∧
      ∀ piece ∈ splitTopLevelCommas s, Tight piece := by
  have hjoin := splitSegments_join 0 0 s
  rw [splitTopLevelCommas]
  generalize hsplit : splitSegments 0 0 s = segments at hjoin
  obtain ⟨segment, segments⟩ := segments
  have htight : tightFrom none (segment ++ (segments.map (0x2C :: ·)).flatten) = true := by
    rw [hjoin]
    exact hs
  obtain ⟨hsegment, hpieces⟩ := tight_of_join htight
  have hall : ∀ piece ∈ segment :: segments, Tight piece :=
    List.forall_mem_cons.mpr ⟨hsegment, hpieces⟩
  have htrim : ∀ pieces : List Bytes, (∀ piece ∈ pieces, Tight piece) → pieces.map trim = pieces :=
    fun pieces h =>
      (List.map_congr_left fun piece hpiece => trim_of_tight (h piece hpiece)).trans (List.map_id _)
  by_cases hlast : (segment :: segments).getLast? = some []
  · simp only [if_pos hlast]
    cases segments with
    | nil =>
        obtain rfl : segment = [] := by simpa using hlast
        exact ⟨hjoin, List.forall_mem_nil _⟩
    | cons next segments =>
        exfalso
        have hcomma : s.getLast? = some 0x2C := by
          obtain ⟨pieces, hpieces⟩ : ∃ pieces, next :: segments = pieces ++ [[]] := by
            rw [List.getLast?_cons_cons] at hlast
            exact ⟨_, (List.dropLast_append_getLast? _ hlast).symm⟩
          rw [← hjoin, hpieces]
          simp
        rw [endsInComma, hcomma] at hend
        cases hend
  · simp only [if_neg hlast, htrim _ hall]
    exact ⟨(intercalate_comma segment segments).trans hjoin, hall⟩

/-! ## Keywords and numerals of an accepted text -/

theorem startsWith_iff {s p : Bytes} : startsWith s p = true ↔ ∃ r, s = p ++ r := by
  rw [startsWith, List.isPrefixOf_iff_prefix]
  exact exists_congr fun r => eq_comm

/-- The keyword is what stands before the bracket. -/
theorem upper_of_startsWith {k r u : Bytes} {b c : UInt8} (hlen : k.length = u.length)
    (h : startsWith (upper (k ++ b :: r)) (u ++ [c]) = true) : upper k = u := by
  obtain ⟨rest, hrest⟩ := startsWith_iff.mp h
  rw [upper_append, List.append_assoc] at hrest
  exact (List.append_inj hrest (by rw [length_upper, hlen])).1

/-- All digits are read as the number they denote. -/
theorem isNumeral_of_stoull {ds : Bytes} {n : Nat} (h : stoull ds = some n) (hds : ds.all isDigit = true) :
    IsNumeral ds n ∧ n < 2 ^ 64 := by
  have hne : ds ≠ [] := by
    rintro rfl
    exact nomatch h
  have hdigits : ∀ b ∈ ds, isDigit b = true := List.all_eq_true.mp hds
  rw [stoull_of_digits hne hdigits] at h
  by_cases hlarge : 2 ^ 64 ≤ natOfDigits 0 ds
  · rw [if_pos hlarge] at h
    exact nomatch h
  · rw [if_neg hlarge, Option.some.injEq] at h
    exact ⟨⟨hne, hdigits, h⟩, by omega⟩

/-- The checks of a field name are those of an identifier. -/
theorem isIdentifier_of_checkFieldName {name : Bytes} (h : checkFieldName name = .ok ()) :
    isIdentifier name = true := by
  rw [checkFieldName] at h
  by_cases hhead : (name.head?.any fun b => isAlpha b || b == 0x5F) = false
  · rw [if_pos hhead] at h
    cases h
  · rw [if_neg hhead] at h
    by_cases hall : (name.all fun b => isAlpha b || isDigit b || b == 0x5F) = false
    · rw [if_pos hall] at h
      cases h
    · cases name with
      | nil => exact absurd rfl hhead
      | cons b name =>
          rw [Bool.not_eq_false, List.all_cons, Bool.and_eq_true] at hall
          rw [Bool.not_eq_false] at hhead
          rw [isIdentifier, hall.2, Bool.and_true]
          exact hhead

/-! ## An accepted text is a rendering of its type -/

variable {types : DuckTypes}

/-- The parser is sound on the texts it reads to their end. -/
def SoundAt (types : DuckTypes) (levels : Nat) : Prop :=
  ∀ s t, Tight s → parseLogicalType types levels s = .ok t → isStrict levels s = true → Renders t s

theorem renders_decimal {s : Bytes} {t : LogicalType} (hkey : startsWith (upper s) (lit "DECIMAL(") = true)
    (h : parseDecimal types ((upper s).drop 8) = .ok t) (hstrict : isStrictDecimal (s.drop 8) = true) :
    Renders t s := by
  simp only [isStrictDecimal, Bool.and_eq_true, beq_iff_eq, decide_eq_true_eq] at hstrict
  generalize (s.drop 8).takeWhile (· ≠ 0x2C) = ds at hstrict
  generalize ((s.drop 8).drop (ds.length + 1)).dropLast = es at hstrict
  obtain ⟨⟨⟨⟨⟨hrest, hds⟩, hes⟩, hlow⟩, hhigh⟩, hscale⟩ := hstrict
  have hdsd : ∀ b ∈ ds, isDigit b = true := List.all_eq_true.mp hds
  have hesd : ∀ b ∈ es, isDigit b = true := List.all_eq_true.mp hes
  obtain ⟨k, b, hk, hs⟩ : ∃ k b, k.length = 7 ∧ s = k ++ b :: s.drop 8 := by
    have hlen : 8 ≤ s.length := by
      obtain ⟨r, hr⟩ := startsWith_iff.mp hkey
      have hlen := congrArg List.length hr
      rw [length_upper, List.length_append, show (lit "DECIMAL(").length = 8 from rfl] at hlen
      omega
    refine ⟨s.take 7, s[7], by rw [List.length_take]; omega, ?_⟩
    rw [← List.drop_eq_getElem_cons, List.take_append_drop]
  -- the keyword may be in any case, the bracket and the digits have none
  have hword : upper k = lit "DECIMAL" := by
    rw [hs] at hkey
    exact upper_of_startsWith (c := 0x28) hk hkey
  have hopen : b = 0x28 := by
    have hupper : ∀ b, toUpper b = 0x28 → b = 0x28 :=
      forall_byte (P := fun b => toUpper b = 0x28 → b = 0x28) (by decide +kernel)
    obtain ⟨r, hr⟩ := startsWith_iff.mp hkey
    have hlit : lit "DECIMAL(" = lit "DECIMAL" ++ [0x28] := rfl
    rw [hs, upper_append, hword, hlit, List.append_assoc] at hr
    exact hupper b (List.cons.inj (List.append_cancel_left hr)).1
  have hupper : (upper s).drop 8 = ds ++ 0x2C :: (es ++ [0x29]) := by
    have hcase : upper (ds ++ 0x2C :: (es ++ [0x29])) = ds ++ 0x2C :: (es ++ [0x29]) := by
      have hes : upper (0x2C :: (es ++ [0x29])) = 0x2C :: (upper es ++ [0x29]) := by
        exact congrArg (0x2C :: ·) (upper_append es [0x29])
      rw [upper_append, upper_digits hdsd, hes, upper_digits hesd]
    rw [← hcase, ← hrest, upper, upper, List.map_drop]
  have hwidth := span_digits hdsd (c := 0x2C) (by decide) (es ++ [0x29])
  have hend := span_digits hesd (c := 0x29) (by decide) []
  rw [hupper, parseDecimal, hwidth] at h
  simp only [hend] at h
  cases hw : stoull ds with
  | none =>
      rw [hw] at h
      cases h
  | some w =>
      cases hn : stoull es with
      | none =>
          rw [hw, hn] at h
          cases h
      | some n =>
          obtain ⟨hwn, -⟩ := isNumeral_of_stoull hw hds
          obtain ⟨hnn, -⟩ := isNumeral_of_stoull hn hes
          have hwv := hwn.2.2
          have hnv := hnn.2.2
          simp only [hw, hn] at h
          split at h
          · obtain rfl : LogicalType.decimal (w % 256) (n % 256) = t := Except.ok.inj h
            -- width and scale are cast to a byte; in their range that changes nothing
            rw [Nat.mod_eq_of_lt (by omega), Nat.mod_eq_of_lt (by omega), hs, hrest, hopen]
            have hrender := Renders.decimal hword hwn hnn ⟨by omega, by omega, by omega⟩
            simpa using hrender
          · cases h

/-- The only white space of a tight text are blanks. -/
theorem eq_blank_of_tight {last : Option UInt8} {s : Bytes} (h : tightFrom last s = true) {b : UInt8}
    (hb : b ∈ s) (hspace : isSpace b = true) : b = 0x20 := by
  induction s generalizing last with
  | nil => exact nomatch hb
  | cons c s ih =>
      rw [tightFrom, Bool.and_eq_true] at h
      rcases List.mem_cons.mp hb with rfl | hb
      · have hblank := h.1
        simp only [hspace, Bool.not_true, Bool.false_or, Bool.and_eq_true, beq_iff_eq] at hblank
        exact hblank.1.1
      · exact ih h.2 hb

/-- What stands behind a blank of a tight text is tight. -/
theorem tight_behind_blank {last : Option UInt8} {n r : Bytes}
    (h : tightFrom last (n ++ 0x20 :: r) = true) : Tight r := by
  induction n generalizing last with
  | nil =>
      rw [List.nil_append, tightFrom, Bool.and_eq_true] at h
      cases r with
      | nil => rfl
      | cons b r =>
          rw [Tight, tightFrom]
          rw [tightFrom] at h
          simpa [isWordByte, show isSpace 0x20 = true from rfl] using h.2
  | cons b n ih =>
      rw [List.cons_append, tightFrom, Bool.and_eq_true] at h
      exact ih h.2

/-- A tight text with white space in it: the word before it, and what is behind it. -/
theorem tight_span {field : Bytes} (h : Tight field) {name rest : Bytes} {b : UInt8}
    (hspan : (field.span fun b => b ≠ 0x20 && b ≠ 0x09) = (name, b :: rest)) :
    field = name ++ 0x20 :: rest ∧ fieldType field = rest ∧ Tight name ∧ Tight rest := by
  rw [List.span_eq_takeWhile_dropWhile] at hspan
  obtain ⟨hname, hrest⟩ := Prod.mk.inj hspan
  have hfield : field = name ++ b :: rest := by
    rw [← hname, ← hrest, List.takeWhile_append_dropWhile]
  have hb : b = 0x20 := by
    have hhead := List.head?_dropWhile_not (fun b => b ≠ 0x20 && b ≠ 0x09) field
    rw [hrest] at hhead
    have hends : b = 0x20 ∨ b = 0x09 := by simpa [Classical.or_iff_not_imp_left] using hhead
    refine eq_blank_of_tight h (by simp [hfield]) ?_
    rcases hends with rfl | rfl <;> rfl
  subst hb
  have hword : ∀ c ∈ name, c ≠ 0x20 := by
    intro c hc
    rw [← hname] at hc
    have hstop := List.mem_takeWhile_imp hc
    simp at hstop
    exact hstop.1
  refine ⟨hfield, ?_, ?_, tight_behind_blank (hfield ▸ h)⟩
  · have hdrop : field.dropWhile (· ≠ 0x20) = 0x20 :: rest := by
      rw [hfield, List.dropWhile_append_of_pos fun c hc => decide_eq_true (hword c hc)]
      rfl
    rw [fieldType, hdrop]
    rfl
  · refine tight_of_noSpace (fun c hc => ?_) none
    by_contra hspace
    exact hword c hc (eq_blank_of_tight h (by simp [hfield, hc]) (by simpa using hspace))

theorem rendersFields_of_parse {levels : Nat} (ih : SoundAt types levels) {fields : List Bytes} {fs : Fields}
    (hne : fields ≠ []) (htight : ∀ field ∈ fields, Tight field)
    (h : parseFields (parseLogicalType types levels) fields = .ok fs)
    (hstrict : ∀ field ∈ fields, isStrict levels (fieldType field) = true) :
    RendersFields fs (List.intercalate [0x2C] fields) := by
  induction fields generalizing fs with
  | nil => exact absurd rfl hne
  | cons field fields ihfields =>
      rw [parseFields] at h
      obtain ⟨⟨name, behind⟩, hspan⟩ : ∃ p, (field.span fun b => b ≠ 0x20 && b ≠ 0x09) = p :=
        ⟨_, rfl⟩
      rw [hspan] at h
      cases behind with
      | nil => cases h
      | cons b rest =>
          obtain ⟨hfield, htype, hname, hrest⟩ := tight_span (htight field (by simp)) hspan
          simp only [trim_of_tight hname, trim_of_tight hrest] at h
          obtain ⟨⟨⟩, hcheck, h⟩ := bind_eq_ok.mp h
          obtain ⟨type, hparse, h⟩ := bind_eq_ok.mp h
          obtain ⟨others, hothers, h⟩ := bind_eq_ok.mp h
          obtain rfl : Fields.cons name type others = fs := Except.ok.inj h
          have hn : isIdentifier name = true := isIdentifier_of_checkFieldName hcheck
          have hrender : Renders type rest := by
            refine ih rest type hrest hparse ?_
            rw [← htype]
            exact hstrict field (by simp)
          cases fields with
          | nil =>
              obtain rfl : Fields.nil = others := Except.ok.inj hothers
              rw [List.intercalate_singleton, hfield]
              exact .last hn hrender
          | cons next fields =>
              have hmore := ihfields (by simp) (fun f hf => htight f (by simp [hf])) hothers
                fun f hf => hstrict f (by simp [hf])
              rw [List.intercalate_cons_cons, hfield]
              simpa using RendersFields.more hn hrender hmore

/-- What the parser found in an accepted text. -/
inductive ParsedAs (types : DuckTypes) (levels : Nat) (s : Bytes) : LogicalType → Prop where
  | list {inner : Bytes} {c : LogicalType} (hkey : startsWith (upper s) (lit "LIST<") = true)
      (hargs : bracketedArgs (lit "LIST<...>") 4 0x3C 0x3E s = .ok inner)
      (hc : parseLogicalType types levels inner = .ok c) : ParsedAs types levels s (.list c)
  | array {inner element length : Bytes} {c : LogicalType} {n : Nat}
      (hkey : startsWith (upper s) (lit "ARRAY<") = true)
      (hargs : bracketedArgs (lit "ARRAY<T,N>") 5 0x3C 0x3E s = .ok inner)
      (hparts : splitTopLevelCommas inner = [element, length])
      (hc : parseLogicalType types levels element = .ok c) (hn : stoull length = some n) (hpos : n ≠ 0) :
      ParsedAs types levels s (.array c n)
  | map {inner key value : Bytes} {k v : LogicalType} (hkey : startsWith (upper s) (lit "MAP<") = true)
      (hargs : bracketedArgs (lit "MAP<K,V>") 3 0x3C 0x3E s = .ok inner)
      (hparts : splitTopLevelCommas inner = [key, value])
      (hk : parseLogicalType types levels key = .ok k) (hv : parseLogicalType types levels value = .ok v) :
      ParsedAs types levels s (.map k v)
  | struct {inner : Bytes} {fs : Fields} (hkey : startsWith (upper s) (lit "STRUCT(") = true)
      (hargs : bracketedArgs (lit "STRUCT(...)") 6 0x28 0x29 s = .ok inner)
      (hne : splitTopLevelCommas inner ≠ [])
      (hfs : parseFields (parseLogicalType types levels) (splitTopLevelCommas inner) = .ok fs) :
      ParsedAs types levels s (.struct fs)
  | scalar {id : ScalarType} (h : (upper s, id) ∈ simpleTypeNames) : ParsedAs types levels s (.scalar id)
  | decimal {t : LogicalType} (hkey : startsWith (upper s) (lit "DECIMAL(") = true)
      (h : parseDecimal types ((upper s).drop 8) = .ok t) : ParsedAs types levels s t

theorem parsedAs_simple {levels : Nat} {s : Bytes} {t : LogicalType} (hs : Tight s)
    (h : parseSimpleLogicalType types s = .ok t) : ParsedAs types levels s t := by
  have htrim : trim (upper s) = upper s := trim_of_tight ((tightFrom_upper none s).trans hs)
  simp only [parseSimpleLogicalType, htrim] at h
  cases hlookup : simpleTypeNames.lookup (upper s) with
  | some id =>
      rw [hlookup] at h
      obtain rfl : LogicalType.scalar id = t := Except.ok.inj h
      obtain ⟨l, r, heq, -⟩ := List.lookup_eq_some_iff.mp hlookup
      exact .scalar (by simp [heq])
  | none =>
      simp only [hlookup] at h
      by_cases hkey : startsWith (upper s) (lit "DECIMAL(") = true
      · rw [if_pos hkey] at h
        exact .decimal hkey h
      · rw [if_neg hkey] at h
        cases h

theorem parsedAs {levels : Nat} {s : Bytes} {t : LogicalType} (hs : Tight s)
    (h : parseLogicalType types (levels + 1) s = .ok t) : ParsedAs types levels s t := by
  have hnormal : normalize s = s := normalizeFrom_of_tight hs
  rw [parseLogicalType] at h
  by_cases hlen : kMaxTypeStringLength < s.length
  · rw [if_pos hlen] at h
    cases h
  simp only [if_neg hlen, hnormal] at h
  by_cases hnil : s = []
  · rw [if_pos hnil] at h
    cases h
  rw [if_neg hnil] at h
  -- the constructors in the order in which the parser tries their prefixes
  by_cases hlist : startsWith (upper s) (lit "LIST<") = true
  · rw [if_pos hlist] at h
    obtain ⟨inner, hargs, h⟩ := bind_eq_ok.mp h
    obtain ⟨c, hc, h⟩ := bind_eq_ok.mp h
    exact Except.ok.inj h ▸ .list hlist hargs hc
  rw [if_neg hlist] at h
  by_cases harray : startsWith (upper s) (lit "ARRAY<") = true
  · rw [if_pos harray] at h
    obtain ⟨inner, hargs, h⟩ := bind_eq_ok.mp h
    rcases hparts : splitTopLevelCommas inner with _ | ⟨element, _ | ⟨length, _ | ⟨_, _⟩⟩⟩ <;>
      rw [hparts] at h
    · cases h
    · cases h
    · obtain ⟨c, hc, h⟩ := bind_eq_ok.mp h
      -- the second argument is a length
      cases hn : stoull length with
      | none =>
          rw [hn] at h
          cases h
      | some n =>
          simp only [hn] at h
          by_cases hzero : n = 0
          · rw [if_pos hzero] at h
            cases h
          · rw [if_neg hzero] at h
            split at h
            · exact Except.ok.inj h ▸ .array harray hargs hparts hc hn hzero
            · cases h
    · cases h
  rw [if_neg harray] at h
  by_cases hmap : startsWith (upper s) (lit "MAP<") = true
  · rw [if_pos hmap] at h
    obtain ⟨inner, hargs, h⟩ := bind_eq_ok.mp h
    rcases hparts : splitTopLevelCommas inner with _ | ⟨key, _ | ⟨value, _ | ⟨_, _⟩⟩⟩ <;>
      rw [hparts] at h
    · cases h
    · cases h
    · obtain ⟨k, hk, h⟩ := bind_eq_ok.mp h
      obtain ⟨v, hv, h⟩ := bind_eq_ok.mp h
      exact Except.ok.inj h ▸ .map hmap hargs hparts hk hv
    · cases h
  rw [if_neg hmap] at h
  by_cases hstruct : startsWith (upper s) (lit "STRUCT(") = true
  · rw [if_pos hstruct] at h
    obtain ⟨inner, hargs, h⟩ := bind_eq_ok.mp h
    by_cases hnone : splitTopLevelCommas inner = []
    · simp only [if_pos hnone] at h
      cases h
    · simp only [if_neg hnone] at h
      obtain ⟨fs, hfs, h⟩ := bind_eq_ok.mp h
      exact Except.ok.inj h ▸ .struct hstruct hargs hnone hfs
  rw [if_neg hstruct] at h
  by_cases hunion : startsWith (upper s) (lit "UNION(") = true
  · rw [if_pos hunion] at h
    cases h
  · rw [if_neg hunion] at h
    exact parsedAs_simple hs h

/-! ## The strict texts of every form -/

section Forms

variable {levels : Nat} {k s : Bytes}

theorem isStrict_list (hk : upper k = lit "LIST") :
    isStrict (levels + 1) (k ++ 0x3C :: s ++ [0x3E]) = isStrict levels s := by
  have hlist : ∀ r, startsWith (lit "LIST" ++ toUpper 0x3C :: r) (lit "LIST<") = true := fun _ => rfl
  have hargs := @argumentsOf_wrap 4 k s 0x3C 0x3E (length_of_upper hk)
  simp only [isStrict, upper_wrap hk, hlist, if_true, hargs]

theorem isStrict_array (hk : upper k = lit "ARRAY") {element length : Bytes}
    (hparts : splitTopLevelCommas s = [element, length]) :
    isStrict (levels + 1) (k ++ 0x3C :: s ++ [0x3E]) = true ↔
      endsInComma s = false ∧ isStrict levels element = true ∧ length.all isDigit = true := by
  have hlist : ∀ r, startsWith (lit "ARRAY" ++ toUpper 0x3C :: r) (lit "LIST<") = false := fun _ => rfl
  have harray : ∀ r, startsWith (lit "ARRAY" ++ toUpper 0x3C :: r) (lit "ARRAY<") = true := fun _ => rfl
  have hargs := @argumentsOf_wrap 5 k s 0x3C 0x3E (length_of_upper hk)
  simp only [isStrict, upper_wrap hk, hlist, harray, if_true, if_false, Bool.false_eq_true, hargs, hparts]
  simp [and_assoc]

theorem isStrict_map (hk : upper k = lit "MAP") {key value : Bytes}
    (hparts : splitTopLevelCommas s = [key, value]) :
    isStrict (levels + 1) (k ++ 0x3C :: s ++ [0x3E]) = true ↔
      endsInComma s = false ∧ isStrict levels key = true ∧ isStrict levels value = true := by
  have hlist : ∀ r, startsWith (lit "MAP" ++ toUpper 0x3C :: r) (lit "LIST<") = false := fun _ => rfl
  have harray : ∀ r, startsWith (lit "MAP" ++ toUpper 0x3C :: r) (lit "ARRAY<") = false := fun _ => rfl
  have hmap : ∀ r, startsWith (lit "MAP" ++ toUpper 0x3C :: r) (lit "MAP<") = true := fun _ => rfl
  have hargs := @argumentsOf_wrap 3 k s 0x3C 0x3E (length_of_upper hk)
  simp only [isStrict, upper_wrap hk, hlist, harray, hmap, if_true, if_false, Bool.false_eq_true, hargs,
    hparts]
  simp

theorem isStrict_struct (hk : upper k = lit "STRUCT") :
    isStrict (levels + 1) (k ++ 0x28 :: s ++ [0x29]) = true ↔ endsInComma s = false ∧
      ∀ field ∈ splitTopLevelCommas s, isStrict levels (fieldType field) = true := by
  have hlist : ∀ r, startsWith (lit "STRUCT" ++ toUpper 0x28 :: r) (lit "LIST<") = false := fun _ => rfl
  have harray : ∀ r, startsWith (lit "STRUCT" ++ toUpper 0x28 :: r) (lit "ARRAY<") = false := fun _ => rfl
  have hmap : ∀ r, startsWith (lit "STRUCT" ++ toUpper 0x28 :: r) (lit "MAP<") = false := fun _ => rfl
  have hstruct : ∀ r, startsWith (lit "STRUCT" ++ toUpper 0x28 :: r) (lit "STRUCT(") = true := fun _ => rfl
  have hargs := @argumentsOf_wrap 6 k s 0x28 0x29 (length_of_upper hk)
  simp only [isStrict, upper_wrap hk, hlist, harray, hmap, hstruct, if_true, if_false, Bool.false_eq_true,
    hargs]
  simp

theorem isStrict_decimal (hkey : startsWith (upper s) (lit "DECIMAL(") = true) :
    isStrict (levels + 1) s = isStrictDecimal (s.drop 8) := by
  obtain ⟨r, hr⟩ := startsWith_iff.mp hkey
  have hlist : startsWith (lit "DECIMAL(" ++ r) (lit "LIST<") = false := rfl
  have harray : startsWith (lit "DECIMAL(" ++ r) (lit "ARRAY<") = false := rfl
  have hmap : startsWith (lit "DECIMAL(" ++ r) (lit "MAP<") = false := rfl
  have hstruct : startsWith (lit "DECIMAL(" ++ r) (lit "STRUCT(") = false := rfl
  simp only [isStrict, hr, hlist, harray, hmap, hstruct, startsWith_append, if_true, if_false,
    Bool.false_eq_true]

theorem isStrict_scalar {id : ScalarType} (h : (upper s, id) ∈ simpleTypeNames) :
    isStrict (levels + 1) s = true := by
  obtain ⟨-, hlist, harray, hmap, hstruct, -, hdecimal⟩ := simpleTypeNames_tests _ h
  simp only [isStrict, hlist, harray, hmap, hstruct, hdecimal, if_false, Bool.false_eq_true]

end Forms

/-- A keyword, its brackets and its arguments. -/
theorem bracketed {name s inner u : Bytes} {o c : UInt8} (hoc : Brackets o c) (hs : Tight s)
    (hkey : startsWith (upper s) (u ++ [o]) = true) (hargs : bracketedArgs name u.length o c s = .ok inner) :
    ∃ k, upper k = u ∧ s = k ++ o :: inner ++ [c] ∧ Tight inner := by
  obtain ⟨k, hk, htext⟩ := bracketedArgs_eq_ok hoc hs hargs
  rw [htext, List.append_assoc] at hkey
  exact ⟨k, upper_of_startsWith hk hkey, htext, Tight.arguments hoc (htext ▸ hs)⟩

/-- **The parser is sound where it reads everything.** -/
theorem soundAt (levels : Nat) : SoundAt types levels := by
  -- on the levels of nesting that the parser still allows
  induction levels with
  | zero =>
      intro s t _ h
      exact nomatch h
  | succ levels ih =>
      intro s t hs h hstrict
      cases parsedAs hs h with
      | list hkey hargs hc =>
          obtain ⟨k, hk, rfl, htight⟩ := bracketed (u := lit "LIST") (Or.inl ⟨rfl, rfl⟩) hs hkey hargs
          rw [isStrict_list hk] at hstrict
          exact .list hk (ih _ _ htight hc hstrict)
      | array hkey hargs hparts hc hn hpos =>
          obtain ⟨k, hk, rfl, htight⟩ := bracketed (u := lit "ARRAY") (Or.inl ⟨rfl, rfl⟩) hs hkey hargs
          obtain ⟨hend, helement, hlength⟩ := (isStrict_array hk hparts).mp hstrict
          obtain ⟨hjoin, hpieces⟩ := splitTopLevelCommas_join htight hend
          rw [hparts] at hjoin hpieces
          rw [intercalate_two] at hjoin
          obtain ⟨hnumeral, hlt⟩ := isNumeral_of_stoull hn hlength
          rw [← hjoin]
          have hrender := ih _ _ (hpieces _ (by simp)) hc helement
          exact .array hk hrender hnumeral ⟨Nat.pos_of_ne_zero hpos, hlt⟩
      | map hkey hargs hparts hkt hvt =>
          obtain ⟨k, hk, rfl, htight⟩ := bracketed (u := lit "MAP") (Or.inl ⟨rfl, rfl⟩) hs hkey hargs
          obtain ⟨hend, hkstrict, hvstrict⟩ := (isStrict_map hk hparts).mp hstrict
          obtain ⟨hjoin, hpieces⟩ := splitTopLevelCommas_join htight hend
          rw [hparts] at hjoin hpieces
          rw [intercalate_two] at hjoin
          rw [← hjoin]
          have hkey := ih _ _ (hpieces _ (by simp)) hkt hkstrict
          have hvalue := ih _ _ (hpieces _ (by simp)) hvt hvstrict
          exact .map hk hkey hvalue
      | struct hkey hargs hne hfs =>
          obtain ⟨k, hk, rfl, htight⟩ := bracketed (u := lit "STRUCT") (Or.inr ⟨rfl, rfl⟩) hs hkey hargs
          obtain ⟨hend, hfields⟩ := (isStrict_struct hk).mp hstrict
          obtain ⟨hjoin, hpieces⟩ := splitTopLevelCommas_join htight hend
          have hrender := rendersFields_of_parse ih hne hpieces hfs hfields
          rw [hjoin] at hrender
          exact .struct hk hrender
      | scalar hid => exact .scalar hid
      | decimal hkey h =>
          rw [isStrict_decimal hkey] at hstrict
          exact renders_decimal hkey h hstrict

/-! ## A rendering is read to its end -/

theorem endsInComma_append (s : Bytes) {r : Bytes} (hr : r ≠ []) :
    endsInComma (s ++ r) = endsInComma r := by
  rw [endsInComma, endsInComma, List.getLast?_append_of_ne_nil _ hr]

theorem endsInComma_behind (s : Bytes) (b : UInt8) {r : Bytes} (hr : r ≠ []) :
    endsInComma (s ++ b :: r) = endsInComma r := by
  rw [List.append_cons, endsInComma_append _ hr]

theorem endsInComma_of_all {s : Bytes} (h : ∀ b ∈ s, isSpecial b = false) : endsInComma s = false := by
  rw [endsInComma, beq_eq_false_iff_ne]
  intro hlast
  have hcomma := h _ (List.mem_of_getLast? hlast)
  exact nomatch hcomma

/-- No rendering ends in a comma. -/
theorem Renders.endsInComma {t : LogicalType} {s : Bytes} (h : Renders t s) :
    ParamDecoder.endsInComma s = false := by
  have hclose : ∀ (s : Bytes) (c : UInt8), isClose c = true →
      ParamDecoder.endsInComma (s ++ [c]) = false := by
    intro s c hc
    rw [endsInComma_append s (by simp)]
    refine Bool.eq_false_iff.mpr fun hcomma => ?_
    obtain rfl : c = 0x2C := by simpa [ParamDecoder.endsInComma] using hcomma
    exact nomatch hc
  cases h with
  | scalar h =>
      refine endsInComma_of_all fun b hb => ?_
      rw [← (classes_toUpper b).2.1]
      exact (simpleTypeNames_text _ h).2.1 _ (List.mem_map_of_mem hb)
  | decimal hk hw hn hrange => exact hclose _ _ rfl
  | list hk h => exact hclose _ _ rfl
  | array hk h hn hrange => exact hclose _ _ rfl
  | map hk hkey hvalue => exact hclose _ _ rfl
  | struct hk h => exact hclose _ _ rfl

theorem isStrictDecimal_of_numerals {w n : Nat} {ds es : Bytes} (hw : IsNumeral ds w) (hn : IsNumeral es n)
    (hrange : 1 ≤ w ∧ w ≤ 38 ∧ n ≤ w) : isStrictDecimal (ds ++ 0x2C :: (es ++ [0x29])) = true := by
  have hwidth : (ds ++ 0x2C :: (es ++ [0x29])).takeWhile (· ≠ 0x2C) = ds := by
    have hspan := span_digits hw.2.1 (c := 0x2C) (by decide) (es ++ [0x29])
    rw [List.span_eq_takeWhile_dropWhile] at hspan
    exact (Prod.mk.inj hspan).1
  have hscale : ((ds ++ 0x2C :: (es ++ [0x29])).drop (ds.length + 1)).dropLast = es := by
    rw [← List.drop_drop, List.drop_left, List.drop_one, List.tail_cons, List.dropLast_concat]
  simp only [isStrictDecimal, hwidth, hscale, hw.2.2, hn.2.2]
  simp only [List.all_eq_true.mpr hw.2.1, List.all_eq_true.mpr hn.2.1, hrange, beq_self_eq_true, decide_true,
    Bool.and_true]

theorem fieldType_eq {n : Bytes} (hn : isIdentifier n = true) (s : Bytes) :
    fieldType (n ++ 0x20 :: s) = s := by
  have hword : ∀ b ∈ n, decide (b ≠ 0x20) = true := by
    intro b hb
    have hbyte := (isIdentifier_word hn).2 b hb
    refine decide_eq_true ?_
    rintro rfl
    exact nomatch hbyte
  rw [fieldType, List.dropWhile_append_of_pos hword]
  rfl

/-- **Every rendering is strict.** -/
theorem isStrict_of_renders (t : LogicalType) : ∀ {levels s}, Renders t s → isStrict levels s = true := by
  induction t using LogicalType.induction
    (Q := fun fs => ∀ levels s, RendersFields fs s → endsInComma s = false ∧
      ∃ fields, Segments s fields ∧ ∀ field ∈ fields, isStrict levels (fieldType field) = true) with
  | scalar id =>
      intro levels s h
      cases levels with
      | zero => rfl
      | succ levels =>
          cases h with
          | scalar h => exact isStrict_scalar h
  | decimal w n =>
      intro levels s h
      cases levels with
      | zero => rfl
      | succ levels =>
          cases h with
          | @decimal _ _ k ds es hk hw hn hrange =>
              have hkey : startsWith (upper (k ++ 0x28 :: (ds ++ 0x2C :: es) ++ [0x29]))
                  (lit "DECIMAL(") = true := by
                rw [upper_wrap hk]
                exact startsWith_append (lit "DECIMAL(") _
              have hdrop : (k ++ 0x28 :: (ds ++ 0x2C :: es) ++ [0x29]).drop 8 =
                  ds ++ 0x2C :: (es ++ [0x29]) := by
                have hlen : k.length = 7 := length_of_upper hk
                rw [List.append_assoc, ← List.drop_drop (i := 1) (j := 7), ← hlen, List.drop_left]
                simp
              rw [isStrict_decimal hkey, hdrop]
              exact isStrictDecimal_of_numerals hw hn hrange
  | list c ih =>
      intro levels s h
      cases levels with
      | zero => rfl
      | succ levels =>
          cases h with
          | list hk h =>
              rw [isStrict_list hk]
              exact ih h
  | array c n ih =>
      intro levels s h
      cases levels with
      | zero => rfl
      | succ levels =>
          cases h with
          | array hk h hn _ =>
              have htext := typeText_of_renders _ h
              have hparts := splitTopLevelCommas_two htext.solid htext.tight (solid_of_plain hn.plain)
                hn.passes.tight hn.1
              refine (isStrict_array hk hparts).mpr ⟨?_, ih h, List.all_eq_true.mpr hn.2.1⟩
              rw [endsInComma_behind _ _ hn.1]
              exact endsInComma_of_all fun b hb => by simpa [isPlain] using hn.plain b hb
  | map key value ihkey ihvalue =>
      intro levels s h
      cases levels with
      | zero => rfl
      | succ levels =>
          cases h with
          | map hk hkey hvalue =>
              have hs := typeText_of_renders _ hkey
              have hr := typeText_of_renders _ hvalue
              have hparts := splitTopLevelCommas_two hs.solid hs.tight hr.solid hr.tight hr.startsAlpha.ne_nil
              refine (isStrict_map hk hparts).mpr ⟨?_, ihkey hkey, ihvalue hvalue⟩
              rw [endsInComma_behind _ _ hr.startsAlpha.ne_nil]
              exact hvalue.endsInComma
  | struct fs ih =>
      intro levels s h
      cases levels with
      | zero => rfl
      | succ levels =>
          cases h with
          | struct hk h =>
              obtain ⟨hend, fields, hfields, hall⟩ := ih levels _ h
              rw [← hfields.splitTopLevelCommas] at hall
              exact (isStrict_struct hk).mpr ⟨hend, hall⟩
  | union ms ih =>
      intro levels s h
      cases h
  | enum ls =>
      intro levels s h
      cases h
  | other n =>
      intro levels s h
      cases h
  | nil levels s h => cases h
  | cons n t fs iht ihfs levels s h =>
      cases h with
      | last hn h =>
          have htext := typeText_of_renders t h
          have hfield := passes_field hn htext
          refine ⟨?_, _, segments_one hfield.2 (by simp) hfield.1.tight, ?_⟩
          · rw [endsInComma_behind _ _ htext.startsAlpha.ne_nil]
            exact h.endsInComma
          · rw [List.forall_mem_singleton, fieldType_eq hn]
            exact iht h
      | more hn h hs =>
          have hfield := passes_field hn (typeText_of_renders t h)
          obtain ⟨hend, fields, hfields, hall⟩ := ihfs levels _ hs
          refine ⟨?_, _, segments_cons hfield.2 (by simp) hfield.1.tight hfields, ?_⟩
          · rw [endsInComma_behind]
            · exact hend
            · rintro rfl
              have hnone : fields = [] := hfields.splitTopLevelCommas.symm
              exact hfields.ne_nil hnone
          · rw [List.forall_mem_cons, fieldType_eq hn]
            exact ⟨iht h, hall⟩

/-- A text is read as its normal form is. -/
theorem parseLogicalType_normalized {levels : Nat} {s : Bytes} {t : LogicalType}
    (h : parseLogicalType types levels s = .ok t) : parseLogicalType types levels (normalize s) = .ok t := by
  have hshort : s.length ≤ kMaxTypeStringLength := by
    by_contra hlong
    cases levels with
    | zero => cases h
    | succ levels =>
        rw [parseLogicalType, if_pos (Nat.lt_of_not_le hlong)] at h
        cases h
  have hlen := (spaced_normalizeFrom none s).length_le
  rw [← h]
  exact parseLogicalType_normalize (normalizeFrom_of_tight (tight_normalize s)) hshort
    (Nat.le_trans hlen hshort)

/-- The accepted texts that are in the grammar. -/
theorem renders_iff {t : LogicalType} {s' : Bytes} (h : parseType types s' = .ok t) :
    Renders t (normalize s') ↔ isStrict (kMaxTypeNesting + 1) (normalize s') = true := by
  constructor
  · intro hrender
    exact isStrict_of_renders t hrender
  · intro hstrict
    exact soundAt _ _ _ (tight_normalize s') (parseLogicalType_normalized h) hstrict

/-- **Soundness.** An accepted text is a rendering of the type it is read as, up to case and white space,
exactly when all of it was read: no arguments that end in a comma, only digits for the length of an ARRAY, and
for a DECIMAL two numerals in its range with nothing behind the bracket. -/
theorem parseType_sound_iff {t : LogicalType} {s' : Bytes} (h : parseType types s' = .ok t) :
    (∃ s, Renders t s ∧ Spaced none s s') ↔ isStrict (kMaxTypeNesting + 1) (normalize s') = true := by
  rw [← renders_iff h]
  constructor
  · rintro ⟨s, hrender, hspaced⟩
    rw [(spaced_iff (typeText_of_renders t hrender).tight).mp hspaced]
    exact hrender
  · intro hrender
    exact ⟨normalize s', hrender, spaced_normalizeFrom none s'⟩

theorem parseType_sound_iff_map :
    (∃ s, Renders (.map (.scalar .integer) (.scalar .date)) s ∧ Spaced none s (lit "map < int, DATE>")) ↔
      isStrict (kMaxTypeNesting + 1) (normalize (lit "map < int, DATE>")) = true :=
  parseType_sound_iff (show parseType .documented (lit "map < int, DATE>") = _ from rfl)

/-- Letters behind a length, a width beyond a byte, and text behind a DECIMAL. -/
example : parseType .documented (lit "ARRAY<DATE,3abc>") = .ok (.array (.scalar .date) 3) ∧
    parseType .documented (lit "DECIMAL(259,2)") = .ok (.decimal 3 2) ∧
    parseType .documented (lit "DECIMAL(3,2)xyz") = .ok (.decimal 3 2) := ⟨rfl, rfl, rfl⟩

/-- A trailing comma is not read. -/
theorem parseType_not_sound :
    ¬ ∀ s' t, parseType .documented s' = .ok t → ∃ s, Renders t s ∧ Spaced none s s' := by
  intro hall
  have hparse : parseType .documented (lit "MAP<INTEGER,DATE,>") =
      .ok (.map (.scalar .integer) (.scalar .date)) := rfl
  obtain ⟨s, hrender, hspaced⟩ := hall _ _ hparse
  have hnormal := (spaced_iff (typeText_of_renders _ hrender).tight).mp hspaced
  have hstrict := @isStrict_of_renders _ 2 _ hrender
  rw [← hnormal] at hstrict
  exact absurd hstrict (by decide)

end Harbor.ParamDecoder
