import Harbor.Lib.JsonWords
import Harbor.Sql.ReaderText

set_option autoImplicit false

/-! # Which objects are taken for typed wrappers

The decoder looks for the two words of a typed wrapper in the text of the object. So it takes for wrappers
the objects in which both words are the end of some string literal (`looksTyped_source`), which need not
be the objects that have members of these names.
-/

namespace Harbor.ParamDecoder

open Json

theorem skipWhitespace_source {x : Source} (hx : x.Ok) (p : Nat) (rest : Bytes) :
    skipWhitespace ⟨p, x.text ++ rest⟩ = ⟨p, x.text ++ rest⟩ := by
  obtain ⟨b, s, htext, hb, -⟩ := hx.head
  rw [htext, List.cons_append, skipWhitespace_cons hb]

/-- **The search for the two words**: an object is taken for a wrapper if both end some literal in it. -/
theorem looksTyped_source {x : Source} (hx : x.Ok) (p : Nat) {rest : Bytes} (hrest : Ended rest) :
    looksTyped ⟨p, x.text ++ rest⟩ = true ↔ x.Mentions (lit "type") ∧ x.Mentions (lit "value") := by
  have htype : lit "\"type\"" = 0x22 :: lit "type" ++ [0x22] := rfl
  have hvalue : lit "\"value\"" = 0x22 :: lit "value" ++ [0x22] := rfl
  rw [looksTyped, parseRawValue_source hx hrest]
  simp only [Bool.and_eq_true, htype, hvalue]
  rw [contains_text_iff (by decide) hx, contains_text_iff (by decide) hx]

/-- An object is decoded as a typed wrapper or as a STRUCT. -/
theorem decodeOne_object (text : DuckText) (casts : DuckCasts) {blank : Bytes}
    {ms : List (Member Source)} (p : Nat) (rest : Bytes) (depth : Nat) (expected : LogicalType) :
    decodeOne text casts (depth + 1) ⟨p, (Source.obj blank ms).text ++ rest⟩ expected =
      if looksTyped ⟨p, (Source.obj blank ms).text ++ rest⟩ then
        decodeTypedWrapper casts (decodeOne text casts depth) ⟨p, (Source.obj blank ms).text ++ rest⟩
      else
        decodeStruct text casts (decodeOne text casts depth)
          ⟨p, (Source.obj blank ms).text ++ rest⟩ expected := by
  have hbrace : isWs 0x7B = false := by decide
  rw [Source.text, List.cons_append, List.cons_append, List.cons_append, decodeOne,
    skipWhitespace_cons hbrace]
  rfl

/-- The object has a member of this name. -/
def Named (ms : List (Member Source)) (name : Bytes) : Prop := ∃ m ∈ ms, memberName m = name

instance (ms : List (Member Source)) (name : Bytes) : Decidable (Named ms name) :=
  inferInstanceAs (Decidable (∃ m ∈ ms, _))

/-- **When the detection is exact.** Whether an object is decoded as a typed wrapper is `looksTyped`; it
says whether `type` and `value` are both names of members of the object precisely when both words are
before the closing quote of some string literals in it, whole or behind an escaped quote, just if both are
such names. -/
theorem looksTyped_exact_iff {blank : Bytes} {ms : List (Member Source)}
    (h : (Source.obj blank ms).Ok) (p : Nat) {rest : Bytes} (hrest : Ended rest) :
    (∀ text casts depth expected,
      decodeOne text casts (depth + 1) ⟨p, (Source.obj blank ms).text ++ rest⟩ expected =
        if looksTyped ⟨p, (Source.obj blank ms).text ++ rest⟩ then
          decodeTypedWrapper casts (decodeOne text casts depth) ⟨p, (Source.obj blank ms).text ++ rest⟩
        else
          decodeStruct text casts (decodeOne text casts depth)
            ⟨p, (Source.obj blank ms).text ++ rest⟩ expected) ∧
      ((looksTyped ⟨p, (Source.obj blank ms).text ++ rest⟩ = true ↔
          Named ms (lit "type") ∧ Named ms (lit "value")) ↔
        ((∃ ps ∈ (Source.obj blank ms).literals, EndsQuoted (lit "type") ps) ∧
            (∃ ps ∈ (Source.obj blank ms).literals, EndsQuoted (lit "value") ps) ↔
          Named ms (lit "type") ∧ Named ms (lit "value"))) := by
  refine ⟨fun text casts depth expected => decodeOne_object text casts p rest depth expected, ?_⟩
  rw [looksTyped_source h p hrest]
  rfl

/-- `{"type":"DATE","value":null}` -/
def dateWrapper : List (Member Source) :=
  [.plain ['t', 'y', 'p', 'e'] (.plain ['D', 'A', 'T', 'E']), .plain ['v', 'a', 'l', 'u', 'e'] .null]

theorem dateWrapper_ok : (Source.obj [] dateWrapper).Ok := by
  refine .obj (by decide) ?_ ?_
  all_goals
    simp only [dateWrapper, List.forall_mem_cons, List.not_mem_nil, false_imp_iff, implies_true,
      and_true]
  · exact ⟨Member.plain_ok (by decide) _, Member.plain_ok (by decide) _⟩
  · exact ⟨Source.plain_ok (by decide), .null⟩

theorem looksTyped_exact_iff_date :
    looksTyped ⟨0, (Source.obj [] dateWrapper).text ++ []⟩ = true ↔
      Named dateWrapper (lit "type") ∧ Named dateWrapper (lit "value") :=
  (looksTyped_exact_iff dateWrapper_ok 0 ended_nil).2.mpr (by decide)

/-- `{"a":"type","b":"value"}` -/
def wordValues : List (Member Source) :=
  [.plain ['a'] (.plain ['t', 'y', 'p', 'e']), .plain ['b'] (.plain ['v', 'a', 'l', 'u', 'e'])]

/-- An object whose values are the words is taken for a wrapper. -/
theorem looksTyped_wordValues :
    ¬ ∀ (blank : Bytes) (ms : List (Member Source)), (Source.obj blank ms).Ok →
      ∀ (p : Nat) (rest : Bytes), Ended rest →
        (looksTyped ⟨p, (Source.obj blank ms).text ++ rest⟩ = true ↔
          Named ms (lit "type") ∧ Named ms (lit "value")) := by
  intro h
  have hok : (Source.obj [] wordValues).Ok := by
    refine .obj (by decide) ?_ ?_
    all_goals
      simp only [wordValues, List.forall_mem_cons, List.not_mem_nil, false_imp_iff, implies_true,
        and_true]
    · exact ⟨Member.plain_ok (by decide) _, Member.plain_ok (by decide) _⟩
    · exact ⟨Source.plain_ok (by decide), Source.plain_ok (by decide)⟩
  exact absurd (h [] wordValues hok 0 [] ended_nil) (by decide)

end Harbor.ParamDecoder
