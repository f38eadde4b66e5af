import Harbor.Lib.Bytes

set_option autoImplicit false

/-! # Spellings of a SQL name

SQL writes one name in many ways: in any letter case, with white space around its parts, after a
catalog and a schema, and with double quotes around an identifier. `QualifiedName` is such a spelling,
`QualifiedName.text` its bytes. `squeeze` and `afterLastDot` are what a program does that compares
names by text: it drops the white space, lowers the case and looks at what follows the last dot;
`afterLastDot_squeeze_text` says what this leaves of a spelling.
-/

namespace Harbor

namespace Bytes

/-- What follows the last dot; everything when there is none. -/
def afterLastDot (s : Bytes) : Bytes := (s.reverse.takeWhile (· ≠ 0x2E)).reverse

/-- The text without white space and in lower case. -/
def squeeze (s : Bytes) : Bytes := (s.filter fun c => !isSpace c).map toLower

theorem afterLastDot_append {p s : Bytes} (h : 0x2E ∉ s) : afterLastDot (p ++ 0x2E :: s) = s := by
  have hs : ∀ b ∈ s.reverse, decide (b ≠ 0x2E) = true := by
    intro b hb
    rw [List.mem_reverse] at hb
    exact decide_eq_true fun heq => h (heq ▸ hb)
  unfold afterLastDot
  rw [List.reverse_append, List.reverse_cons, List.append_assoc, List.takeWhile_append_of_pos hs]
  simp

theorem afterLastDot_of_notMem {s : Bytes} (h : 0x2E ∉ s) : afterLastDot s = s := by
  have hs : ∀ b ∈ s.reverse, decide (b ≠ 0x2E) = true := by
    intro b hb
    rw [List.mem_reverse] at hb
    exact decide_eq_true fun heq => h (heq ▸ hb)
  unfold afterLastDot
  rw [List.takeWhile_eq_self_iff.mpr hs, List.reverse_reverse]

theorem squeeze_append (s t : Bytes) : squeeze (s ++ t) = squeeze s ++ squeeze t := by
  unfold squeeze
  rw [List.filter_append, List.map_append]

theorem squeeze_of_space {s : Bytes} (h : ∀ b ∈ s, isSpace b = true) : squeeze s = [] := by
  unfold squeeze
  rw [List.filter_eq_nil_iff.mpr (by simpa using h), List.map_nil]

theorem squeeze_of_no_space {s : Bytes} (h : ∀ b ∈ s, isSpace b = false) : squeeze s = lower s := by
  unfold squeeze lower
  rw [List.filter_eq_self.mpr (by simpa using h)]

end Bytes

open Bytes

namespace Sql

/-- An identifier as it is written. -/
structure Identifier where
  name : Bytes
  quoted : Bool
  deriving DecidableEq, Repr

/-- The text: between double quotes, a double quote in the name is written twice. -/
def Identifier.text (identifier : Identifier) : Bytes :=
  if identifier.quoted then
    0x22 :: identifier.name.flatMap (fun b => if b = 0x22 then [b, b] else [b]) ++ [0x22]
  else identifier.name

/-- White space. -/
abbrev Blank := { s : Bytes // ∀ b ∈ s, isSpace b = true }

/-- A name after any number of qualifiers, each with its dot, and white space between the parts. -/
structure QualifiedName where
  before : Blank
  qualifiers : List (Identifier × Blank × Blank)
  function : Identifier
  after : Blank

/-- The qualifiers with the dots after them. -/
def qualifiersText (qualifiers : List (Identifier × Blank × Blank)) : Bytes :=
  qualifiers.flatMap fun (identifier, left, right) =>
    identifier.text ++ left.val ++ [0x2E] ++ right.val

def QualifiedName.text (name : QualifiedName) : Bytes :=
  name.before.val ++ qualifiersText name.qualifiers ++ name.function.text ++ name.after.val

/-- Squeezed, the qualifiers are nothing or end in a dot. -/
theorem squeeze_qualifiersText (qualifiers : List (Identifier × Blank × Blank)) :
    squeeze (qualifiersText qualifiers) = [] ∨
      ∃ p, squeeze (qualifiersText qualifiers) = p ++ [0x2E] := by
  cases List.eq_nil_or_concat qualifiers with
  | inl h =>
      left
      rw [h]
      rfl
  | inr h =>
      obtain ⟨qualifiers, ⟨identifier, left, right⟩, rfl⟩ := h
      right
      refine ⟨squeeze (qualifiersText qualifiers) ++ squeeze identifier.text, ?_⟩
      have hdot : squeeze [0x2E] = [0x2E] := by decide
      unfold qualifiersText
      simp only [List.concat_eq_append, List.flatMap_append, List.flatMap_cons, List.flatMap_nil,
        List.append_nil, List.nil_append, squeeze_append, squeeze_of_space left.property,
        squeeze_of_space right.property, hdot, List.append_assoc]

/-- What is left of a spelling is the function's identifier, squeezed. -/
theorem afterLastDot_squeeze_text (name : QualifiedName) (h : 0x2E ∉ squeeze name.function.text) :
    afterLastDot (squeeze name.text) = squeeze name.function.text := by
  unfold QualifiedName.text
  rw [squeeze_append, squeeze_append, squeeze_append, squeeze_of_space name.before.property,
    squeeze_of_space name.after.property, List.nil_append, List.append_nil]
  cases squeeze_qualifiersText name.qualifiers with
  | inl hq => rw [hq, List.nil_append, afterLastDot_of_notMem h]
  | inr hq =>
      obtain ⟨p, hq⟩ := hq
      rw [hq, List.append_assoc, List.singleton_append, afterLastDot_append h]

end Sql

end Harbor
