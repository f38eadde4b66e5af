import Harbor.Sql.DecodeTree
import Harbor.Sql.EncoderTree
import Harbor.Sql.TypeText
import Mathlib.Logic.Relation

set_option autoImplicit false

/-! # A value is not decoded from a part of itself

An object that is taken for a typed wrapper is decoded as what one of its members is. It is never the
right value by accident: whatever the type a member names, no tree inside of the JSON of a value is
decoded to that value (`decodeTree_within`).
-/

namespace Harbor

namespace Json

/-- The elements of an array, the values of the members of an object. -/
def parts : Json → List Json
  | arr xs => xs
  | obj ms => ms.map Prod.snd
  | _ => []

/-- The one tree is inside of the other, at some depth. -/
def Within : Json → Json → Prop := Relation.TransGen fun x y => x ∈ y.parts

variable {x y z : Json}

theorem Within.of_mem (h : x ∈ y.parts) : Within x y := Relation.TransGen.single h

theorem Within.trans (h : Within x y) (h' : Within y z) : Within x z := Relation.TransGen.trans h h'

theorem within_iff : Within x y ↔ ∃ z ∈ y.parts, x = z ∨ Within x z := by
  constructor
  · intro h
    obtain ⟨z, hz, hmem⟩ := Relation.TransGen.tail'_iff.mp h
    exact ⟨z, hmem, (Relation.reflTransGen_iff_eq_or_transGen.mp hz).imp_left Eq.symm⟩
  · rintro ⟨z, hz, rfl | h⟩
    · exact .of_mem hz
    · exact h.trans (.of_mem hz)

theorem sizeOf_lt_of_mem_parts (h : x ∈ y.parts) : sizeOf x < sizeOf y := by
  cases y with
  | arr xs =>
      have hlt := List.sizeOf_lt_of_mem (show x ∈ xs from h)
      rw [Json.arr.sizeOf_spec]
      omega
  | obj ms =>
      obtain ⟨⟨k, j⟩, hm, rfl⟩ := List.mem_map.mp h
      have hlt := List.sizeOf_lt_of_mem hm
      rw [Prod.mk.sizeOf_spec] at hlt
      rw [Json.obj.sizeOf_spec]
      simp only
      omega
  | _ => exact absurd h List.not_mem_nil

theorem NumbersOk.of_mem (hy : NumbersOk y) (h : x ∈ y.parts) : NumbersOk x := by
  cases y with
  | arr xs => exact numbersOk_arr.mp hy x h
  | obj ms =>
      obtain ⟨m, hm, rfl⟩ := List.mem_map.mp h
      exact numbersOk_obj.mp hy m hm
  | _ => exact absurd h List.not_mem_nil

theorem NumbersOk.within (hy : NumbersOk y) (h : Within x y) : NumbersOk x := by
  induction h with
  | single h => exact hy.of_mem h
  | tail _ h ih => exact ih (hy.of_mem h)

end Json

namespace ParamDecoder

open Json Encoder

/-! ## Types with a name -/

/-- A type that the grammar of type strings can write. -/
def Nameable (t : LogicalType) : Prop := ∃ s, Renders t s

theorem Nameable.list {c : LogicalType} (h : Nameable (.list c)) : Nameable c := by
  obtain ⟨s, h⟩ := h
  cases h with
  | list _ h => exact ⟨_, h⟩

theorem Nameable.array {c : LogicalType} {n : Nat} (h : Nameable (.array c n)) : Nameable c := by
  obtain ⟨s, h⟩ := h
  cases h with
  | array _ h => exact ⟨_, h⟩

theorem Nameable.map {k t : LogicalType} (h : Nameable (.map k t)) : Nameable k ∧ Nameable t := by
  obtain ⟨s, h⟩ := h
  cases h with
  | map _ hkey hvalue => exact ⟨⟨_, hkey⟩, _, hvalue⟩

theorem nameable_of_fields {fs : Fields} {s : Bytes} (h : RendersFields fs s) :
    ∀ f ∈ fs.toList, isIdentifier f.1 = true ∧ Nameable f.2 := by
  induction fs using Fields.induction generalizing s with
  | nil => exact fun f hf => absurd hf List.not_mem_nil
  | cons n t fs ih =>
      cases h with
      | last hn h => exact List.forall_mem_cons.mpr ⟨⟨hn, _, h⟩, fun f hf => absurd hf List.not_mem_nil⟩
      | more hn h hs => exact List.forall_mem_cons.mpr ⟨⟨hn, _, h⟩, ih hs⟩

theorem Nameable.struct {fs : Fields} (h : Nameable (.struct fs)) :
    ∀ f ∈ fs.toList, isIdentifier f.1 = true ∧ Nameable f.2 := by
  obtain ⟨s, h⟩ := h
  cases h with
  | struct _ h => exact nameable_of_fields h

end ParamDecoder

open Json Encoder ParamDecoder in
/-- What DuckDB does not cast to a type with a name. -/
structure DuckCasts.Strict (casts : DuckCasts) (text : DuckText) : Prop where
  /-- A BOOLEAN is cast to types without children. -/
  castBool : ∀ b t v, Nameable t → casts.castBool b t = .ok v → ∃ d, v = .leaf t d
  /-- The text of a nested value stands in brackets and that of an INTERVAL has a unit: neither is cast
  from a string inside of its JSON. -/
  castText : ∀ t v j, Nameable t → Has t v → valueJson text t v = .ok j → ∀ s, Within (str s) j →
    casts.castText (sanitize s) t ≠ .ok v

namespace ParamDecoder

open Json Encoder

/-! ## The children of a value -/

variable {text : DuckText}

/-- A field of a STRUCT, its value, and the JSON of the value. -/
structure Row where
  field : Bytes × LogicalType
  value : Value
  json : Json

/-- A STRUCT and its JSON, field by field. -/
theorem exists_rows {fs : Fields} {vs : List Value} {ms : List (Bytes × Json)} (h : HasFields fs vs)
    (hms : fieldsJson text fs vs = .ok ms) : ∃ rows : List Row,
      fs.toList = rows.map Row.field ∧ vs = rows.map Row.value ∧
        ms = rows.map (fun row => (row.field.1, row.json)) ∧
          ∀ row ∈ rows, Has row.field.2 row.value ∧ valueJson text row.field.2 row.value = .ok row.json := by
  induction fs using Fields.induction generalizing vs ms with
  | nil =>
      cases h
      cases hms
      exact ⟨[], rfl, rfl, rfl, by simp⟩
  | cons n t fs ih =>
      cases h with
      | cons h hs =>
          obtain ⟨j, ms', hj, hms', rfl⟩ := fieldsJson_cons.mp hms
          obtain ⟨rows, hfields, rfl, rfl, hrows⟩ := ih hs hms'
          refine ⟨⟨(n, t), _, j⟩ :: rows, ?_, rfl, rfl, List.forall_mem_cons.mpr ⟨⟨h, hj⟩, hrows⟩⟩
          rw [Fields.toList, hfields, List.map_cons]

/-! ## What is decoded to a nested value -/

variable {casts : DuckCasts} (htyped : casts.Typed) (hkeeps : casts.Keeps) (hstruct : casts.StructCast)
  (hstrict : casts.Strict text)

section Nested

variable {y : Json} (hy : NumbersOk y) {t T : LogicalType} (hname : Nameable T) {vs : List Value}
include htyped hstrict hy hname

/-- A nested value is decoded from a text, an array or an object. -/
theorem decodeTree_nested (hnumeric : isNumeric T = false) (hvarchar : T ≠ .scalar .varchar)
    (h : decodeTree text casts y t = some (.nested T vs)) :
    (∃ s, y = str s ∧ casts.castText (sanitize s) T = .ok (.nested T vs)) ∨ (∃ ys, y = arr ys) ∨
      ∃ ms, y = obj ms := by
  cases y with
  | null => cases (decodeTree_null t).symm.trans h
  | bool b =>
      rw [decodeTree_bool, toOption_eq_some, coerceBool] at h
      split_ifs at h
      · cases h
      · have hcast := mapError_eq_ok.mp h
        obtain rfl : T = t := htyped.castBool b t _ hcast
        obtain ⟨d, hd⟩ := hstrict.castBool b T _ hname hcast
        cases hd
  | num l =>
      rw [decodeTree_num (numbersOk_num.mp hy), toOption_eq_some, coerceJsonNumber] at h
      split_ifs at h with hplace
      · split at h <;> cases h
      · split at h <;> cases h
      · rw [coerceNumberFromString] at h
        split_ifs at h with hnum
        have htype : T = t := htyped.castText _ t _ (mapError_eq_ok.mp h)
        rw [← htype, hnumeric] at hnum
        cases hnum
  | str s =>
      rw [decodeTree_str, toOption_eq_some, coerceJsonString] at h
      have hcast := mapError_eq_ok.mp h
      split_ifs at hcast
      · exact absurd (htyped.varchar _ _ hcast).1 hvarchar
      · obtain rfl : T = t := htyped.castText _ t _ hcast
        exact Or.inl ⟨s, rfl, hcast⟩
  | arr ys => exact Or.inr (Or.inl ⟨ys, rfl⟩)
  | obj ms => exact Or.inr (Or.inr ⟨ms, rfl⟩)

end Nested

include hkeeps in
/-- What is decoded from an array. -/
theorem decodeTree_arr_cases {ys : List Json} (hys : NumbersOk (arr ys)) {t : LogicalType} {v : Value}
    (h : decodeTree text casts (arr ys) t = some v) :
    (∃ c vs, List.Forall₂ (fun y v => decodeTree text casts y c = some v) ys vs ∧
      (v = .nested (.list c) vs ∨ v = .nested (.array c vs.length) vs)) ∨
    ∃ k u es, List.Forall₂ (fun y e => decodePair text casts k u y = some e) ys es ∧
      v = .nested (.map k u) (es.map fun e => .nested (.entry k u) [e.1, e.2]) := by
  rcases decodeTree_arr_type hys h with ⟨c, rfl⟩ | ⟨c, n, rfl⟩ | ⟨k, u, rfl⟩
  · obtain ⟨vs, hvs, hv⟩ := (decodeTree_list hys).mp h
    exact Or.inl ⟨c, vs, hvs, Or.inl (hkeeps.list c vs v hv)⟩
  · obtain ⟨vs, hvs, -, hv⟩ := (decodeTree_array hys).mp h
    exact Or.inl ⟨c, vs, hvs, Or.inr (hkeeps.array c vs v hv)⟩
  · obtain ⟨es, hes, hv⟩ := (decodeTree_map hys).mp h
    exact Or.inr ⟨k, u, es, hes, hkeeps.map k u es v hv⟩

include htyped in
/-- An object that is not taken for a wrapper becomes a STRUCT. -/
theorem type_of_plain {ms : List (Bytes × Json)} (hms : NumbersOk (obj ms))
    (hlooks : looksTyped (.start (obj ms).text) = false) {t : LogicalType} {v : Value}
    (h : decodeTree text casts (obj ms) t = some v) : ∃ fs, v.type = .struct fs := by
  obtain ⟨fs, rfl, hv⟩ := (decodeTree_plain hms hlooks).mp h
  obtain ⟨seen, -, hv⟩ := Option.bind_eq_some_iff.mp hv
  exact ⟨fs, htyped.castStruct _ _ v (toOption_eq_some.mp hv)⟩

/-! ## Nothing inside is decoded to the whole -/

variable (text casts) in
/-- No tree inside of `j` is decoded to the value. -/
def Apart (v : Value) (j : Json) : Prop := ∀ y, Within y j → ∀ t, decodeTree text casts y t ≠ some v

theorem apart_of_parts {v : Value} {j : Json} (h : j.parts = []) : Apart text casts v j := by
  intro y hy
  obtain ⟨z, hz, -⟩ := within_iff.mp hy
  rw [h] at hz
  exact absurd hz List.not_mem_nil

include htyped hstrict in
/-- An object that is taken for a wrapper is one of its members; the other ways are left. -/
theorem apart_nested {T : LogicalType} {vs : List Value} {j : Json} (hname : Nameable T)
    (hhas : Has T (.nested T vs)) (hj : NumbersOk j) (hvalue : valueJson text T (.nested T vs) = .ok j)
    (hnumeric : isNumeric T = false)
    (hvarchar : T ≠ .scalar .varchar)
    (harr : ∀ ys, Within (arr ys) j → ∀ t, decodeTree text casts (arr ys) t ≠ some (.nested T vs))
    (hobj : ∀ ms, Within (obj ms) j → looksTyped (.start (obj ms).text) = false →
      ∀ t, decodeTree text casts (obj ms) t ≠ some (.nested T vs)) :
    Apart text casts (.nested T vs) j := by
  intro y
  induction hn : sizeOf y using Nat.strong_induction_on generalizing y with
  | _ n ih =>
      intro hy t h
      have hyok := hj.within hy
      rcases decodeTree_nested htyped hstrict hyok hname hnumeric hvarchar h with
        ⟨s, rfl, hs⟩ | ⟨ys, rfl⟩ | ⟨ms, rfl⟩
      · exact hstrict.castText T _ j hname hhas hvalue s hy hs
      · exact harr ys hy t h
      · cases hlooks : looksTyped (.start (obj ms).text) with
        | false => exact hobj ms hy hlooks t h
        | true =>
            obtain ⟨m, hm, u, hu⟩ := decodeTree_wrapped hyok hlooks h
            have hpart : m.2 ∈ (obj ms).parts := List.mem_map_of_mem hm
            have hlt := sizeOf_lt_of_mem_parts hpart
            exact ih (sizeOf m.2) (hn ▸ hlt) m.2 rfl ((Within.of_mem hpart).trans hy) u hu

theorem exists_left {α β : Type} {R : α → β → Prop} {as : List α} {bs : List β}
    (h : List.Forall₂ R as bs) {b : β} (hb : b ∈ bs) : ∃ a ∈ as, R a b := by
  induction h with
  | nil => exact absurd hb List.not_mem_nil
  | cons hab _ ih =>
      rcases List.mem_cons.mp hb with rfl | hb
      · exact ⟨_, List.mem_cons_self, hab⟩
      · obtain ⟨a, ha, hR⟩ := ih hb
        exact ⟨a, List.mem_cons_of_mem _ ha, hR⟩

theorem forall₂_mono_mem {α β : Type} {R S : α → β → Prop} {as : List α} {bs : List β}
    (h : List.Forall₂ R as bs) (hRS : ∀ a ∈ as, ∀ b, R a b → S a b) : List.Forall₂ S as bs := by
  induction h with
  | nil => exact .nil
  | cons hab _ ih =>
      exact .cons (hRS _ List.mem_cons_self _ hab) (ih fun a ha => hRS a (List.mem_cons_of_mem _ ha))

theorem entries_injective {t : LogicalType} {es es' : List (Value × Value)}
    (h : es.map (fun e => Value.nested t [e.1, e.2]) = es'.map fun e => .nested t [e.1, e.2]) : es = es' := by
  refine List.map_injective_iff.mpr (fun e e' heq => ?_) h
  simp only [Value.nested.injEq, true_and, List.cons.injEq, and_true] at heq
  exact Prod.ext heq.1 heq.2

/-- The elements of a LIST or ARRAY. -/
theorem elements_apart {c : LogicalType} {vs : List Value} {js ys : List Json}
    (hjs : List.Forall₂ (Apart text casts) vs js)
    (hys : List.Forall₂ (fun y v => decodeTree text casts y c = some v) ys vs) :
    ¬ Within (arr ys) (arr js) := by
  intro h
  obtain ⟨z, hz, hin⟩ := within_iff.mp h
  obtain ⟨v, hv, hapart⟩ := exists_left hjs hz
  obtain ⟨y, hy, hdecode⟩ := exists_left hys hv
  have hpart : Within y (arr ys) := .of_mem hy
  refine hapart y ?_ c hdecode
  rcases hin with rfl | hin
  · exact hpart
  · exact hpart.trans hin

include htyped hkeeps hstrict in
/-- A LIST or ARRAY stands apart from its JSON if its elements do from theirs. -/
theorem sequence_apart {T c : LogicalType} {vs : List Value} {js : List Json}
    (hT : T = .list c ∨ ∃ n, T = .array c n) (hname : Nameable T) (hhas : Has T (.nested T vs))
    (hok : NumbersOk (arr js))
    (hj : valueJson text T (.nested T vs) = .ok (arr js)) (hjs : List.Forall₂ (Apart text casts) vs js) :
    Apart text casts (.nested T vs) (arr js) := by
  have hnumeric : isNumeric T = false := by
    rcases hT with rfl | ⟨n, rfl⟩ <;> rfl
  have hvarchar : T ≠ .scalar .varchar := by
    rcases hT with rfl | ⟨n, rfl⟩ <;> simp
  refine apart_nested htyped hstrict hname hhas hok hj hnumeric hvarchar (fun ys hin t hdecode => ?_)
    fun ms hin hlooks t hdecode => ?_
  · -- what an array becomes has the decoded elements as its children: they are those of `vs`
    rcases decodeTree_arr_cases hkeeps (hok.within hin) hdecode with
      ⟨c', vs', hys, heq | heq⟩ | ⟨k, u, es, -, heq⟩
    · cases heq
      exact elements_apart hjs hys hin
    · cases heq
      exact elements_apart hjs hys hin
    · rcases hT with rfl | ⟨n, rfl⟩ <;> cases heq
  · obtain ⟨fs, hfs⟩ := type_of_plain htyped (hok.within hin) hlooks hdecode
    rcases hT with rfl | ⟨n, rfl⟩ <;> cases hfs

/-- The entries of a MAP. -/
theorem entries_apart {k t : LogicalType} {es : List (Value × Value)} {ps : List (Json × Json)}
    {ys : List Json}
    (hps : List.Forall₂ (fun e p => Apart text casts e.1 p.1 ∧ Apart text casts e.2 p.2) es ps)
    (hys : List.Forall₂ (fun y e => decodePair text casts k t y = some e) ys es) :
    ¬ Within (arr ys) (arr (ps.map fun p => arr [p.1, p.2])) := by
  -- a component of an entry, with the array inside of its JSON
  have hinside : ∀ p ∈ ps,
      ¬ (arr ys = p.1 ∨ Within (arr ys) p.1) ∧ ¬ (arr ys = p.2 ∨ Within (arr ys) p.2) := by
    intro p hp
    obtain ⟨e, he, hkey, hvalue⟩ := exists_left hps hp
    obtain ⟨y, hy, hpair⟩ := exists_left hys he
    obtain ⟨a, b, rfl, ha, hb⟩ := decodePair_eq_some.mp hpair
    have hawithin : Within a (arr ys) :=
      (Within.of_mem (y := arr [a, b]) (by simp [parts])).trans (.of_mem hy)
    have hbwithin : Within b (arr ys) :=
      (Within.of_mem (y := arr [a, b]) (by simp [parts])).trans (.of_mem hy)
    constructor
    · rintro (heq | hin)
      · exact hkey a (heq ▸ hawithin) k ha
      · exact hkey a (hawithin.trans hin) k ha
    · rintro (heq | hin)
      · exact hvalue b (heq ▸ hbwithin) t hb
      · exact hvalue b (hbwithin.trans hin) t hb
  intro h
  obtain ⟨z, hz, hin⟩ := within_iff.mp h
  obtain ⟨p, hp, rfl⟩ := List.mem_map.mp hz
  rcases hin with heq | hin
  · -- the array is an entry itself: then there are two entries, and it is the first or the second
    obtain rfl : ys = [p.1, p.2] := Json.arr.inj heq
    cases hys with
    | cons h₀ hys =>
        cases hys with
        | cons h₁ hys =>
            cases hys with
            | nil =>
                obtain ⟨a₀, b₀, ha₀, hdecode₀, -⟩ := decodePair_eq_some.mp h₀
                obtain ⟨a₁, b₁, hb₁, -, hdecode₁⟩ := decodePair_eq_some.mp h₁
                cases hps with
                | cons hq₀ hps =>
                    cases hps with
                    | cons hq₁ hps =>
                        cases hps with
                        | nil =>
                            rcases List.mem_cons.mp hp with rfl | hp
                            · refine hq₀.1 a₀ ?_ k hdecode₀
                              rw [ha₀]
                              exact .of_mem (by simp [parts])
                            · obtain rfl := List.mem_singleton.mp hp
                              refine hq₁.2 b₁ ?_ t hdecode₁
                              rw [hb₁]
                              exact .of_mem (by simp [parts])
  · obtain ⟨z, hz, hin⟩ := within_iff.mp hin
    rcases List.mem_pair.mp hz with rfl | rfl
    · exact (hinside p hp).1 hin
    · exact (hinside p hp).2 hin

/-- The fields of a STRUCT. -/
theorem fields_apart {rows : List Row} {ms : List (Bytes × Json)}
    (hrows : ∀ row ∈ rows, Apart text casts row.value row.json ∧
      valueJson text row.field.2 row.value = .ok row.json)
    (hms : ∀ row ∈ rows, row.value = .null row.field.2 ∨
      ∃ m ∈ ms, decodeTree text casts m.2 row.field.2 = some row.value) :
    ¬ Within (obj ms) (obj (rows.map fun row => (row.field.1, row.json))) := by
  intro h
  obtain ⟨z, hz, hin⟩ := within_iff.mp h
  rw [parts, List.map_map] at hz
  obtain ⟨row, hrow, rfl⟩ := List.mem_map.mp hz
  obtain ⟨hapart, hjson⟩ := hrows row hrow
  change obj ms = row.json ∨ Within (obj ms) row.json at hin
  rcases hms row hrow with hnull | ⟨m, hm, hdecode⟩
  · rw [hnull, valueJson_null] at hjson
    rw [← Except.ok.inj hjson] at hin
    rcases hin with heq | hin
    · cases heq
    · obtain ⟨z, hz, -⟩ := within_iff.mp hin
      exact absurd hz List.not_mem_nil
  · have hpart : Within m.2 (obj ms) := .of_mem (List.mem_map_of_mem hm)
    refine hapart m.2 ?_ row.field.2 hdecode
    rcases hin with heq | hin
    · exact heq ▸ hpart
    · exact hpart.trans hin

include htyped hstrict in
/-- Of the scalars an INTERVAL alone has something inside of its JSON, two numbers and a text. -/
theorem scalar_apart {id : ScalarType} (hid : id ≠ .sqlNull) {d : Datum} {j : Json}
    (hname : Nameable (.scalar id)) (hhas : Has (.scalar id) (.leaf (.scalar id) d)) (hok : NumbersOk j)
    (hj : valueJson text (.scalar id) (.leaf (.scalar id) d) = .ok j) :
    Apart text casts (.leaf (.scalar id) d) j := by
  rcases scalarJson_form hid hj with ⟨x, rfl⟩ | ⟨x, rfl⟩ | ⟨x, rfl⟩ | ⟨rfl, months, days, micros, rfl⟩
  · exact apart_of_parts rfl
  · exact apart_of_parts rfl
  · exact apart_of_parts rfl
  intro y hy t h
  have hyok := hok.within hy
  obtain ⟨z, hz, hin⟩ := within_iff.mp hy
  have hz : z = num (Bytes.decInt months) ∨ z = num (Bytes.decInt days) ∨ z = str (Bytes.decInt micros) := by
    simpa [parts, intervalJson] using hz
  have hyz : y = z := by
    rcases hin with rfl | hin
    · rfl
    · obtain ⟨w, hw, -⟩ := within_iff.mp hin
      rcases hz with rfl | rfl | rfl <;> exact absurd hw List.not_mem_nil
  have hnum : ∀ l, y ≠ num l := by
    rintro l rfl
    rw [decodeTree_num (numbersOk_num.mp hyok), toOption_eq_some, coerceJsonNumber] at h
    split_ifs at h
    · split at h <;> cases h
    · split at h <;> cases h
    · rw [coerceNumberFromString] at h
      split_ifs at h with hnumeric
      have htype : .scalar .interval = t := htyped.castText _ t _ (mapError_eq_ok.mp h)
      rw [← htype] at hnumeric
      cases hnumeric
  rcases hz with rfl | rfl | rfl
  · exact hnum _ hyz
  · exact hnum _ hyz
  · rw [hyz] at h hy
    rw [decodeTree_str, toOption_eq_some, coerceJsonString] at h
    have hcast := mapError_eq_ok.mp h
    split_ifs at hcast
    · have htype : LogicalType.scalar .interval = .scalar .varchar := (htyped.varchar _ _ hcast).1
      cases htype
    · obtain rfl : .scalar .interval = t := htyped.castText _ t _ hcast
      exact hstrict.castText _ _ _ hname hhas hj _ hy hcast

include htyped hkeeps hstruct hstrict in
/-- **A value is not decoded from a tree inside of its JSON**, at whatever type. -/
theorem apart (hformat : ∀ d, IsNumber (text.formatDouble d)) (T : LogicalType) : Nameable T → ∀ v, Has T v →
    ∀ j, valueJson text T v = .ok j → Apart text casts v j := by
  have hnull : ∀ {T : LogicalType} {j : Json}, valueJson text T (.null T) = .ok j →
      Apart text casts (.null T) j := by
    intro T j hj
    rw [valueJson_null] at hj
    obtain rfl := Except.ok.inj hj
    exact apart_of_parts rfl
  induction T using LogicalType.induction_on with
  | scalar id =>
      intro hname v hv j hj
      have hok := valueJson_numbersOk hformat _ _ _ hj
      cases hv with
      | null => exact hnull hj
      | @scalar _ d h =>
          refine scalar_apart htyped hstrict ?_ hname (.scalar h) hok hj
          rintro rfl
          cases d <;> exact h
  | decimal w s =>
      intro hname v hv j hj
      cases hv with
      | null => exact hnull hj
      | decimal h =>
          obtain rfl := Except.ok.inj hj
          exact apart_of_parts rfl
  | list c ih =>
      intro hname v hv j hj
      have hok := valueJson_numbersOk hformat _ _ _ hj
      cases hv with
      | null => exact hnull hj
      | @list _ vs h =>
          obtain ⟨js, hjs, rfl⟩ := valueJson_list.mp hj
          have helements : List.Forall₂ (Apart text casts) vs js :=
            forall₂_mono_mem hjs fun v hv j hj => ih hname.list v (h v hv) j hj
          exact sequence_apart htyped hkeeps hstrict (Or.inl rfl) hname (.list h) hok hj helements
  | array c n ih =>
      intro hname v hv j hj
      have hok := valueJson_numbersOk hformat _ _ _ hj
      cases hv with
      | null => exact hnull hj
      | @array _ _ vs hlen h =>
          obtain ⟨js, hjs, rfl⟩ := valueJson_array.mp hj
          have helements : List.Forall₂ (Apart text casts) vs js :=
            forall₂_mono_mem hjs fun v hv j hj => ih hname.array v (h v hv) j hj
          exact sequence_apart htyped hkeeps hstrict (Or.inr ⟨_, rfl⟩) hname (.array hlen h) hok hj helements
  | struct fs ih =>
      intro hname v hv j hj
      have hok := valueJson_numbersOk hformat _ _ _ hj
      cases hv with
      | null => exact hnull hj
      | @struct _ vs h =>
          obtain ⟨ms, hms, rfl⟩ := valueJson_struct.mp hj
          obtain ⟨rows, hfields, rfl, rfl, hrows⟩ := exists_rows h hms
          have hparts : ∀ row ∈ rows, Apart text casts row.value row.json ∧
              valueJson text row.field.2 row.value = .ok row.json := by
            intro row hrow
            obtain ⟨hhas, hjson⟩ := hrows row hrow
            have hfield : row.field ∈ fs.toList := hfields ▸ List.mem_map_of_mem hrow
            exact ⟨ih row.field hfield (hname.struct row.field hfield).2 row.value hhas row.json hjson, hjson⟩
          refine apart_nested htyped hstrict hname (.struct h) hok hj rfl (by simp) (fun ys hin t hdecode => ?_)
            fun ms hin hlooks t hdecode => ?_
          · rcases decodeTree_arr_cases hkeeps (hok.within hin) hdecode with
              ⟨c', vs', hys, heq | heq⟩ | ⟨k, u, es, -, heq⟩ <;> cases heq
          · obtain ⟨fs', rfl, hmembers⟩ := (decodeTree_plain (hok.within hin) hlooks).mp hdecode
            obtain ⟨-, vs, heq, -, hgiven⟩ :=
              decodeMembers_some (hok.within hin) htyped hstruct hlooks hmembers
            cases heq
            refine fields_apart hparts (fun row hrow => ?_) hin
            refine hgiven (row.field, row.value) ?_
            rw [hfields, List.zip_map']
            exact List.mem_map_of_mem hrow
  | map k t ihk iht =>
      intro hname v hv j hj
      have hok := valueJson_numbersOk hformat _ _ _ hj
      cases hv with
      | null => exact hnull hj
      | @map _ _ es hkey hvalue hnotNull hdistinct =>
          obtain ⟨ps, hps, rfl⟩ := valueJson_map.mp hj
          have hentries :
              List.Forall₂ (fun e p => Apart text casts e.1 p.1 ∧ Apart text casts e.2 p.2) es ps :=
            forall₂_mono_mem hps fun e he p hp =>
              ⟨ihk hname.map.1 e.1 (hkey e he) p.1 hp.1, iht hname.map.2 e.2 (hvalue e he) p.2 hp.2⟩
          refine apart_nested htyped hstrict hname (.map hkey hvalue hnotNull hdistinct) hok hj rfl (by simp)
            (fun ys hin t' hdecode => ?_)
            fun ms hin hlooks t' hdecode => ?_
          · rcases decodeTree_arr_cases hkeeps (hok.within hin) hdecode with
              ⟨c', vs', hys, heq | heq⟩ | ⟨k', u, es', hys, heq⟩
            · cases heq
            · cases heq
            · have hsame := heq
              simp only [Value.nested.injEq, LogicalType.map.injEq] at hsame
              obtain ⟨⟨rfl, rfl⟩, hes⟩ := hsame
              obtain rfl := entries_injective hes
              exact entries_apart hentries hys hin
          · obtain ⟨fs, hfs⟩ := type_of_plain htyped (hok.within hin) hlooks hdecode
            cases hfs
  | union ms ih =>
      intro hname
      obtain ⟨s, h⟩ := hname
      cases h
  | enum ls =>
      intro hname
      obtain ⟨s, h⟩ := hname
      cases h
  | other n =>
      intro hname
      obtain ⟨s, h⟩ := hname
      cases h

end ParamDecoder

end Harbor
