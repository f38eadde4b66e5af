import Harbor.Json.Spelling
import Harbor.Sql.StructText

set_option autoImplicit false

/-! # Decoding what the writer writes

`DecodeOne` on the text of a tree, as a function of the tree: a scalar is cast, an array is put together
from what its elements are decoded to, an object from what its members are, or it is taken for a typed
wrapper and is what one of its members is.
-/

namespace Harbor.ParamDecoder

open Json

variable (text : DuckText) (casts : DuckCasts)

/-- What `DecodeOne` makes of the text of the tree. -/
def decodeTree (j : Json) (t : LogicalType) : Option Value := decodeText text casts j.text t

variable {text casts}

/-- The literal of a string is decoded to the string, without its invalid bytes. -/
theorem decodePiece_spelling (s : Bytes) : (spelling s).flatMap decodePiece = sanitize s := by
  have hspell := parseString_spell (spelling_ok s) 0 []
  rw [quoted_spelling, parseString_escaped] at hspell
  exact (Prod.mk.inj (Except.ok.inj hspell)).1.symm

theorem decodeTree_source (j : Json) : decodeTree text casts j = decodeText text casts j.source.text := by
  funext t
  rw [decodeTree, source_text]

/-! ## Scalars -/

@[simp] theorem decodeTree_null (t : LogicalType) : decodeTree text casts null t = some (.null t) :=
  congrFun (@decodes_null text casts).eq t

theorem decodeTree_bool (b : Bool) (t : LogicalType) :
    decodeTree text casts (.bool b) t = (coerceBool text casts b t).toOption :=
  congrFun (@decodes_bool text casts b).eq t

theorem decodeTree_num {l : Bytes} (hl : IsNumber l) (t : LogicalType) :
    decodeTree text casts (num l) t = (coerceJsonNumber text casts l t).toOption :=
  congrFun (@decodes_num text casts _ hl).eq t

theorem decodeTree_str (s : Bytes) (t : LogicalType) :
    decodeTree text casts (str s) t = (coerceJsonString text casts (sanitize s) t).toOption := by
  rw [decodeTree_source, source, (decodes_str (spelling_ok s)).eq, decodePiece_spelling]

/-! ## Arrays -/

/-- A loop that collects what each element gives. -/
theorem foldlM_collect {α β : Type} (f : α → Option β) (xs : List α) (acc vs : List β) :
    xs.foldlM (fun vs x => (f x).map fun v => vs ++ [v]) acc = some vs ↔
      ∃ ws, List.Forall₂ (fun x w => f x = some w) xs ws ∧ vs = acc ++ ws := by
  induction xs generalizing acc with
  | nil => simp [eq_comm]
  | cons x xs ih =>
      rw [List.foldlM_cons]
      constructor
      · intro h
        obtain ⟨acc', hx, hrest⟩ := Option.bind_eq_some_iff.mp h
        obtain ⟨w, hw, rfl⟩ := Option.map_eq_some_iff.mp hx
        obtain ⟨ws, hws, rfl⟩ := (ih _).mp hrest
        exact ⟨w :: ws, .cons hw hws, by simp⟩
      · rintro ⟨ws, hws, rfl⟩
        cases hws with
        | cons hw hws =>
            refine Option.bind_eq_some_iff.mpr ⟨_, Option.map_eq_some_iff.mpr ⟨_, hw, rfl⟩, ?_⟩
            exact (ih _).mpr ⟨_, hws, by simp⟩

variable (text casts) in
/-- An entry of a MAP. -/
def decodePair (key value : LogicalType) : Json → Option (Value × Value)
  | arr [k, v] => do
      let k ← decodeTree text casts k key
      let v ← decodeTree text casts v value
      some (k, v)
  | _ => none

theorem decodeEntry_source (key value : LogicalType) (j : Json) :
    decodeEntry text casts key value j.source = decodePair text casts key value j := by
  cases j with
  | arr xs =>
      rw [source, sourceItems_eq]
      rcases xs with _ | ⟨x, _ | ⟨y, _ | ⟨z, xs⟩⟩⟩
      · rfl
      · rfl
      · simp only [List.map_cons, List.map_nil, decodeEntry, decodePair, ← decodeTree_source]
      · rfl
  | _ => rfl

theorem decodePair_eq_some {key value : LogicalType} {j : Json} {e : Value × Value} :
    decodePair text casts key value j = some e ↔ ∃ k v, j = arr [k, v] ∧
      decodeTree text casts k key = some e.1 ∧ decodeTree text casts v value = some e.2 := by
  constructor
  · intro h
    unfold decodePair at h
    split at h
    · rename_i k v
      simp only [Option.bind_eq_bind, Option.bind_eq_some_iff, Option.some.injEq] at h
      obtain ⟨x, hx, y, hy, rfl⟩ := h
      exact ⟨k, v, rfl, hx, hy⟩
    · cases h
  · rintro ⟨k, v, rfl, hk, hv⟩
    simp [decodePair, hk, hv]

section Array

variable {js : List Json} (h : NumbersOk (arr js))
include h

theorem decodeTree_arr : decodeTree text casts (arr js) = decodeElements text casts (sourceItems js) := by
  have hok := source_ok (arr js) h
  rw [decodeTree_source]
  rw [source] at hok ⊢
  cases hok with
  | arr hblank hxs hvalues =>
      exact (decodes_arr hblank hxs hvalues (fun x hx => decodeOne_source (hvalues x hx)) fun x hx =>
        (localParts_source (hvalues x hx)).2).eq

omit h in
/-- What the elements are decoded to. -/
theorem foldlM_items (c : LogicalType) (vs : List Value) :
    (sourceItems js).foldlM (fun vs x => (decodeText text casts x.value.text c).map fun v => vs ++ [v]) [] =
        some vs ↔ List.Forall₂ (fun j v => decodeTree text casts j c = some v) js vs := by
  rw [foldlM_collect, sourceItems_eq]
  simp only [List.nil_append, List.forall₂_map_left_iff, exists_eq_right', decodeTree_source]

theorem decodeTree_list {c : LogicalType} {v : Value} :
    decodeTree text casts (arr js) (.list c) = some v ↔
      ∃ vs, List.Forall₂ (fun j v => decodeTree text casts j c = some v) js vs ∧ casts.list c vs = .ok v := by
  rw [decodeTree_arr h, decodeElements, Option.bind_eq_some_iff]
  simp only [foldlM_items, toOption_eq_some]

theorem decodeTree_array {c : LogicalType} {n : Nat} {v : Value} :
    decodeTree text casts (arr js) (.array c n) = some v ↔
      ∃ vs, List.Forall₂ (fun j v => decodeTree text casts j c = some v) js vs ∧ vs.length = n ∧
        casts.array c vs = .ok v := by
  rw [decodeTree_arr h, decodeElements, Option.bind_eq_some_iff]
  simp only [foldlM_items, Option.ite_none_left_eq_some, not_not, toOption_eq_some]

theorem decodeTree_map {k t : LogicalType} {v : Value} :
    decodeTree text casts (arr js) (.map k t) = some v ↔
      ∃ es, List.Forall₂ (fun j e => decodePair text casts k t j = some e) js es ∧
        casts.map k t es = .ok v := by
  rw [decodeTree_arr h, decodeElements, Option.bind_eq_some_iff]
  simp only [foldlM_collect, sourceItems_eq, List.nil_append, List.forall₂_map_left_iff,
    exists_eq_right', decodeEntry_source, toOption_eq_some]

/-- An array is decoded at LIST, ARRAY and MAP alone. -/
theorem decodeTree_arr_type {t : LogicalType} {v : Value} (hv : decodeTree text casts (arr js) t = some v) :
    (∃ c, t = .list c) ∨ (∃ c n, t = .array c n) ∨ ∃ k u, t = .map k u := by
  rw [decodeTree_arr h] at hv
  cases t with
  | list c => exact Or.inl ⟨c, rfl⟩
  | array c n => exact Or.inr (Or.inl ⟨c, n, rfl⟩)
  | map k u => exact Or.inr (Or.inr ⟨k, u, rfl⟩)
  | _ => cases hv

end Array

/-! ## Objects -/

section Members

variable {fields : List (Bytes × LogicalType)} {ms : List (Member Source)} {seen seen' : List (Option Value)}

/-- The place a member names is the first field of its name. -/
def placeOf (fields : List (Bytes × LogicalType)) (m : Member Source) : Nat :=
  fields.findIdx fun field => Bytes.lower field.1 = Bytes.lower (memberName m)

theorem structStep_eq_some {m : Member Source}
    (h : structStep text casts fields seen m = some seen') : ∃ f v, fields[placeOf fields m]? = some f ∧
      seen.getD (placeOf fields m) none = none ∧ decodeText text casts m.value.text f.2 = some v ∧
        seen' = seen.set (placeOf fields m) (some v) := by
  unfold structStep at h
  rw [← placeOf] at h
  simp only at h
  split at h
  · cases h
  · rename_i f hf
    rw [Option.ite_none_left_eq_some] at h
    obtain ⟨hfree, h⟩ := h
    obtain ⟨v, hv, rfl⟩ := Option.map_eq_some_iff.mp h
    exact ⟨f, v, hf, by simpa using hfree, hv, rfl⟩

/-- **All members of an object**: each finds its place free, so no two have the same name, and what is in
a place has come from a member. -/
theorem foldlM_structStep_some (hlen : seen.length = fields.length)
    (h : ms.foldlM (structStep text casts fields) seen = some seen') :
    seen'.length = fields.length ∧ (∀ m ∈ ms, seen.getD (placeOf fields m) none = none) ∧
      (ms.map fun m => Bytes.lower (memberName m)).Nodup ∧
        ∀ i v, seen'.getD i none = some v → seen.getD i none = some v ∨
          ∃ m ∈ ms, ∃ f, fields[i]? = some f ∧ decodeText text casts m.value.text f.2 = some v := by
  induction ms generalizing seen with
  | nil =>
      cases h
      exact ⟨hlen, by simp, by simp, fun i v hv => Or.inl hv⟩
  | cons m ms ih =>
      rw [List.foldlM_cons] at h
      obtain ⟨mid, hstep, hrest⟩ := Option.bind_eq_some_iff.mp h
      obtain ⟨f, v, hf, hfree, hv, rfl⟩ := structStep_eq_some hstep
      have hplace : placeOf fields m < seen.length := by
        rw [hlen]
        exact (List.getElem?_eq_some_iff.mp hf).1
      obtain ⟨hlen', hothers, honce, hseen⟩ := ih (by rw [List.length_set, hlen]) hrest
      -- the place of the first member is taken when the others come
      have hne : ∀ m' ∈ ms, placeOf fields m ≠ placeOf fields m' := by
        intro m' hm' heq
        have htaken := hothers m' hm'
        rw [getD_set, if_pos ⟨heq, hplace⟩] at htaken
        cases htaken
      refine ⟨hlen', ?_, ?_, fun i w hw => ?_⟩
      · refine List.forall_mem_cons.mpr ⟨hfree, fun m' hm' => ?_⟩
        have hkeep := hothers m' hm'
        rwa [getD_set, if_neg fun h => hne m' hm' h.1] at hkeep
      · refine List.nodup_cons.mpr ⟨fun hmem => ?_, honce⟩
        obtain ⟨m', hm', hname⟩ := List.mem_map.mp hmem
        exact hne m' hm' (by rw [placeOf, placeOf, hname])
      · rcases hseen i w hw with hset | ⟨m', hm', hfound⟩
        · rw [getD_set] at hset
          split_ifs at hset with hi
          · obtain ⟨rfl, -⟩ := hi
            obtain rfl := Option.some.inj hset
            exact Or.inr ⟨m, by simp, f, hf, hv⟩
          · exact Or.inl hset
        · exact Or.inr ⟨m', by simp [hm'], hfound⟩

end Members

theorem memberName_sourceMember (m : Bytes × Json) : memberName (sourceMember m) = sanitize m.1 := by
  cases m
  exact decodePiece_spelling _

theorem value_sourceMember (m : Bytes × Json) : (sourceMember m).value = m.2.source := by
  cases m
  rfl

section Object

variable {ms : List (Bytes × Json)} (h : NumbersOk (obj ms))
include h

theorem looksTyped_obj : looksTyped (.start (obj ms).text) = true ↔
    (obj ms).source.Mentions (lit "type") ∧ (obj ms).source.Mentions (lit "value") := by
  have hlooks := looksTyped_source (source_ok (obj ms) h) 0 ended_nil
  rwa [List.append_nil, source_text] at hlooks

theorem decodeTree_obj : decodeTree text casts (obj ms) =
    decodeObject text casts [] (sourceMembers ms) := by
  have hok := source_ok (obj ms) h
  rw [decodeTree_source]
  rw [source] at hok ⊢
  have hvalues := hok
  cases hvalues with
  | obj hblank hms hvalues => exact (decodes_obj hok fun m hm => decodeOne_source (hvalues m hm)).eq

/-- An object that is not taken for a wrapper is decoded at STRUCT alone. -/
theorem decodeTree_plain (hlooks : looksTyped (.start (obj ms).text) = false) {t : LogicalType} {v : Value} :
    decodeTree text casts (obj ms) t = some v ↔
      ∃ fs, t = .struct fs ∧ decodeMembers text casts fs (sourceMembers ms) = some v := by
  have hnot : ¬ ((obj ms).source.Mentions (lit "type") ∧ (obj ms).source.Mentions (lit "value")) := by
    rw [← looksTyped_obj h, hlooks]
    exact Bool.false_ne_true
  rw [decodeTree_obj h, decodeObject.eq_def]
  rw [source] at hnot
  rw [if_neg hnot]
  cases t with
  | struct fs => simp
  | _ => simp

/-- An object that is taken for a wrapper is what one of its members is. -/
theorem decodeTree_wrapped (hlooks : looksTyped (.start (obj ms).text) = true) {t : LogicalType} {v : Value}
    (hv : decodeTree text casts (obj ms) t = some v) :
    ∃ m ∈ ms, ∃ u, decodeTree text casts m.2 u = some v := by
  have hwords := (looksTyped_obj h).mp hlooks
  rw [decodeTree_obj h, decodeObject.eq_def] at hv
  rw [source] at hwords
  rw [if_pos hwords] at hv
  obtain ⟨w, hw, hv⟩ := Option.bind_eq_some_iff.mp hv
  rw [unwrap] at hv
  split at hv
  · rename_i typeString raw _ hraw
    obtain ⟨u, -, hu⟩ := Option.bind_eq_some_iff.mp hv
    obtain hnone | ⟨m, hm, rfl⟩ := value_of_wrapperStep hw hraw
    · cases hnone
    · rw [sourceMembers_eq, List.mem_map] at hm
      obtain ⟨m, hm, rfl⟩ := hm
      refine ⟨m, hm, u, ?_⟩
      rw [decodeTree_source, ← value_sourceMember]
      exact hu
  · cases hv

/-- The members of an object that is not taken for a wrapper are not taken for wrappers. -/
theorem not_mentions_member (hlooks : looksTyped (.start (obj ms).text) = false) {m : Bytes × Json}
    (hm : m ∈ ms) : ¬ (m.2.source.Mentions (lit "type") ∧ m.2.source.Mentions (lit "value")) := by
  rintro ⟨htype, hvalue⟩
  have hsource : sourceMember m ∈ sourceMembers ms := by
    rw [sourceMembers_eq]
    exact List.mem_map_of_mem hm
  rw [← value_sourceMember] at htype hvalue
  have hboth := (looksTyped_obj h).mpr (by
    rw [source, Source.mentions_obj, Source.mentions_obj]
    exact ⟨⟨_, hsource, Or.inr htype⟩, _, hsource, Or.inr hvalue⟩)
  rw [hlooks] at hboth
  cases hboth

/-- **An object that becomes a STRUCT** names each field at most once, and a field is NULL or what a
member was decoded to. -/
theorem decodeMembers_some (htyped : casts.Typed) (hcast : casts.StructCast)
    (hlooks : looksTyped (.start (obj ms).text) = false) {fs : Fields} {v : Value}
    (hv : decodeMembers text casts fs (sourceMembers ms) = some v) :
    (ms.map fun m => Bytes.lower (sanitize m.1)).Nodup ∧ ∃ vs, v = .nested (.struct fs) vs ∧
      vs.length = fs.toList.length ∧ ∀ p ∈ fs.toList.zip vs,
        p.2 = .null p.1.2 ∨ ∃ m ∈ ms, decodeTree text casts m.2 p.1.2 = some p.2 := by
  obtain ⟨seen, hfold, hv⟩ := Option.bind_eq_some_iff.mp hv
  obtain ⟨hlen, -, honce, hseen⟩ := foldlM_structStep_some List.length_replicate hfold
  generalize hvalues : List.zipWith (fun (field : Bytes × LogicalType) (value : Option Value) =>
    (field.1, value.getD (.null field.2))) fs.toList seen = values at hv
  have hcount : values.length = fs.toList.length := by
    rw [← hvalues, List.length_zipWith, hlen, Nat.min_self]
  -- the value at a field: what its member became, else NULL
  have hvalue : ∀ i (hi : i < fs.toList.length) (hplace : i < values.length),
      values[i] = (fs.toList[i].1, (seen.getD i none).getD (.null fs.toList[i].2)) := by
    intro i hi hplace
    have hwithin : i < seen.length := hlen.symm ▸ hi
    have hat : seen[i]? = some seen[i] := List.getElem?_eq_getElem hwithin
    simp only [← hvalues, List.getElem_zipWith, List.getD_eq_getElem?_getD, hat, Option.getD_some]
  have hmember : ∀ i (hi : i < fs.toList.length) u, seen.getD i none = some u →
      ∃ m ∈ ms, decodeTree text casts m.2 fs.toList[i].2 = some u := by
    intro i hi u hu
    rcases hseen i u hu with hnone | ⟨m, hm, f, hf, hdecode⟩
    · rw [List.getD_eq_getElem?_getD, List.getElem?_replicate] at hnone
      split_ifs at hnone
      cases hnone
    · rw [sourceMembers_eq, List.mem_map] at hm
      obtain ⟨m, hm, rfl⟩ := hm
      obtain rfl : fs.toList[i] = f := by simpa [List.getElem?_eq_getElem hi] using hf
      rw [value_sourceMember, ← decodeTree_source] at hdecode
      exact ⟨m, hm, hdecode⟩
  -- each value already has the type of its field, so the cast to the STRUCT changes nothing
  have htypes : values.map (fun v => (v.1, v.2.type)) = fs.toList := by
    refine List.ext_getElem (by rw [List.length_map, hcount]) fun i h₁ hi => ?_
    have hplace : i < values.length := hcount.symm ▸ hi
    rw [List.getElem_map, hvalue i hi hplace]
    cases hat : seen.getD i none with
    | none => rfl
    | some u =>
        obtain ⟨m, hm, hdecode⟩ := hmember i hi u hat
        rw [decodeTree_source] at hdecode
        rcases type_of_decodeText htyped (source_ok _ (numbersOk_obj.mp h m hm))
          (not_mentions_member h hlooks hm) hdecode with htype | ⟨hstands, hnotNull⟩
        · exact congrArg (Prod.mk _) htype
        · have hzip : (values[i], fs.toList[i]) ∈ values.zip fs.toList := by
            refine List.mem_iff_getElem.mpr ⟨i, by simp [hcount, hi], ?_⟩
            rw [List.getElem_zip]
          have htype := hcast.placeholder values fs v (toOption_eq_some.mp hv) _ hzip hstands
          rw [hvalue i hi hplace, hat] at htype
          refine congrArg (Prod.mk _) (htype.resolve_left fun hnull => ?_)
          exact Bool.false_ne_true (hnotNull.symm.trans hnull)
  rw [hcast.same values fs htypes] at hv
  refine ⟨?_, values.map Prod.snd, (Option.some.inj hv).symm, by rw [List.length_map, hcount], ?_⟩
  · rw [sourceMembers_eq, List.map_map] at honce
    simpa only [Function.comp_def, memberName_sourceMember] using honce
  · intro p hp
    obtain ⟨i, hi, rfl⟩ := List.getElem_of_mem hp
    have hlt : i < fs.toList.length := by
      rw [List.length_zip] at hi
      omega
    rw [List.getElem_zip, List.getElem_map, hvalue i hlt (hcount.symm ▸ hlt)]
    cases hat : seen.getD i none with
    | none => exact Or.inl rfl
    | some u => exact Or.inr (hmember i hlt u hat)

end Object

end Harbor.ParamDecoder
