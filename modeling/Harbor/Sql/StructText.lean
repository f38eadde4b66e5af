import Harbor.Sql.DecodeText
import Harbor.Sql.DuckTyping
import Mathlib.Data.List.Nodup
import Mathlib.Logic.Function.Basic

set_option autoImplicit false

/-! # Objects as STRUCTs

An object that is not taken for a typed wrapper becomes a STRUCT: each of its members names a field,
whatever its case, no field is named twice, and the fields that no member names are NULL. The order of
the members does not matter.
-/

namespace Harbor.ParamDecoder

open Json Bytes

/-! ## The order of the members -/

/-- Steps that commute may be taken in any order. -/
theorem foldlM_perm {α σ : Type} {f : σ → α → Option σ}
    (hcomm : ∀ s a b, ((f s a).bind fun s => f s b) = (f s b).bind fun s => f s a) {l l' : List α}
    (h : l.Perm l') (s : σ) : l.foldlM f s = l'.foldlM f s := by
  induction h generalizing s with
  | nil => rfl
  | cons a _ ih =>
      rw [List.foldlM_cons, List.foldlM_cons]
      congr 1
      funext s'
      exact ih s'
  | swap a b l =>
      have hswap := congrArg (fun o => o.bind fun s => l.foldlM f s) (hcomm s b a)
      simp only [List.foldlM_cons]
      simpa [Option.bind_assoc] using hswap
  | trans _ _ ih₁ ih₂ => exact (ih₁ s).trans (ih₂ s)

/-- Puts a value in a place that is still free. -/
def fill {α : Type} (seen : List (Option α)) (e : Nat × α) : Option (List (Option α)) :=
  if (seen.getD e.1 none).isSome then none else some (seen.set e.1 (some e.2))

theorem getD_set {α : Type} (seen : List (Option α)) (i j : Nat) (x : Option α) :
    (seen.set i x).getD j none = if i = j ∧ i < seen.length then x else seen.getD j none := by
  simp only [List.getD_eq_getElem?_getD, List.getElem?_set]
  grind

theorem fill_comm {α : Type} (seen : List (Option α)) (a b : Nat × α) :
    ((fill seen a).bind fun s => fill s b) = (fill seen b).bind fun s => fill s a := by
  unfold fill
  by_cases hab : a.1 = b.1
  · rw [hab]
    split_ifs with hb
    · rfl
    · simp only [Option.bind_some, getD_set, true_and]
      by_cases hlt : b.1 < seen.length
      · simp [hlt]
      · have hset : ∀ x : Option α, seen.set b.1 x = seen :=
          fun x => List.set_eq_of_length_le (Nat.not_lt.mp hlt)
        simp [hlt, hset]
  · have hba : ¬ b.1 = a.1 := fun h => hab h.symm
    have hkeep : ∀ x, (seen.set a.1 x).getD b.1 none = seen.getD b.1 none := by
      intro x
      rw [getD_set, if_neg fun h => hab h.1]
    have hkeep' : ∀ x, (seen.set b.1 x).getD a.1 none = seen.getD a.1 none := by
      intro x
      rw [getD_set, if_neg fun h => hba h.1]
    by_cases ha : (seen.getD a.1 none).isSome
    · by_cases hb : (seen.getD b.1 none).isSome
      · rw [if_pos ha, if_pos hb]
        rfl
      · rw [if_pos ha, if_neg hb, Option.bind_some, hkeep', if_pos ha]
        rfl
    · by_cases hb : (seen.getD b.1 none).isSome
      · rw [if_neg ha, if_pos hb, Option.bind_some, hkeep, if_pos hb]
        rfl
      · rw [if_neg ha, if_neg hb, Option.bind_some, Option.bind_some, hkeep, hkeep', if_neg ha,
          if_neg hb, List.set_comm _ _ hab]

section Step

variable (text : DuckText) (casts : DuckCasts) (fields : List (Bytes × LogicalType))

/-- The field a member names, and what its value is there. -/
def entry (m : Member Source) : Option (Nat × Value) :=
  let place := fields.findIdx fun field => lower field.1 = lower (memberName m)
  fields[place]?.bind fun field =>
    (decodeText text casts m.value.text field.2).map fun v => (place, v)

theorem structStep_eq (seen : List (Option Value)) (m : Member Source) :
    structStep text casts fields seen m = (entry text casts fields m).bind (fill seen) := by
  unfold structStep entry fill
  simp only
  generalize fields.findIdx (fun field =>
    decide (lower field.1 = lower (memberName m))) = place
  cases fields[place]? with
  | none => rfl
  | some field =>
      cases hdecode : decodeText text casts m.value.text field.2 with
      | none => simp [hdecode]
      | some v => simp [hdecode]

theorem structStep_comm (seen : List (Option Value)) (a b : Member Source) :
    ((structStep text casts fields seen a).bind fun s => structStep text casts fields s b) =
      (structStep text casts fields seen b).bind fun s => structStep text casts fields s a := by
  simp only [structStep_eq]
  cases entry text casts fields a with
  | none => cases entry text casts fields b <;> simp
  | some e =>
      cases entry text casts fields b with
      | none => simp
      | some e' => exact fill_comm seen e e'

variable {text casts fields}

theorem eq_of_lower_eq (hdistinct : (fields.map fun f => lower f.1).Nodup)
    {f g : Bytes × LogicalType} (hf : f ∈ fields) (hg : g ∈ fields) (h : lower f.1 = lower g.1) :
    f = g :=
  List.inj_on_of_nodup_map hdistinct hf hg h

/-- A member that names a field. -/
theorem structStep_known (hdistinct : (fields.map fun f => lower f.1).Nodup)
    (g : Bytes × LogicalType → Option Value) {m : Member Source} {f : Bytes × LogicalType}
    (hf : f ∈ fields) (hname : lower f.1 = lower (memberName m)) :
    structStep text casts fields (fields.map g) m =
      if (g f).isSome then none
      else (decodeText text casts m.value.text f.2).map fun v =>
        fields.map (Function.update g f (some v)) := by
  have hexists : ∃ x ∈ fields, decide (lower x.1 = lower (memberName m)) = true :=
    ⟨f, hf, decide_eq_true hname⟩
  have hlt := List.findIdx_lt_length_of_exists hexists
  have hat : fields[fields.findIdx fun x => decide (lower x.1 = lower (memberName m))] = f := by
    refine eq_of_lower_eq hdistinct (List.getElem_mem hlt) hf ?_
    rw [hname]
    exact of_decide_eq_true (List.findIdx_getElem (w := hlt))
  unfold structStep
  simp only
  generalize fields.findIdx (fun x => decide (lower x.1 = lower (memberName m))) = place at hlt hat ⊢
  have hget : (fields.map g).getD place none = g f := by
    rw [List.getD_eq_getElem?_getD, List.getElem?_map, List.getElem?_eq_getElem hlt, hat]
    rfl
  have hset : ∀ v, (fields.map g).set place (some v) = fields.map (Function.update g f (some v)) := by
    intro v
    have hnodup : fields.Nodup := List.Nodup.of_map _ hdistinct
    refine List.ext_getElem (by simp) fun j h₁ h₂ => ?_
    have hj : j < fields.length := by simpa using h₂
    have hsame : fields[j] = f ↔ place = j := by rw [← hat, hnodup.getElem_inj_iff, eq_comm]
    simp only [List.getElem_set, List.getElem_map, Function.update_apply, hsame]
  rw [List.getElem?_eq_getElem hlt, hat]
  simp only [hget, hset]

/-- A member that names none. -/
theorem structStep_unknown (seen : List (Option Value)) {m : Member Source}
    (h : ∀ f ∈ fields, lower f.1 ≠ lower (memberName m)) :
    structStep text casts fields seen m = none := by
  have hnone : fields.findIdx (fun x => decide (lower x.1 = lower (memberName m))) = fields.length :=
    List.findIdx_eq_length.mpr fun f hf => decide_eq_false (h f hf)
  unfold structStep
  simp only [hnone, List.getElem?_length]

variable (text casts) in
/-- What the members give a field. -/
def memberValue (ms : List (Member Source)) (f : Bytes × LogicalType) : Option Value :=
  (ms.find? fun m => lower (memberName m) = lower f.1).bind fun m =>
    decodeText text casts m.value.text f.2

theorem memberValue_cons_self {m : Member Source} {f : Bytes × LogicalType}
    (h : lower (memberName m) = lower f.1) (ms : List (Member Source)) :
    memberValue text casts (m :: ms) f = decodeText text casts m.value.text f.2 := by
  rw [memberValue, List.find?_cons_of_pos (by simpa using h)]
  rfl

theorem memberValue_cons_ne {m : Member Source} {f : Bytes × LogicalType}
    (h : lower (memberName m) ≠ lower f.1) (ms : List (Member Source)) :
    memberValue text casts (m :: ms) f = memberValue text casts ms f := by
  rw [memberValue, List.find?_cons_of_neg (by simpa using h), memberValue]

/-- Once a field is given, the other members have to name other fields. -/
theorem foldlM_structStep_rest (hdistinct : (fields.map fun f => lower f.1).Nodup)
    (ms : List (Member Source)) {m : Member Source} {f : Bytes × LogicalType} (hf : f ∈ fields)
    (hname : lower f.1 = lower (memberName m)) (v : Value) (g : Bytes × LogicalType → Option Value) :
    (∀ m' ∈ ms, ∃ f' ∈ fields, lower f'.1 = lower (memberName m') ∧
        Function.update g f (some v) f' = none ∧ (decodeText text casts m'.value.text f'.2).isSome) ↔
      (∀ m' ∈ ms, ∃ f' ∈ fields, lower f'.1 = lower (memberName m') ∧ g f' = none ∧
        (decodeText text casts m'.value.text f'.2).isSome) ∧
      lower (memberName m) ∉ ms.map fun m => lower (memberName m) := by
  constructor
  · intro h
    refine ⟨fun m' hm' => ?_, fun hmem => ?_⟩
    · obtain ⟨f', hf', hname', hnone, hsome⟩ := h m' hm'
      rw [Function.update_apply] at hnone
      split_ifs at hnone
      exact ⟨f', hf', hname', hnone, hsome⟩
    · obtain ⟨m', hm', hsame⟩ := List.mem_map.mp hmem
      obtain ⟨f', hf', hname', hnone, -⟩ := h m' hm'
      have hff : f' = f := eq_of_lower_eq hdistinct hf' hf (by rw [hname', hsame, hname])
      rw [hff, Function.update_self] at hnone
      cases hnone
  · rintro ⟨h, hnot⟩ m' hm'
    obtain ⟨f', hf', hname', hnone, hsome⟩ := h m' hm'
    refine ⟨f', hf', hname', ?_, hsome⟩
    rw [Function.update_of_ne, hnone]
    rintro rfl
    exact hnot (List.mem_map.mpr ⟨m', hm', by rw [← hname', hname]⟩)

/-- **All members**: each names a field that is still free and is decoded at its type, and no two of them
name the same one. -/
theorem foldlM_structStep (hdistinct : (fields.map fun f => lower f.1).Nodup)
    (ms : List (Member Source)) (g : Bytes × LogicalType → Option Value) (seen : List (Option Value)) :
    ms.foldlM (structStep text casts fields) (fields.map g) = some seen ↔
      (∀ m ∈ ms, ∃ f ∈ fields, lower f.1 = lower (memberName m) ∧ g f = none ∧
        (decodeText text casts m.value.text f.2).isSome) ∧
      (ms.map fun m => lower (memberName m)).Nodup ∧
      seen = fields.map fun f => (g f).or (memberValue text casts ms f) := by
  -- on the members read; `g` is what the fields have got so far
  induction ms generalizing g with
  | nil =>
      have hnone : ∀ f, (g f).or (memberValue text casts [] f) = g f := by simp [memberValue]
      simp only [hnone]
      constructor
      · intro h
        cases h
        exact ⟨by simp, List.nodup_nil, rfl⟩
      · rintro ⟨-, -, rfl⟩
        rfl
  | cons m ms ih =>
      rw [List.foldlM_cons]
      by_cases hknown : ∃ f ∈ fields, lower f.1 = lower (memberName m)
      · obtain ⟨f, hf, hname⟩ := hknown
        have honly : ∀ f' ∈ fields, lower f'.1 = lower (memberName m) → f' = f :=
          fun f' hf' h => eq_of_lower_eq hdistinct hf' hf (h.trans hname.symm)
        rw [structStep_known hdistinct g hf hname]
        -- a field that has a value already is a duplicate
        by_cases hfree : (g f).isSome
        · rw [if_pos hfree]
          refine iff_of_false (by simp) fun h => ?_
          obtain ⟨f', hf', hname', hnone, -⟩ := h.1 m (by simp)
          rw [honly f' hf' hname'] at hnone
          simp [hnone] at hfree
        · rw [if_neg hfree]
          cases hdecode : decodeText text casts m.value.text f.2 with
          | none =>
              refine iff_of_false (by simp) fun h => ?_
              obtain ⟨f', hf', hname', -, hsome⟩ := h.1 m (by simp)
              rw [honly f' hf' hname', hdecode] at hsome
              cases hsome
          | some v =>
              rw [Option.map_some, Option.bind_eq_bind, Option.bind_some, ih,
                foldlM_structStep_rest hdistinct ms hf hname v g]
              -- the field now has what `memberValue` finds at the first member of its name
              have hgiven : ∀ f' ∈ fields, lower (memberName m) ∉ ms.map (fun m => lower (memberName m)) →
                  (Function.update g f (some v) f').or (memberValue text casts ms f') =
                    (g f').or (memberValue text casts (m :: ms) f') := by
                intro f' hf' hnot
                by_cases hff : f' = f
                · have hnone : g f = none := by simpa using hfree
                  rw [hff, Function.update_self, hnone, memberValue_cons_self hname.symm, hdecode]
                  rfl
                · rw [Function.update_of_ne hff,
                    memberValue_cons_ne fun h => hff (honly f' hf' h.symm)]
              rw [List.forall_mem_cons, List.map_cons, List.nodup_cons]
              constructor
              · rintro ⟨⟨hall, hnot⟩, hnodup, rfl⟩
                refine ⟨⟨⟨f, hf, hname, by simpa using hfree, by rw [hdecode]; rfl⟩, hall⟩,
                  ⟨hnot, hnodup⟩, ?_⟩
                exact List.map_congr_left fun f' hf' => hgiven f' hf' hnot
              · rintro ⟨⟨-, hall⟩, ⟨hnot, hnodup⟩, rfl⟩
                refine ⟨⟨hall, hnot⟩, hnodup, ?_⟩
                exact List.map_congr_left fun f' hf' => (hgiven f' hf' hnot).symm
      · have hnot : ∀ f ∈ fields, lower f.1 ≠ lower (memberName m) :=
          fun f hf h => hknown ⟨f, hf, h⟩
        rw [structStep_unknown _ hnot]
        refine iff_of_false (by simp) fun h => ?_
        obtain ⟨f, hf, hname, -⟩ := h.1 m (by simp)
        exact hnot f hf hname

end Step

variable (text : DuckText) (casts : DuckCasts)

/-- **The order of the members does not matter.** -/
theorem decodeMembers_perm (fs : Fields) {ms ms' : List (Member Source)} (h : ms.Perm ms') :
    decodeMembers text casts fs ms = decodeMembers text casts fs ms' := by
  rw [decodeMembers, decodeMembers, foldlM_perm (structStep_comm text casts fs.toList) h]

/-! ## The types of what is decoded -/

variable {text casts}

/-- A value in which the two words are not found is decoded to a value of the type it is decoded at. -/
theorem type_of_decodeText (hcasts : casts.Typed) {x : Source} (hx : x.Ok)
    (hwords : ¬ (x.Mentions (lit "type") ∧ x.Mentions (lit "value"))) {expected : LogicalType} {v : Value}
    (h : decodeText text casts x.text expected = some v) :
    v.type = expected ∨ expected.isPlaceholder = true ∧ v.isNull = false := by
  cases hx with
  | null =>
      rw [decodes_null.eq] at h
      cases h
      exact Or.inl rfl
  | bool b =>
      rw [(decodes_bool b).eq, toOption_eq_some, coerceBool] at h
      split_ifs at h with hbool
      · cases h
        -- a BOOLEAN is taken as it is for BOOLEAN and for the two placeholder types
        rcases hbool with rfl | rfl | rfl
        · exact Or.inl rfl
        · exact Or.inr ⟨rfl, rfl⟩
        · exact Or.inr ⟨rfl, rfl⟩
      · exact Or.inl (hcasts.castBool b expected v (mapError_eq_ok.mp h))
  | num hl =>
      rw [(decodes_num hl).eq, toOption_eq_some, coerceJsonNumber] at h
      split_ifs at h with hplace
      · split at h <;> cases h
        rcases hplace with rfl | rfl | rfl <;> exact Or.inr ⟨rfl, rfl⟩
      · split at h <;> cases h
        rcases hplace with rfl | rfl | rfl <;> exact Or.inr ⟨rfl, rfl⟩
      · rw [coerceNumberFromString] at h
        split_ifs at h
        exact Or.inl (hcasts.castText _ expected v (mapError_eq_ok.mp h))
  | str hps =>
      rw [(decodes_str hps).eq, toOption_eq_some, coerceJsonString] at h
      have hcast := mapError_eq_ok.mp h
      split_ifs at hcast with hplace
      · rcases hplace with rfl | rfl | rfl
        · exact Or.inl (hcasts.varchar _ v hcast).1
        · exact Or.inr ⟨rfl, (hcasts.varchar _ v hcast).2⟩
        · exact Or.inr ⟨rfl, (hcasts.varchar _ v hcast).2⟩
      · exact Or.inl (hcasts.castText _ expected v hcast)
  | arr hblank hxs hvalues =>
      rw [(decodes_arr hblank hxs hvalues (fun x hx => decodeOne_source (hvalues x hx)) fun x hx =>
        (localParts_source (hvalues x hx)).2).eq] at h
      left
      cases expected with
      | list child =>
          obtain ⟨vs, -, hvs⟩ := Option.bind_eq_some_iff.mp h
          exact hcasts.list child vs v (toOption_eq_some.mp hvs)
      | array child size =>
          obtain ⟨vs, -, hvs⟩ := Option.bind_eq_some_iff.mp h
          split_ifs at hvs with hsize
          rw [hcasts.array child vs v (toOption_eq_some.mp hvs), not_not.mp hsize]
      | map key value =>
          obtain ⟨es, -, hes⟩ := Option.bind_eq_some_iff.mp h
          exact hcasts.map key value es v (toOption_eq_some.mp hes)
      | _ => cases h
  | obj hblank hms hvalues =>
      rw [(decodes_obj (.obj hblank hms hvalues) fun m hm => decodeOne_source (hvalues m hm)).eq,
        decodeObject.eq_def, if_neg hwords] at h
      left
      cases expected with
      | struct fs =>
          -- the text does not mention both words, so the object is no wrapper
          obtain ⟨seen, -, hseen⟩ := Option.bind_eq_some_iff.mp h
          exact hcasts.castStruct _ _ v (toOption_eq_some.mp hseen)
      | _ => cases h

/-! ## Fields -/

/-- The members of an object fit the fields: each names one of them, ignoring case, no two of them the
same, and each is decoded to a value of the type of its field. -/
structure Fits (text : DuckText) (casts : DuckCasts) (fields : List (Bytes × LogicalType))
    (ms : List (Member Source)) : Prop where
  known : ∀ m ∈ ms, ∃ f ∈ fields, lower f.1 = lower (memberName m)
  once : (ms.map fun m => lower (memberName m)).Nodup
  decodes : ∀ m ∈ ms, ∀ f ∈ fields, lower f.1 = lower (memberName m) →
    ∃ v, decodeText text casts m.value.text f.2 = some v ∧ v.type = f.2

variable (text casts) in
/-- The value of a field: what the member that names it was decoded to, or NULL. -/
def fieldValue (ms : List (Member Source)) (f : Bytes × LogicalType) : Value :=
  (memberValue text casts ms f).getD (.null f.2)

theorem memberValue_mem {ms : List (Member Source)} {f : Bytes × LogicalType} {v : Value}
    (h : memberValue text casts ms f = some v) :
    ∃ m ∈ ms, lower f.1 = lower (memberName m) ∧ decodeText text casts m.value.text f.2 = some v := by
  obtain ⟨m, hfind, hdecode⟩ := Option.bind_eq_some_iff.mp h
  have hname := List.find?_some hfind
  exact ⟨m, List.mem_of_find?_eq_some hfind, (of_decide_eq_true hname).symm, hdecode⟩

/-- The values that a STRUCT is assembled from. -/
theorem zipWith_seen (fields : List (Bytes × LogicalType)) (ms : List (Member Source)) :
    List.zipWith (fun (field : Bytes × LogicalType) (value : Option Value) =>
        (field.1, value.getD (.null field.2))) fields (fields.map (memberValue text casts ms)) =
      fields.map fun f => (f.1, fieldValue text casts ms f) := by
  rw [List.zipWith_map_right, List.zipWith_self]
  rfl

theorem memberValue_of_mem {ms : List (Member Source)}
    (honce : (ms.map fun m => lower (memberName m)).Nodup) {m : Member Source} (hm : m ∈ ms)
    {f : Bytes × LogicalType} (hname : lower f.1 = lower (memberName m)) :
    memberValue text casts ms f = decodeText text casts m.value.text f.2 := by
  have hexists : (ms.find? fun m => decide (lower (memberName m) = lower f.1)).isSome :=
    List.find?_isSome.mpr ⟨m, hm, decide_eq_true hname.symm⟩
  obtain ⟨m', hfind⟩ := Option.isSome_iff_exists.mp hexists
  have hfound := List.find?_some hfind
  have hname' : lower (memberName m') = lower f.1 := of_decide_eq_true hfound
  have hsame : m' = m :=
    List.inj_on_of_nodup_map honce (List.mem_of_find?_eq_some hfind) hm (hname'.trans hname)
  rw [memberValue, hfind, hsame]
  rfl

/-- The fields have the types they are declared with. -/
def FieldsTyped (text : DuckText) (casts : DuckCasts) (fields : List (Bytes × LogicalType))
    (ms : List (Member Source)) : Prop := ∀ f ∈ fields, (fieldValue text casts ms f).type = f.2

theorem castStruct_fields (hcast : casts.StructCast) {fs : Fields} {ms : List (Member Source)}
    (h : FieldsTyped text casts fs.toList ms) :
    casts.castStruct (fs.toList.map fun f => (f.1, fieldValue text casts ms f)) (.struct fs) =
      .ok (.nested (.struct fs) (fs.toList.map (fieldValue text casts ms))) := by
  rw [hcast.same]
  · rw [List.map_map]
    rfl
  · rw [List.map_map]
    refine (List.map_congr_left fun f hf => ?_).trans (List.map_id fs.toList)
    exact congrArg (fun t => (f.1, t)) (h f hf)

/-- When the cast to the STRUCT succeeds, each field has its type. -/
theorem fieldsTyped_of_cast (htyped : casts.Typed) (hcast : casts.StructCast) {fs : Fields}
    {ms : List (Member Source)} (hok : ∀ m ∈ ms, m.value.Ok)
    (hwords : ∀ m ∈ ms, ¬ (m.value.Mentions (lit "type") ∧ m.value.Mentions (lit "value"))) {v : Value}
    (h : casts.castStruct (fs.toList.map fun f => (f.1, fieldValue text casts ms f)) (.struct fs) =
      .ok v) : FieldsTyped text casts fs.toList ms := by
  intro f hf
  cases hmember : memberValue text casts ms f with
  | none => rw [fieldValue, hmember]; rfl
  | some w =>
      obtain ⟨m, hm, -, hdecode⟩ := memberValue_mem hmember
      rcases type_of_decodeText htyped (hok m hm) (hwords m hm) hdecode with htype | ⟨hplace, hnotNull⟩
      · rw [fieldValue, hmember]
        exact htype
      · have hzip : ((f.1, fieldValue text casts ms f), f) ∈
            (fs.toList.map fun f => (f.1, fieldValue text casts ms f)).zip fs.toList := by
          obtain ⟨i, hi, rfl⟩ := List.getElem_of_mem hf
          refine List.mem_iff_getElem.mpr ⟨i, by simpa using hi, ?_⟩
          rw [List.getElem_zip, List.getElem_map]
        refine (hcast.placeholder _ fs v h _ hzip hplace).resolve_left fun hnull => ?_
        rw [fieldValue, hmember] at hnull
        exact Bool.false_ne_true (hnotNull.symm.trans hnull)

theorem decodeMembers_iff (htyped : casts.Typed) (hcast : casts.StructCast) {fs : Fields}
    (hdistinct : (fs.toList.map fun f => lower f.1).Nodup) {ms : List (Member Source)}
    (hok : ∀ m ∈ ms, m.value.Ok)
    (hwords : ∀ m ∈ ms, ¬ (m.value.Mentions (lit "type") ∧ m.value.Mentions (lit "value"))) (v : Value) :
    decodeMembers text casts fs ms = some v ↔ Fits text casts fs.toList ms ∧
      v = .nested (.struct fs) (fs.toList.map (fieldValue text casts ms)) := by
  -- at the start no field has a value
  have hseen : ∀ seen, ms.foldlM (structStep text casts fs.toList)
      (List.replicate fs.toList.length none) = some seen ↔
        (∀ m ∈ ms, ∃ f ∈ fs.toList, lower f.1 = lower (memberName m) ∧
          (decodeText text casts m.value.text f.2).isSome) ∧
        (ms.map fun m => lower (memberName m)).Nodup ∧
        seen = fs.toList.map (memberValue text casts ms) := by
    intro seen
    have h := @foldlM_structStep text casts _ hdistinct ms (fun _ => none) seen
    simpa [List.map_const'] using h
  rw [decodeMembers, Option.bind_eq_some_iff]
  constructor
  · rintro ⟨seen, hfold, hv⟩
    obtain ⟨hall, honce, rfl⟩ := (hseen seen).mp hfold
    rw [zipWith_seen, toOption_eq_some] at hv
    -- the cast takes values of the types of the fields only, so the members were decoded to these
    have htypes := fieldsTyped_of_cast htyped hcast hok hwords hv
    refine ⟨⟨fun m hm => ?_, honce, fun m hm f hf hname => ?_⟩, ?_⟩
    · obtain ⟨f, hf, hname, -⟩ := hall m hm
      exact ⟨f, hf, hname⟩
    · obtain ⟨g, hg, hname', hsome⟩ := hall m hm
      obtain rfl : g = f := eq_of_lower_eq hdistinct hg hf (hname'.trans hname.symm)
      obtain ⟨w, hw⟩ := Option.isSome_iff_exists.mp hsome
      have htype := htypes g hg
      rw [fieldValue, memberValue_of_mem honce hm hname, hw] at htype
      exact ⟨w, hw, htype⟩
    · rw [castStruct_fields hcast htypes] at hv
      exact (Except.ok.inj hv).symm
  · rintro ⟨hfits, rfl⟩
    have htypes : FieldsTyped text casts fs.toList ms := by
      intro f hf
      cases hmember : memberValue text casts ms f with
      | none => rw [fieldValue, hmember]; rfl
      | some w =>
          obtain ⟨m, hm, hname, hdecode⟩ := memberValue_mem hmember
          obtain ⟨w', hw', htype⟩ := hfits.decodes m hm f hf hname
          rw [hdecode] at hw'
          cases hw'
          rw [fieldValue, hmember]
          exact htype
    refine ⟨fs.toList.map (memberValue text casts ms), (hseen _).mpr ⟨fun m hm => ?_, hfits.once, rfl⟩, ?_⟩
    · obtain ⟨f, hf, hname⟩ := hfits.known m hm
      obtain ⟨w, hw, -⟩ := hfits.decodes m hm f hf hname
      exact ⟨f, hf, hname, by rw [hw]; rfl⟩
    · rw [zipWith_seen, toOption_eq_some, castStruct_fields hcast htypes]

/-! ## Objects -/

theorem not_mentions_of_search {blank : Bytes} {ms : List (Member Source)}
    (h : (Source.obj blank ms).Ok)
    (hwords : ¬ (contains (Source.obj blank ms).text (lit "\"type\"") = true ∧
      contains (Source.obj blank ms).text (lit "\"value\"") = true)) :
    ¬ ((Source.obj blank ms).Mentions (lit "type") ∧ (Source.obj blank ms).Mentions (lit "value")) := by
  have htype : lit "\"type\"" = 0x22 :: lit "type" ++ [0x22] := rfl
  have hvalue : lit "\"value\"" = 0x22 :: lit "value" ++ [0x22] := rfl
  rwa [htype, hvalue, contains_text_iff (by decide) h, contains_text_iff (by decide) h] at hwords

theorem decodeOne_struct {blank : Bytes} {ms : List (Member Source)} (h : (Source.obj blank ms).Ok)
    (hwords : ¬ ((Source.obj blank ms).Mentions (lit "type") ∧
      (Source.obj blank ms).Mentions (lit "value"))) (fs : Fields) {depth : Nat}
    (hdepth : (Source.obj blank ms).text.length < depth) (p : Nat) {rest : Bytes} (hrest : Ended rest) :
    (decodeOne text casts depth ⟨p, (Source.obj blank ms).text ++ rest⟩ (.struct fs)).toOption =
      (decodeMembers text casts fs ms).map fun v =>
        (v, ⟨p + (Source.obj blank ms).text.length, rest⟩) := by
  have hmembers := h
  cases hmembers with
  | obj hblank hms hvalues =>
      obtain ⟨depth, rfl⟩ := Nat.exists_eq_add_one_of_ne_zero (Nat.ne_of_gt (Nat.zero_lt_of_lt hdepth))
      rw [decodes_obj h (fun m hm => decodeOne_source (hvalues m hm)) (.struct fs) depth p rest hdepth
        hrest, decodeObject.eq_def, if_neg hwords]

/-- **An object becomes a STRUCT exactly when its members fit the fields**, each field then has what its
member was decoded to or is NULL, and the order of the members changes nothing. -/
theorem decodeOne_struct_iff (htyped : casts.Typed) (hcast : casts.StructCast) {fs : Fields}
    (hdistinct : (fs.toList.map fun f => lower f.1).Nodup) {blank : Bytes} {ms : List (Member Source)}
    (h : (Source.obj blank ms).Ok)
    (hwords : ¬ (contains (Source.obj blank ms).text (lit "\"type\"") = true ∧
      contains (Source.obj blank ms).text (lit "\"value\"") = true)) {depth : Nat}
    (hdepth : (Source.obj blank ms).text.length < depth) (p : Nat) {rest : Bytes} (hrest : Ended rest) :
    (∀ v c, decodeOne text casts depth ⟨p, (Source.obj blank ms).text ++ rest⟩ (.struct fs) =
        .ok (v, c) ↔
      Fits text casts fs.toList ms ∧
        v = .nested (.struct fs) (fs.toList.map (fieldValue text casts ms)) ∧
        c = ⟨p + (Source.obj blank ms).text.length, rest⟩) ∧
      ∀ (blank' : Bytes) (ms' : List (Member Source)) (depth' p' : Nat) (rest' : Bytes),
        IsBlank blank' → ms'.Perm ms → (Source.obj blank' ms').text.length < depth' → Ended rest' →
          (decodeOne text casts depth' ⟨p', (Source.obj blank' ms').text ++ rest'⟩
              (.struct fs)).toOption.map Prod.fst =
            (decodeOne text casts depth ⟨p, (Source.obj blank ms).text ++ rest⟩
              (.struct fs)).toOption.map Prod.fst := by
  have hnot := not_mentions_of_search h hwords
  have hread := @decodeOne_struct text casts _ _ h hnot fs _ hdepth p _ hrest
  have hfst : ∀ (o : Option Value) (c : Cursor), (o.map fun v => (v, c)).map Prod.fst = o := by
    intro o c
    cases o <;> rfl
  cases h with
  | obj hblank hms hvalues =>
      refine ⟨fun v c => ?_, fun blank' ms' depth' p' rest' hblank' hperm hdepth' hrest' => ?_⟩
      · have hwordless : ∀ m ∈ ms, ¬ (m.value.Mentions (lit "type") ∧ m.value.Mentions (lit "value")) := by
          intro m hm hboth
          refine hnot ⟨?_, ?_⟩
          · exact (Source.mentions_obj blank ms).mpr ⟨m, hm, Or.inr hboth.1⟩
          · exact (Source.mentions_obj blank ms).mpr ⟨m, hm, Or.inr hboth.2⟩
        have hiff := @decodeMembers_iff text casts htyped hcast _ hdistinct _ hvalues hwordless v
        rw [← toOption_eq_some, hread, ← and_assoc, ← hiff]
        simp [eq_comm]
      · have hok' : (Source.obj blank' ms').Ok :=
          .obj hblank' (fun m hm => hms m (hperm.subset hm)) fun m hm => hvalues m (hperm.subset hm)
        have hnot' : ¬ ((Source.obj blank' ms').Mentions (lit "type") ∧
            (Source.obj blank' ms').Mentions (lit "value")) := by
          rw [Source.mentions_obj, Source.mentions_obj] at hnot ⊢
          simpa only [hperm.mem_iff] using hnot
        rw [hread, decodeOne_struct hok' hnot' fs hdepth' p' hrest', hfst, hfst,
          decodeMembers_perm text casts fs hperm]

/-- `STRUCT(a INTEGER, b VARCHAR)` -/
def numberAndText : Fields := .cons (lit "a") (.scalar .integer) (.cons (lit "b") (.scalar .varchar) .nil)

/-- `{"B":"x","a":1}` -/
def textAndNumber : List (Member Source) := [.plain ['B'] (.plain ['x']), .plain ['a'] (.num [0x31])]

theorem textAndNumber_ok : (Source.obj [] textAndNumber).Ok := by
  refine .obj (by decide) ?_ ?_
  all_goals
    simp only [textAndNumber, List.forall_mem_cons, List.not_mem_nil, false_imp_iff, implies_true,
      and_true]
  · exact ⟨Member.plain_ok (by decide) _, Member.plain_ok (by decide) _⟩
  · exact ⟨Source.plain_ok (by decide), .num (isNumber_decNat 1)⟩

theorem decodeOne_struct_iff_numberAndText :
    (decodeOne .numerals .simple 20 ⟨0, (Source.obj [] textAndNumber.reverse).text ++ []⟩
        (.struct numberAndText)).toOption.map Prod.fst =
      (decodeOne .numerals .simple 20 ⟨0, (Source.obj [] textAndNumber).text ++ []⟩
        (.struct numberAndText)).toOption.map Prod.fst :=
  (@decodeOne_struct_iff .numerals .simple DuckCasts.simple_typed DuckCasts.simple_structCast _
    (by decide) _ _ textAndNumber_ok (by decide) _ (by decide) 0 _ ended_nil).2 [] textAndNumber.reverse 20 0 [] (by decide)
    (List.reverse_perm _) (by decide) ended_nil

end Harbor.ParamDecoder
