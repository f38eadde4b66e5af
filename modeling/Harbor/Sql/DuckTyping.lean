import Harbor.Sql.ParamDecoder

set_option autoImplicit false

/-! # The types of DuckDB's values

What the decoder relies on when it asks DuckDB for a value: casts and constructors return a value of the
type that was asked for. Whether the constructors of LIST, ARRAY and MAP convert a child that is not of the
type declared for it is left open: `Keeps` is the assumption that they do not.
-/

namespace Harbor

/-- A type that stands for no type of its own. -/
def LogicalType.isPlaceholder (t : LogicalType) : Bool :=
  t = .any || t = .invalid || t = .scalar .sqlNull

namespace DuckCasts

/-- The type of what DuckDB returns. -/
structure Typed (casts : DuckCasts) : Prop where
  varchar : ∀ s v, casts.varchar s = .ok v → v.type = .scalar .varchar ∧ v.isNull = false
  castText : ∀ s t v, casts.castText s t = .ok v → v.type = t
  castBool : ∀ b t v, casts.castBool b t = .ok v → v.type = t
  castStruct : ∀ vs t v, casts.castStruct vs t = .ok v → v.type = t
  list : ∀ c vs v, casts.list c vs = .ok v → v.type = .list c
  array : ∀ c vs v, casts.array c vs = .ok v → v.type = .array c vs.length
  map : ∀ k t es v, casts.map k t es = .ok v → v.type = .map k t

/-- The constructors keep their children, also those of another type than the declared one. -/
structure Keeps (casts : DuckCasts) : Prop where
  list : ∀ c vs v, casts.list c vs = .ok v → v = .nested (.list c) vs
  array : ∀ c vs v, casts.array c vs = .ok v → v = .nested (.array c vs.length) vs
  map : ∀ k t es v, casts.map k t es = .ok v →
    v = .nested (.map k t) (es.map fun e => .nested (.entry k t) [e.1, e.2])

/-- The cast from STRUCT to STRUCT. -/
structure StructCast (casts : DuckCasts) : Prop where
  /-- Between identical types it is the identity. -/
  same : ∀ (values : List (Bytes × Value)) (fs : Fields),
    values.map (fun v => (v.1, v.2.type)) = fs.toList →
      casts.castStruct values (.struct fs) = .ok (.nested (.struct fs) (values.map Prod.snd))
  /-- Nothing but NULL is cast to a type that stands for none. -/
  placeholder : ∀ (values : List (Bytes × Value)) (fs : Fields) (v : Value),
    casts.castStruct values (.struct fs) = .ok v →
      ∀ p ∈ values.zip fs.toList, p.2.2.isPlaceholder = true → p.1.2.isNull = true ∨ p.1.2.type = p.2.2

/-- The casts of a DuckDB that knows text and whole numbers. -/
def simple : DuckCasts where
  types := .documented
  varchar s := .ok (.leaf (.scalar .varchar) (.str s))
  castText s t :=
    match t with
    | .scalar .integer =>
        match ParamDecoder.stoll s with
        | some i =>
            if IsInt 32 i then .ok (.leaf (.scalar .integer) (.int i))
            else .error (lit "Conversion Error")
        | none => .error (lit "Conversion Error")
    | _ => .error (lit "Conversion Error")
  castBool _ _ := .error (lit "Conversion Error")
  castStruct values t :=
    match t with
    | .struct fs =>
        if values.map (fun v => (v.1, v.2.type)) = fs.toList then
          .ok (.nested (.struct fs) (values.map Prod.snd))
        else .error (lit "Conversion Error")
    | _ => .error (lit "Conversion Error")
  list c vs := .ok (.nested (.list c) vs)
  array c vs := .ok (.nested (.array c vs.length) vs)
  map k t es := .ok (.nested (.map k t) (es.map fun e => .nested (.entry k t) [e.1, e.2]))
  stod _ := none

theorem simple_typed : simple.Typed where
  varchar s v h := by
    cases h
    exact ⟨rfl, rfl⟩
  castText s t v h := by
    simp only [simple] at h
    split at h
    · split at h
      · split_ifs at h
        cases h
        rfl
      · cases h
    · cases h
  castBool b t v h := by cases h
  castStruct vs t v h := by
    simp only [simple] at h
    split at h
    · split_ifs at h
      cases h
      rfl
    · cases h
  list c vs v h := by
    cases h
    rfl
  array c vs v h := by
    cases h
    rfl
  map k t es v h := by
    cases h
    rfl

theorem simple_keeps : simple.Keeps where
  list _ _ _ h := (Except.ok.inj h).symm
  array _ _ _ h := (Except.ok.inj h).symm
  map _ _ _ _ h := (Except.ok.inj h).symm

theorem simple_structCast : simple.StructCast where
  same values fs h := by
    simp only [simple, if_pos h]
  placeholder values fs v h p hp _ := by
    simp only [simple] at h
    split_ifs at h with hsame
    right
    rw [← hsame] at hp
    obtain ⟨i, hi, rfl⟩ := List.getElem_of_mem hp
    rw [List.getElem_zip, List.getElem_map]

end DuckCasts

end Harbor
