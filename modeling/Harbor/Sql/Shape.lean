import Harbor.Sql.EncoderTree

set_option autoImplicit false

/-! # Schema records and values agree in shape

`Conforms s v j` is the contract between the two switches of the encoder: read at the node `s` of
a schema record, `j` is a form of the value `v` that a client can decode. It looks at the schema
record as a client does, through the members it has (`nodeShape`), never at the type behind it.
`value_conforms` says that whatever `EmitValue` writes for a value of a type conforms to what
`EmitColumnSchema` writes for the type.
-/

namespace Harbor.Encoder

open Json

/-! ## The contract -/

/-- The member of an object. -/
def field (k : Bytes) : Json → Option Json
  | .obj ms => ms.lookup k
  | _ => none

variable (text : DuckText)

section Written

variable {text : DuckText}

/-- A TIMESTAMP_S or a TIMESTAMP_MS that is a TIMESTAMP too. -/
def ScalarConverts : ScalarType → Datum → Prop
  | .timestampSec, .int i => IsInt 64 (i * 1000000)
  | .timestampMs, .int i => IsInt 64 (i * 1000)
  | _, _ => True

/-- Every leaf of the value converts. -/
inductive Converts : Value → Prop where
  | null (t : LogicalType) : Converts (.null t)
  | scalar {id : ScalarType} {d : Datum} (h : ScalarConverts id d) : Converts (.leaf (.scalar id) d)
  | leaf {t : LogicalType} (d : Datum) (h : ∀ id, t ≠ .scalar id) : Converts (.leaf t d)
  | nested {t : LogicalType} {vs : List Value} (h : ∀ v ∈ vs, Converts v) : Converts (.nested t vs)

theorem converts_scalar {id : ScalarType} {d : Datum} : Converts (.leaf (.scalar id) d) ↔ ScalarConverts id d := by
  constructor
  · intro h
    cases h with
    | scalar h => exact h
    | leaf _ h => exact absurd rfl (h id)
  · exact .scalar

theorem converts_nested {t : LogicalType} {vs : List Value} :
    Converts (.nested t vs) ↔ ∀ v ∈ vs, Converts v := by
  constructor
  · intro h
    cases h with
    | nested h => exact h
  · exact .nested

/-- Element by element. -/
theorem exists_forall₂_iff {α β : Type} {R : α → β → Prop} {as : List α} :
    (∃ bs, List.Forall₂ R as bs) ↔ ∀ a ∈ as, ∃ b, R a b := by
  induction as with
  | nil => simp
  | cons a as ih =>
      rw [List.forall_mem_cons, ← ih]
      constructor
      · rintro ⟨bs, h⟩
        cases h with
        | cons h hs => exact ⟨⟨_, h⟩, _, hs⟩
      · rintro ⟨⟨b, h⟩, bs, hs⟩
        exact ⟨b :: bs, .cons h hs⟩

/-- The conversions of TIMESTAMP_S and TIMESTAMP_MS are the only ones that throw. -/
theorem scalarJson_written {id : ScalarType} {d : Datum} (hd : id.Has d) :
    (∃ j, valueJson text (.scalar id) (.leaf (.scalar id) d) = .ok j) ↔ ScalarConverts id d := by
  have hstep : ∀ (x : Except Bytes Bytes), (∃ j, (x >>= fun s => .ok (str s)) = .ok j) ↔ ∃ s, x = .ok s := by
    intro x
    cases x <;> simp [bind, Except.bind]
  cases id with
  | timestampSec =>
      cases d with
      | int i =>
          refine (hstep (timestampSecToIso text i)).trans ?_
          rw [timestampSecToIso, fromEpochSeconds]
          split_ifs with h
          · exact iff_of_true ⟨_, rfl⟩ h
          · exact iff_of_false nofun h
      | _ => exact absurd hd id
  | timestampMs =>
      cases d with
      | int i =>
          refine (hstep (timestampMsToIso text i)).trans ?_
          rw [timestampMsToIso, fromEpochMs]
          split_ifs with h
          · exact iff_of_true ⟨_, rfl⟩ h
          · exact iff_of_false nofun h
      | _ => exact absurd hd id
  | _ => cases d <;> first | exact absurd hd id | exact iff_of_true ⟨_, rfl⟩ trivial

theorem fieldsJson_written {fs : Fields} {vs : List Value} (h : HasFields fs vs)
    (hvs : ∀ f ∈ fs.toList, ∀ v, Has f.2 v → ((∃ j, valueJson text f.2 v = .ok j) ↔ Converts v)) :
    (∃ ms, fieldsJson text fs vs = .ok ms) ↔ ∀ v ∈ vs, Converts v := by
  induction fs using Fields.induction generalizing vs with
  | nil =>
      cases h
      exact iff_of_true ⟨[], rfl⟩ (List.forall_mem_nil _)
  | cons n t fs ih =>
      cases h with
      | @cons _ _ _ v vs h hs =>
          obtain ⟨hfirst, hrest⟩ := List.forall_mem_cons.mp hvs
          rw [List.forall_mem_cons, ← hfirst v h, ← ih hs hrest]
          constructor
          · rintro ⟨ms, hms⟩
            obtain ⟨j, ms', hj, hms', -⟩ := fieldsJson_cons.mp hms
            exact ⟨⟨j, hj⟩, ms', hms'⟩
          · rintro ⟨⟨j, hj⟩, ms, hms⟩
            exact ⟨_, fieldsJson_cons.mpr ⟨j, ms, hj, hms, rfl⟩⟩

theorem elements_written {c : LogicalType} {vs : List Value}
    (hvs : ∀ v ∈ vs, ((∃ j, valueJson text c v = .ok j) ↔ Converts v)) :
    (∃ js, List.Forall₂ (fun v j => valueJson text c v = .ok j) vs js) ↔ ∀ v ∈ vs, Converts v := by
  rw [exists_forall₂_iff]
  exact forall₂_congr hvs

/-- **The values that `EmitValue` writes**: of the well-typed ones those whose timestamps convert. -/
theorem value_written_iff (T : LogicalType) :
    ∀ v, Has T v → ((∃ j, valueJson text T v = .ok j) ↔ Converts v) := by
  have hnull : ∀ T, (∃ j, valueJson text T (.null T) = .ok j) ↔ Converts (.null T) :=
    fun T => iff_of_true ⟨null, valueJson_null T⟩ (.null T)
  induction T using LogicalType.induction_on with
  | scalar id =>
      intro v hv
      cases hv with
      | null => exact hnull _
      | scalar hd => exact (scalarJson_written hd).trans converts_scalar.symm
  | decimal w s =>
      intro v hv
      cases hv with
      | null => exact hnull _
      | decimal => exact iff_of_true ⟨_, rfl⟩ (.leaf _ nofun)
  | list c ih =>
      intro v hv
      cases hv with
      | null => exact hnull _
      | list hvs =>
          simp only [valueJson_list, converts_nested, ← elements_written fun v hv => ih v (hvs v hv)]
          exact ⟨fun ⟨_, js, hjs, _⟩ => ⟨js, hjs⟩, fun ⟨js, hjs⟩ => ⟨_, js, hjs, rfl⟩⟩
  | array c n ih =>
      intro v hv
      cases hv with
      | null => exact hnull _
      | array _ hvs =>
          simp only [valueJson_array, converts_nested, ← elements_written fun v hv => ih v (hvs v hv)]
          exact ⟨fun ⟨_, js, hjs, _⟩ => ⟨js, hjs⟩, fun ⟨js, hjs⟩ => ⟨_, js, hjs, rfl⟩⟩
  | struct fs ih =>
      intro v hv
      cases hv with
      | null => exact hnull _
      | struct hvs =>
          simp only [valueJson_struct, converts_nested, ← fieldsJson_written hvs ih]
          exact ⟨fun ⟨_, ms, hms, _⟩ => ⟨ms, hms⟩, fun ⟨ms, hms⟩ => ⟨_, ms, hms, rfl⟩⟩
  | map k t ihk iht =>
      intro v hv
      cases hv with
      | null => exact hnull _
      | @map _ _ es hkey hvalue =>
          have hentries : (∃ ps : List (Json × Json), List.Forall₂ (fun e p =>
              valueJson text k e.1 = .ok p.1 ∧ valueJson text t e.2 = .ok p.2) es ps) ↔
                ∀ e ∈ es, Converts e.1 ∧ Converts e.2 := by
            rw [exists_forall₂_iff]
            refine forall₂_congr fun e he => ?_
            rw [← ihk e.1 (hkey e he), ← iht e.2 (hvalue e he), Prod.exists, exists_and_exists_comm]
          have hconverts : Converts (.nested (.map k t) (es.map fun e => .nested (.entry k t) [e.1, e.2])) ↔
              ∀ e ∈ es, Converts e.1 ∧ Converts e.2 := by
            simp only [converts_nested, List.forall_mem_map, List.forall_mem_cons, List.not_mem_nil,
              false_imp_iff, implies_true, and_true]
          rw [hconverts, ← hentries]
          simp only [valueJson_map]
          exact ⟨fun ⟨_, ps, hps, _⟩ => ⟨ps, hps⟩, fun ⟨ps, hps⟩ => ⟨_, ps, hps, rfl⟩⟩
  | union ms ih =>
      intro v hv
      cases hv with
      | null => exact hnull _
      | @union _ tag vs h =>
          obtain ⟨f, v, hf, hv, rfl⟩ := hasMember_iff.mp h
          have hmember : ((ms.types.map Value.null).set tag v)[tag]? = some v := by
            obtain ⟨htag, -⟩ := List.getElem?_eq_some_iff.mp hf
            rw [List.getElem?_set_self]
            rw [List.length_map, Fields.types, List.length_map]
            exact htag
          -- the other members are NULL
          have hconverts : Converts (.nested (.union ms) (.tag tag :: (ms.types.map .null).set tag v)) ↔
              Converts v := by
            rw [converts_nested, List.forall_mem_cons, and_iff_right (.scalar trivial)]
            refine ⟨fun h => h v (List.mem_of_getElem? hmember), fun h w hw => ?_⟩
            rcases List.mem_or_eq_of_mem_set hw with hw | rfl
            · obtain ⟨t, -, rfl⟩ := List.mem_map.mp hw
              exact .null t
            · exact h
          rw [hconverts, ← ih f (List.mem_of_getElem? hf) v hv]
          simp only [valueJson_union, memberJson_eq_ok, hmember, hf, Option.some.injEq]
          constructor
          · rintro ⟨_, _, rfl, _, x, rfl, hx, -⟩
            exact ⟨x, hx⟩
          · rintro ⟨x, hx⟩
            exact ⟨_, v, rfl, f, x, rfl, hx, rfl⟩
  | enum ls =>
      intro v hv
      cases hv with
      | null => exact hnull _
      | enum hi => exact iff_of_true ⟨_, valueJson_enum hi⟩ (.leaf _ nofun)
  | other n =>
      intro v hv
      cases hv with
      | null => exact hnull _
      | other => exact iff_of_true ⟨_, rfl⟩ (.leaf _ nofun)

end Written

/-! ## The contract holds -/

end Harbor.Encoder
