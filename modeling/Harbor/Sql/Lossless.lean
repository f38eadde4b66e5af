import Harbor.Sql.ScalarText

set_option autoImplicit false

/-! # The lossless flag

A schema record that says `lossless: true` at every node promises that the JSON of a value
determines the value. `LosslessEverywhere` is the promise as a client reads it; the encoder makes
it for every type that it knows at every depth (`losslessEverywhere_schemaJson`). `separated` are
the types it keeps the promise for: no TIMETZ, whose text drops the seconds of the offset, and no
STRUCT field that a later field of the same name hides, as in `row(1, 2)` whose fields have no
names.
-/

namespace Harbor

open Json Encoder

/-! ## What the schema record promises -/

/-- Every member named `lossless`, at any depth, is `true`. -/
inductive LosslessEverywhere : Json → Prop where
  | null : LosslessEverywhere .null
  | bool (b : Bool) : LosslessEverywhere (.bool b)
  | num (l : Bytes) : LosslessEverywhere (.num l)
  | str (s : Bytes) : LosslessEverywhere (.str s)
  | arr {xs : List Json} (h : ∀ x ∈ xs, LosslessEverywhere x) : LosslessEverywhere (.arr xs)
  | obj {ms : List (Bytes × Json)} (hflag : ∀ m ∈ ms, m.1 = lit "lossless" → m.2 = .bool true)
      (h : ∀ m ∈ ms, LosslessEverywhere m.2) : LosslessEverywhere (.obj ms)

mutual

/-- Every type at every depth is one the encoder knows. -/
def LogicalType.isCore : LogicalType → Bool
  | .list c => c.isCore
  | .array c _ => c.isCore
  | .struct fs => fs.areCore
  | .map k v => k.isCore && v.isCore
  | .union ms => ms.areCore
  | .other _ => false
  | _ => true

def Fields.areCore : Fields → Bool
  | .nil => true
  | .cons _ t fs => t.isCore && fs.areCore

end

theorem Fields.areCore_iff {fs : Fields} : fs.areCore = true ↔ ∀ f ∈ fs.toList, f.2.isCore = true := by
  induction fs using Fields.induction with
  | nil => simp [Fields.areCore, Fields.toList]
  | cons n t fs ih => simp [Fields.areCore, Fields.toList, ih]

/-! ## The types the promise is kept for -/

/-- NULL is the only value of the type. -/
def LogicalType.onlyNull : LogicalType → Bool
  | .scalar id => id == .sqlNull
  | .enum ls => ls.isEmpty
  | .union ms => ms.names.isEmpty
  | _ => false

/-- No field that has anything to say is hidden by a later field of its name. -/
def Fields.unshadowed : Fields → Bool
  | .nil => true
  | .cons n t fs => (t.onlyNull || !fs.names.contains n) && fs.unshadowed

mutual

def LogicalType.separated : LogicalType → Bool
  | .scalar id => id != .timeTz
  | .list c => c.separated
  | .array c _ => c.separated
  | .struct fs => fs.separated && fs.unshadowed
  | .map k v => k.onlyNull || (k.separated && v.separated)
  | .union ms => ms.separated
  | _ => true

def Fields.separated : Fields → Bool
  | .nil => true
  | .cons _ t fs => t.separated && fs.separated

end

theorem Fields.separated_iff {fs : Fields} :
    fs.separated = true ↔ ∀ f ∈ fs.toList, f.2.separated = true := by
  induction fs using Fields.induction with
  | nil => simp [Fields.separated, Fields.toList]
  | cons n t fs ih => simp [Fields.separated, Fields.toList, ih]

/-! ## The promise is made exactly for core types -/

theorem losslessEverywhere_arr {xs : List Json} :
    LosslessEverywhere (arr xs) ↔ ∀ x ∈ xs, LosslessEverywhere x :=
  ⟨fun h => by cases h with | arr h => exact h, .arr⟩

theorem losslessEverywhere_obj {ms : List (Bytes × Json)} : LosslessEverywhere (obj ms) ↔
    (∀ m ∈ ms, m.1 = lit "lossless" → m.2 = .bool true) ∧ ∀ m ∈ ms, LosslessEverywhere m.2 :=
  ⟨fun h => by cases h with | obj h h' => exact ⟨h, h'⟩, fun h => .obj h.1 h.2⟩

variable (text : DuckText)

/-- The head of a record says nothing about losses. -/
theorem losslessEverywhere_record (t : LogicalType) (name : Bytes) (ms : List (Bytes × Json)) :
    LosslessEverywhere (obj (sanitizedMembers (schemaHead text t name ++ ms))) ↔
      LosslessEverywhere (obj (sanitizedMembers ms)) := by
  have h1 : sanitize (lit "name") = lit "name" := sanitize_ascii (by decide)
  have h2 : sanitize (lit "duckdbType") = lit "duckdbType" := sanitize_ascii (by decide)
  have h3 : lit "name" ≠ lit "lossless" := by decide
  have h4 : lit "duckdbType" ≠ lit "lossless" := by decide
  rw [schemaHead]
  split_ifs <;>
    simp [losslessEverywhere_obj, sanitizedMembers, sanitizedMember, sanitized, h1, h2, h3, h4,
      LosslessEverywhere.str]

theorem losslessEverywhere_fieldSchemas {fs : Fields}
    (h : ∀ f ∈ fs.toList, ∀ name,
      LosslessEverywhere (schemaJson text f.2 name).sanitized ↔ f.2.isCore = true) :
    LosslessEverywhere (arr (sanitizedList (fieldSchemas text fs))) ↔ fs.areCore = true := by
  simp only [losslessEverywhere_arr, sanitizedList_eq_map, fieldSchemas_eq_map, List.map_map,
    List.forall_mem_map, Function.comp, Fields.areCore_iff]
  exact forall₂_congr fun f hf => h f hf f.1

/-- **A record promises losslessness everywhere exactly if the encoder knows every type in it.** -/
theorem losslessEverywhere_schemaJson (t : LogicalType) : ∀ name,
    LosslessEverywhere (schemaJson text t name).sanitized ↔ t.isCore = true := by
  -- a flag that is `true` claims nothing, so the members behind it decide
  have hflag : ∀ {ms}, LosslessEverywhere (obj ((lit "lossless", .bool true) :: ms)) ↔
      LosslessEverywhere (obj ms) := by
    intro ms
    simp [losslessEverywhere_obj, LosslessEverywhere.bool]
  have hmember : ∀ {k j ms}, k ≠ lit "lossless" → (LosslessEverywhere (obj ((k, j) :: ms)) ↔
      LosslessEverywhere j ∧ LosslessEverywhere (obj ms)) := by
    intro k j ms hk
    simp only [losslessEverywhere_obj, List.forall_mem_cons, hk, false_implies, true_and]
    tauto
  have hnil : LosslessEverywhere (obj []) := .obj (by simp) (by simp)
  have hnum : ∀ {l}, LosslessEverywhere (num l) := .num _
  have hstr : ∀ {s}, LosslessEverywhere (str s) := .str _
  intro name
  induction t using LogicalType.induction_on generalizing name with
  | scalar id =>
      rw [schemaJson, sanitized, losslessEverywhere_record]
      simp (disch := decide) only [sanitizedMembers, sanitizedMember, sanitized, sanitize_ascii, hflag,
        hnil, LogicalType.isCore]
  | decimal w s =>
      rw [schemaJson, sanitized, losslessEverywhere_record]
      simp (disch := decide) only [sanitizedMembers, sanitizedMember, sanitized, sanitize_ascii, hflag,
        hmember, hnum, hnil, and_true, LogicalType.isCore]
  | list c ih =>
      rw [schemaJson, sanitized, losslessEverywhere_record]
      simp (disch := decide) only [sanitizedMembers, sanitizedMember, sanitized, sanitize_ascii, hflag,
        hmember, ih, hnil, and_true, LogicalType.isCore]
  | array c n ih =>
      rw [schemaJson, sanitized, losslessEverywhere_record]
      simp (disch := decide) only [sanitizedMembers, sanitizedMember, sanitized, sanitize_ascii, hflag,
        hmember, hnum, ih, hnil, true_and, and_true, LogicalType.isCore]
  | struct fs ih =>
      rw [schemaJson, sanitized, losslessEverywhere_record]
      simp (disch := decide) only [sanitizedMembers, sanitizedMember, sanitized, sanitize_ascii, hflag,
        hmember, losslessEverywhere_fieldSchemas text ih, hnil, and_true, LogicalType.isCore]
  | map k v ihk ihv =>
      rw [schemaJson, sanitized, losslessEverywhere_record]
      simp (disch := decide) only [sanitizedMembers, sanitizedMember, sanitized, sanitize_ascii, hflag,
        hmember, ihk, ihv, hstr, hnil, and_true, LogicalType.isCore, Bool.and_eq_true]
  | union ms ih =>
      rw [schemaJson, sanitized, losslessEverywhere_record]
      simp (disch := decide) only [sanitizedMembers, sanitizedMember, sanitized, sanitize_ascii, hflag,
        hmember, losslessEverywhere_fieldSchemas text ih, hnil, and_true, LogicalType.isCore]
  | enum ls =>
      -- the labels are texts
      have hlabels : LosslessEverywhere (arr (sanitizedList (ls.map str))) := by
        simp only [losslessEverywhere_arr, sanitizedList_eq_map, List.map_map, List.forall_mem_map]
        exact fun l _ => .str (sanitize l)
      rw [schemaJson, sanitized, losslessEverywhere_record]
      simp (disch := decide) only [sanitizedMembers, sanitizedMember, sanitized, sanitize_ascii, hflag,
        hmember, hlabels, hnil, and_true, LogicalType.isCore]
  | other n =>
      rw [schemaJson, sanitized, losslessEverywhere_record]
      simp (disch := decide) only [sanitizedMembers, sanitizedMember, sanitized, sanitize_ascii,
        losslessEverywhere_obj, List.forall_mem_cons, LogicalType.isCore]
      simp

end Harbor
