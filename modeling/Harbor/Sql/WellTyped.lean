import Harbor.Sql.Modes

set_option autoImplicit false

/-! # What the types of a decoded value are

`WellTyped t v` says that `v` and everything in it is of the type that `t` declares for it. The decoder
relies on its recursion for that: a LIST, an ARRAY or a MAP keeps the values that are decoded for it. But a
typed wrapper is decoded at the type it names wherever it stands. So the types of a value are right exactly
where no such wrapper stands at a place whose value is kept (`wellTyped_iff`).
-/

namespace Harbor

/-! ## Well-typed values -/

def LogicalType.hasChildren : LogicalType → Bool
  | .list _ | .array _ _ | .struct _ | .map _ _ | .union _ => true
  | _ => false

/-- The value is of the type, NULL included, and so is everything in it. -/
inductive WellTyped : LogicalType → Value → Prop where
  | null (t : LogicalType) : WellTyped t (.null t)
  | leaf {t : LogicalType} (h : t.hasChildren = false) (d : Datum) : WellTyped t (.leaf t d)
  | list {c : LogicalType} {vs : List Value} (h : ∀ v ∈ vs, WellTyped c v) :
      WellTyped (.list c) (.nested (.list c) vs)
  | array {c : LogicalType} {n : Nat} {vs : List Value} (hlen : vs.length = n) (h : ∀ v ∈ vs, WellTyped c v) :
      WellTyped (.array c n) (.nested (.array c n) vs)
  | struct {fs : Fields} {vs : List Value} (hlen : vs.length = fs.toList.length)
      (h : ∀ p ∈ fs.toList.zip vs, WellTyped p.1.2 p.2) : WellTyped (.struct fs) (.nested (.struct fs) vs)
  | map {k t : LogicalType} {es : List (Value × Value)} (hkey : ∀ e ∈ es, WellTyped k e.1)
      (hvalue : ∀ e ∈ es, WellTyped t e.2) :
      WellTyped (.map k t) (.nested (.map k t) (es.map fun e => .nested (.entry k t) [e.1, e.2]))
  | union {ms : Fields} {tag : Nat} {vs : List Value} (hlen : vs.length = ms.toList.length)
      (h : ∀ p ∈ ms.toList.zip vs, WellTyped p.1.2 p.2) :
      WellTyped (.union ms) (.nested (.union ms) (.tag tag :: vs))

theorem WellTyped.type_eq {t : LogicalType} {v : Value} (h : WellTyped t v) : v.type = t := by
  cases h <;> rfl

/-- Nothing in the type stands for no type of its own. -/
inductive LogicalType.Concrete : LogicalType → Prop where
  | leaf {t : LogicalType} (hleaf : t.hasChildren = false) (h : t.isPlaceholder = false) : Concrete t
  | list {c : LogicalType} (h : Concrete c) : Concrete (.list c)
  | array {c : LogicalType} {n : Nat} (h : Concrete c) : Concrete (.array c n)
  | struct {fs : Fields} (h : ∀ f ∈ fs.toList, Concrete f.2) : Concrete (.struct fs)
  | map {k t : LogicalType} (hkey : Concrete k) (hvalue : Concrete t) : Concrete (.map k t)

theorem LogicalType.Concrete.isPlaceholder {t : LogicalType} (h : t.Concrete) : t.isPlaceholder = false := by
  cases h with
  | leaf _ h => exact h
  | _ => rfl

/-- What a cast returns is of the type it was asked for, with everything in it. -/
structure DuckCasts.Sound (casts : DuckCasts) : Prop where
  varchar : ∀ s v, casts.varchar s = .ok v → WellTyped (.scalar .varchar) v
  castText : ∀ s t v, casts.castText s t = .ok v → WellTyped t v
  castBool : ∀ b t v, casts.castBool b t = .ok v → WellTyped t v
  /-- A STRUCT of another type is converted. -/
  castStruct : ∀ (values : List (Bytes × Value)) (fs : Fields) (v : Value),
    values.map (fun v => (v.1, v.2.type)) ≠ fs.toList →
      casts.castStruct values (.struct fs) = .ok v → WellTyped (.struct fs) v

theorem DuckCasts.simple_sound : DuckCasts.simple.Sound where
  varchar s v h := by
    cases h
    exact .leaf rfl _
  castText s t v h := by
    simp only [simple] at h
    split at h
    · split at h
      · split_ifs at h
        cases h
        exact .leaf rfl _
      · cases h
    · cases h
  castBool b t v h := by cases h
  castStruct values fs v hne h := by
    simp only [simple, if_neg hne] at h
    cases h

namespace ParamDecoder

open Bytes Json

/-! ## Types that the parser returns -/

theorem concrete_of_parseFields {parse : Bytes → Except Bytes LogicalType}
    (hparse : ∀ s t, parse s = .ok t → t.Concrete) {fields : List Bytes} {fs : Fields}
    (h : parseFields parse fields = .ok fs) : ∀ f ∈ fs.toList, f.2.Concrete := by
  induction fields generalizing fs with
  | nil =>
      obtain rfl := Except.ok.inj h
      exact List.forall_mem_nil _
  | cons field fields ih =>
      rw [parseFields] at h
      split at h
      · cases h
      · obtain ⟨⟨⟩, -, h⟩ := bind_eq_ok.mp h
        obtain ⟨type, htype, h⟩ := bind_eq_ok.mp h
        obtain ⟨others, hothers, h⟩ := bind_eq_ok.mp h
        obtain rfl := Except.ok.inj h
        exact List.forall_mem_cons.mpr ⟨hparse _ _ htype, ih hothers⟩

theorem concrete_of_parse {types : DuckTypes} {levels : Nat} {s : Bytes} {t : LogicalType}
    (h : parseLogicalType types levels s = .ok t) : t.Concrete := by
  induction levels generalizing s t with
  | zero => exact nomatch h
  | succ levels ih =>
      cases parsedAs (tight_normalize s) (parseLogicalType_normalized h) with
      | list _ _ hc => exact .list (ih hc)
      | array _ _ _ hc _ _ => exact .array (ih hc)
      | map _ _ _ hk hv => exact .map (ih hk) (ih hv)
      | struct _ _ _ hfs => exact .struct (concrete_of_parseFields (fun _ _ h => ih h) hfs)
      | scalar hname =>
          refine .leaf rfl ?_
          have hnull : ∀ x ∈ simpleTypeNames, LogicalType.isPlaceholder (.scalar x.2) = false := by decide
          exact hnull _ hname
      | decimal _ h =>
          obtain ⟨w, n, rfl⟩ := eq_decimal_of_parse h
          exact .leaf rfl rfl

/-! ## Where a wrapper stands -/

/-- The type that a value is decoded as: the one of the innermost wrapper around it. -/
inductive DecodedAs (text : DuckText) (casts : DuckCasts) (g : Call → Except Bytes (Value × Cursor)) :
    Call → LogicalType → Prop where
  | here {a : Call} (h : ∀ b, ¬ Calls text casts g a .wrapped b) : DecodedAs text casts g a a.2
  | wrapped {a b : Call} {t : LogicalType} (h : Calls text casts g a .wrapped b)
      (hb : DecodedAs text casts g b t) : DecodedAs text casts g a t

/-- A wrapper of another type stands where the value of type `T` stands, or an element, a key or a value of it,
however deep. A field is looked into if each field of its STRUCT has the type that is declared for it. -/
inductive Mistyped (text : DuckText) (casts : DuckCasts) (g : Call → Except Bytes (Value × Cursor)) :
    LogicalType → Call → Prop where
  | type {T t : LogicalType} {a : Call} (h : DecodedAs text casts g a t) (hne : t ≠ T) :
      Mistyped text casts g T a
  | wrapped {T : LogicalType} {a b : Call} (h : Calls text casts g a .wrapped b)
      (hb : Mistyped text casts g T b) : Mistyped text casts g T a
  | element {T : LogicalType} {a b : Call} (h : Calls text casts g a .element b)
      (hb : Mistyped text casts g b.2 b) : Mistyped text casts g T a
  | field {T : LogicalType} {a b : Call}
      (hall : ∀ b, Calls text casts g a .field b → DecodedAs text casts g b b.2)
      (h : Calls text casts g a .field b) (hb : Mistyped text casts g b.2 b) : Mistyped text casts g T a

/-- All calls of the kind succeed, with values that have the property. -/
def AllCalls (text : DuckText) (casts : DuckCasts) (g : Call → Except Bytes (Value × Cursor)) (a : Call)
    (k : Place) (P : LogicalType → Value → Prop) : Prop :=
  ∀ b, Calls text casts g a k b → ∃ r, g b = .ok r ∧ P b.2 r.1

section Loops

variable {σ : Type} {closeCh : UInt8} {item : σ → Cursor → Except Bytes (σ × Cursor)}

/-- What holds in the end holds at the start and of each item. -/
theorem readItems_iff {Q : σ → Prop} {R : σ → Cursor → Prop}
    (hstep : ∀ s d s' c', item s d = .ok (s', c') → (Q s' ↔ Q s ∧ R s d)) {n : Nat} {first : Bool} {s s' : σ}
    {c c' : Cursor} (h : readItems closeCh item n first s c = .ok (s', c')) :
    Q s' ↔ Q s ∧ ∀ s₁ d, Visits closeCh item first s c s₁ d → R s₁ d := by
  induction n generalizing first s c with
  | zero => exact nomatch h
  | succ n ih =>
      rw [readItems_succ] at h
      by_cases hend : (skipWhitespace c).rest.head? = some closeCh
      · rw [if_pos hend] at h
        obtain ⟨rfl, rfl⟩ := Prod.mk.inj (Except.ok.inj h)
        refine (and_iff_left fun s₁ d hvisits => ?_).symm
        cases hvisits with
        | here hopen => exact absurd hend hopen
        | next hopen => exact absurd hend hopen
      · rw [if_neg hend] at h
        obtain ⟨d, hstart, h⟩ := bind_eq_ok.mp h
        obtain ⟨⟨s₁, c₁⟩, hread, h⟩ := bind_eq_ok.mp h
        rw [ih h, hstep _ _ _ _ hread, and_assoc]
        refine and_congr_right fun _ => ⟨?_, fun hall => ⟨hall _ _ (.here hend hstart), ?_⟩⟩
        · rintro ⟨hhere, hmore⟩ s₂ e hvisits
          cases hvisits with
          | here _ hstart' =>
              obtain rfl := Except.ok.inj (hstart.symm.trans hstart')
              exact hhere
          | next _ hstart' hread' hs =>
              obtain rfl := Except.ok.inj (hstart.symm.trans hstart')
              obtain ⟨rfl, rfl⟩ := Prod.mk.inj (Except.ok.inj (hread.symm.trans hread'))
              exact hmore _ _ hs
        · exact fun s₂ e hvisits => hall _ _ (.next hend hstart hread hvisits)

end Loops

/-! ## The values of a container -/

section Containers

variable {text : DuckText} {casts : DuckCasts} {g : Call → Except Bytes (Value × Cursor)}
  (P : LogicalType → Value → Prop)

variable (text casts) in
/-- The elements of a LIST or ARRAY. -/
theorem elements_iff {c d e : Cursor} {expected child : LogicalType} {vs : List Value}
    (hexpected : expected = .list child ∨ ∃ n, expected = .array child n)
    (hopen : (skipWhitespace c).rest.head? = some 0x5B) (hbracket : consumeChar 0x5B (skipWhitespace c) = .ok d)
    (h : readAll 0x5D (listElement (fun c t => g (c, t)) child) [] d = .ok (vs, e)) :
    (∀ v ∈ vs, P child v) ↔ AllCalls text casts g (c, expected) .element P := by
  have hstep : ∀ (vs : List Value) (d : Cursor) (vs' : List Value) (d' : Cursor),
      listElement (fun c t => g (c, t)) child vs d = .ok (vs', d') →
        ((∀ v ∈ vs', P child v) ↔ (∀ v ∈ vs, P child v) ∧ ∃ r, g (d, child) = .ok r ∧ P child r.1) := by
    intro vs d vs' d' h
    obtain ⟨⟨v, d₁⟩, hread, h⟩ := bind_eq_ok.mp h
    obtain ⟨rfl, rfl⟩ := Prod.mk.inj (Except.ok.inj h)
    rw [List.forall_mem_append, List.forall_mem_singleton]
    refine and_congr_right fun _ => ⟨fun hv => ⟨_, hread, hv⟩, ?_⟩
    rintro ⟨r, hr, hv⟩
    obtain rfl := Except.ok.inj (hread.symm.trans hr)
    exact hv
  rw [readItems_iff hstep h]
  constructor
  · rintro ⟨-, hall⟩ b hcall
    cases hcall with
    | @element _ d' e' _ child' vs' hsame _ hbracket' hvisits =>
        obtain rfl : child = child' := by
          rcases hexpected with rfl | ⟨n, rfl⟩ <;> rcases hsame with hsame | ⟨m, hsame⟩ <;> cases hsame <;> rfl
        obtain rfl := Except.ok.inj (hbracket.symm.trans hbracket')
        exact hall _ _ hvisits
    | entry => rcases hexpected with hmap | ⟨n, hmap⟩ <;> cases hmap
  · intro hall
    exact ⟨fun v hv => (nomatch hv), fun vs' d' hvisits => hall _ (.element hexpected hopen hbracket hvisits)⟩

variable (text casts) in
/-- The entries of a MAP. -/
theorem entries_iff {c d e : Cursor} {key value : LogicalType} {es : List (Value × Value)}
    (hopen : (skipWhitespace c).rest.head? = some 0x5B) (hbracket : consumeChar 0x5B (skipWhitespace c) = .ok d)
    (h : readAll 0x5D (mapEntry (fun c t => g (c, t)) key value) [] d = .ok (es, e)) :
    (∀ e ∈ es, P key e.1 ∧ P value e.2) ↔ AllCalls text casts g (c, .map key value) .element P := by
  have hstep : ∀ (es : List (Value × Value)) (d : Cursor) (es' : List (Value × Value)) (d' : Cursor),
      mapEntry (fun c t => g (c, t)) key value es d = .ok (es', d') →
        ((∀ e ∈ es', P key e.1 ∧ P value e.2) ↔ (∀ e ∈ es, P key e.1 ∧ P value e.2) ∧
          ∀ b, entryCalls g key value d b → ∃ r, g b = .ok r ∧ P b.2 r.1) := by
    intro es d es' d' h
    obtain ⟨c₁, hopen, h⟩ := bind_eq_ok.mp h
    obtain ⟨⟨k, c₂⟩, hk, h⟩ := bind_eq_ok.mp h
    obtain ⟨c₃, hcomma, h⟩ := bind_eq_ok.mp h
    obtain ⟨⟨v, c₄⟩, hv, h⟩ := bind_eq_ok.mp h
    obtain ⟨c₅, -, h⟩ := bind_eq_ok.mp h
    obtain ⟨rfl, rfl⟩ := Prod.mk.inj (Except.ok.inj h)
    have hfirst := mapError_eq_ok.mp hopen
    rw [List.forall_mem_append, List.forall_mem_singleton]
    refine and_congr_right fun _ => ⟨?_, fun hall => ⟨?_, ?_⟩⟩
    · rintro ⟨hkey, hvalue⟩ b ⟨c₁', hopen', rfl | ⟨r, c₃', hread, hcomma', rfl⟩⟩
      · obtain rfl := Except.ok.inj (hfirst.symm.trans hopen')
        exact ⟨_, hk, hkey⟩
      · obtain rfl := Except.ok.inj (hfirst.symm.trans hopen')
        obtain rfl := Except.ok.inj (hk.symm.trans hread)
        obtain rfl := Except.ok.inj (hcomma.symm.trans hcomma')
        exact ⟨_, hv, hvalue⟩
    · obtain ⟨r, hr, hkey⟩ := hall (c₁, key) ⟨c₁, hfirst, Or.inl rfl⟩
      obtain rfl := Except.ok.inj (hk.symm.trans hr)
      exact hkey
    · obtain ⟨r, hr, hvalue⟩ := hall (c₃, value) ⟨c₁, hfirst, Or.inr ⟨_, c₃, hk, hcomma, rfl⟩⟩
      obtain rfl := Except.ok.inj (hv.symm.trans hr)
      exact hvalue
  rw [readItems_iff hstep h]
  constructor
  · rintro ⟨-, hall⟩ b hcall
    cases hcall with
    | element hexpected => rcases hexpected with hlist | ⟨n, hlist⟩ <;> cases hlist
    | entry _ hbracket' hvisits hb =>
        obtain rfl := Except.ok.inj (hbracket.symm.trans hbracket')
        exact hall _ _ hvisits b hb
  · intro hall
    exact ⟨fun e he => (nomatch he), fun es' d' hvisits b hb => hall b (.entry hopen hbracket hvisits hb)⟩

/-- What is put into a STRUCT: a field that is not given is NULL. -/
def structValues (fields : List (Bytes × LogicalType)) (seen : List (Option Value)) : List (Bytes × Value) :=
  List.zipWith (fun (field : Bytes × LogicalType) (value : Option Value) =>
    (field.1, value.getD (.null field.2))) fields seen

/-- The given fields have the property. -/
def GivenFields (fields : List (Bytes × LogicalType)) (seen : List (Option Value)) : Prop :=
  seen.length = fields.length ∧
    ∀ (i : Nat) (field : Bytes × LogicalType) (v : Value), fields[i]? = some field →
      seen[i]? = some (some v) → P field.2 v

variable {P} in
/-- A field is given once. -/
theorem givenFields_set {fields : List (Bytes × LogicalType)} {seen : List (Option Value)} {place : Nat}
    {field : Bytes × LogicalType} (hfield : fields[place]? = some field)
    (hseen : (seen.getD place none).isSome = false) (v : Value) :
    GivenFields P fields (seen.set place (some v)) ↔ GivenFields P fields seen ∧ P field.2 v := by
  have hplace : place < fields.length := (List.getElem?_eq_some_iff.mp hfield).1
  rw [GivenFields, GivenFields, List.length_set, and_assoc]
  refine and_congr_right fun hlen => ⟨fun hall => ⟨?_, ?_⟩, ?_⟩
  · intro i other w hother hw
    refine hall i other w hother ?_
    rw [List.getElem?_set_ne, hw]
    rintro rfl
    simp [hw] at hseen
  · refine hall place field v hfield ?_
    rw [List.getElem?_set_self (by omega)]
  · rintro ⟨hall, hv⟩ i other w hother hw
    by_cases hsame : place = i
    · subst hsame
      obtain rfl := Option.some.inj (hfield.symm.trans hother)
      rw [List.getElem?_set_self (by omega)] at hw
      obtain rfl := Option.some.inj (Option.some.inj hw)
      exact hv
    · rw [List.getElem?_set_ne hsame] at hw
      exact hall i other w hother hw

theorem structMember_iff {fields : List (Bytes × LogicalType)} {expected : LogicalType}
    {seen seen' : List (Option Value)} {d d' : Cursor}
    (h : structMember text (fun c t => g (c, t)) fields expected seen d = .ok (seen', d')) :
    GivenFields P fields seen' ↔
      GivenFields P fields seen ∧ ∀ b, memberCalls fields seen d b → ∃ r, g b = .ok r ∧ P b.2 r.1 := by
  obtain ⟨key, c₁, c₂, field, v, hkey, hcolon, hfield, hseen, hread, rfl⟩ := structMember_eq_ok h
  rw [givenFields_set hfield hseen v]
  refine and_congr_right fun _ => ⟨?_, fun hall => ?_⟩
  · rintro hv b ⟨key', c₁', field', hkey', hcolon', hfield', -, htype⟩
    obtain ⟨rfl, rfl⟩ := Prod.mk.inj (Except.ok.inj (hkey.symm.trans hkey'))
    obtain rfl := Option.some.inj (hfield.symm.trans hfield')
    have hb : b = (c₂, field.2) := Prod.ext (Except.ok.inj (hcolon'.symm.trans hcolon)) htype
    rw [hb]
    exact ⟨_, hread, hv⟩
  · obtain ⟨r, hr, hv⟩ := hall (c₂, field.2) ⟨key, c₁, field, hkey, hcolon, hfield, hseen, rfl⟩
    obtain rfl := Except.ok.inj (hread.symm.trans hr)
    exact hv

theorem zip_structValues (fields : List (Bytes × LogicalType)) (seen : List (Option Value)) :
    fields.zip ((structValues fields seen).map Prod.snd) =
      (fields.zip seen).map fun p => (p.1, p.2.getD (.null p.1.2)) := by
  rw [structValues, List.map_zipWith]
  induction fields generalizing seen with
  | nil => rfl
  | cons field fields ih =>
      cases seen with
      | nil => rfl
      | cons value seen => exact congrArg _ (ih seen)

theorem structValues_types_iff {fields : List (Bytes × LogicalType)} {seen : List (Option Value)}
    (hlen : seen.length = fields.length) :
    (structValues fields seen).map (fun v => (v.1, v.2.type)) = fields ↔
      ∀ p ∈ fields.zip ((structValues fields seen).map Prod.snd), p.2.type = p.1.2 := by
  rw [structValues]
  induction fields generalizing seen with
  | nil => simp
  | cons field fields ih =>
      cases seen with
      | nil => exact nomatch hlen
      | cons value seen =>
          have hrest := ih (Nat.succ.inj hlen)
          simp only [List.zipWith_cons_cons, List.map_cons, List.zip_cons_cons, List.forall_mem_cons,
            List.cons.injEq, hrest, Prod.ext_iff, true_and]

/-- The fields of a STRUCT, given or not. -/
theorem givenFields_iff (hnull : ∀ t, P t (.null t)) {fields : List (Bytes × LogicalType)}
    {seen : List (Option Value)} (hlen : seen.length = fields.length) :
    GivenFields P fields seen ↔
      ∀ p ∈ fields.zip ((structValues fields seen).map Prod.snd), P p.1.2 p.2 := by
  rw [zip_structValues, List.forall_mem_map, GivenFields, and_iff_right hlen]
  constructor
  · rintro hall ⟨field, value⟩ hp
    obtain ⟨i, hi⟩ := List.mem_iff_getElem?.mp hp
    obtain ⟨hfield, hvalue⟩ := List.getElem?_zip_eq_some.mp hi
    cases value with
    | none => exact hnull field.2
    | some v => exact hall i field v hfield hvalue
  · intro hall i field v hfield hv
    exact hall (field, some v) (List.mem_iff_getElem?.mpr ⟨i, List.getElem?_zip_eq_some.mpr ⟨hfield, hv⟩⟩)

variable (casts) in
theorem fields_iff (hnull : ∀ t, P t (.null t)) {c d e : Cursor} {fs : Fields} {seen : List (Option Value)}
    (hopen : (skipWhitespace c).rest.head? = some 0x7B) (htyped : looksTyped (skipWhitespace c) = false)
    (hbrace : consumeChar 0x7B (skipWhitespace c) = .ok d)
    (h : readAll 0x7D (structMember text (fun c t => g (c, t)) fs.toList (.struct fs))
      (List.replicate fs.toList.length none) d = .ok (seen, e)) :
    seen.length = fs.toList.length ∧
      ((∀ p ∈ fs.toList.zip ((structValues fs.toList seen).map Prod.snd), P p.1.2 p.2) ↔
        AllCalls text casts g (c, .struct fs) .field P) := by
  have hlen : seen.length = fs.toList.length := by
    refine (readItems_iff (Q := fun seen => seen.length = fs.toList.length) (R := fun _ _ => True) ?_ h).mpr
      ⟨List.length_replicate, fun _ _ _ => trivial⟩
    intro seen d seen' d' h
    obtain ⟨-, -, -, -, -, -, -, -, -, -, rfl⟩ := structMember_eq_ok h
    rw [List.length_set, and_true]
  have hnone : GivenFields P fs.toList (List.replicate fs.toList.length none) := by
    refine ⟨List.length_replicate, fun i field v _ hv => ?_⟩
    simp [List.getElem?_replicate] at hv
  refine ⟨hlen, ?_⟩
  rw [← givenFields_iff P hnull hlen, readItems_iff (fun _ _ _ _ h => structMember_iff P h) h,
    and_iff_right hnone]
  constructor
  · intro hall b hcall
    cases hcall with
    | field _ _ hbrace' hvisits hb =>
        obtain rfl := Except.ok.inj (hbrace.symm.trans hbrace')
        exact hall _ _ hvisits b hb
  · intro hall seen' d' hvisits b hb
    exact hall b (.field hopen htyped hbrace hvisits hb)

end Containers

/-! ## Values without children -/

section Sound

variable {text : DuckText} {casts : DuckCasts}

theorem orElse_eq_ok {α : Type} {what : Bytes} {x : Except Bytes α} {a : α} :
    orElse what x = .ok a ↔ x = .ok a :=
  mapError_eq_ok

theorem wellTyped_leaf (hsound : casts.Sound) {c : Cursor}
    (hbrace : (skipWhitespace c).rest.head? ≠ some 0x7B)
    (hbracket : (skipWhitespace c).rest.head? ≠ some 0x5B) {expected : LogicalType}
    (hconcrete : expected.Concrete) {v : Value} {c' : Cursor}
    (h : decodeOne text casts 1 c expected = .ok (v, c')) : WellTyped expected v := by
  have hplace := hconcrete.isPlaceholder
  simp only [LogicalType.isPlaceholder, Bool.or_eq_false_iff, decide_eq_false_iff_not] at hplace
  obtain ⟨⟨hany, hinvalid⟩, hnull⟩ := hplace
  have hbool : ∀ b v, coerceBool text casts b expected = .ok v → WellTyped expected v := by
    intro b v h
    simp only [coerceBool, hany, hinvalid, or_false] at h
    split_ifs at h with hsame
    · obtain rfl := Except.ok.inj h
      rw [hsame]
      exact .leaf rfl _
    · exact hsound.castBool _ _ _ (orElse_eq_ok.mp h)
  have hnumber : ∀ raw v, coerceJsonNumber text casts raw expected = .ok v → WellTyped expected v := by
    intro raw v h
    simp only [coerceJsonNumber, hany, hinvalid, hnull, or_false, if_false, coerceNumberFromString] at h
    split_ifs at h
    exact hsound.castText _ _ _ (orElse_eq_ok.mp h)
  have hstring : ∀ s v, coerceJsonString text casts s expected = .ok v → WellTyped expected v := by
    intro s v h
    simp only [coerceJsonString, hany, hinvalid, or_false] at h
    have hcast := orElse_eq_ok.mp h
    split_ifs at hcast with hsame
    · rw [hsame]
      exact hsound.varchar _ _ hcast
    · exact hsound.castText _ _ _ hcast
  -- the cursor that comes with a value says nothing about its type
  have hpair : ∀ {x : Except Bytes Value} {d : Cursor},
      (x >>= fun v => (.ok (v, d) : Except Bytes (Value × Cursor))) = .ok (v, c') → x = .ok v := by
    intro x d hx
    obtain ⟨w, hw, hx⟩ := bind_eq_ok.mp hx
    obtain ⟨rfl, -⟩ := Prod.mk.inj (Except.ok.inj hx)
    exact hw
  rw [decodeOne] at h
  cases hrest : (skipWhitespace c).rest with
  | nil =>
      simp only [hrest] at h
      cases h
  | cons b s =>
      rw [hrest, List.head?_cons, Option.some_inj.ne] at hbrace hbracket
      simp only [hrest, if_neg hbrace, if_neg hbracket] at h
      split_ifs at h
      · obtain ⟨rfl, -⟩ := Prod.mk.inj (Except.ok.inj h)
        exact .null expected
      · exact hbool true v (hpair h)
      · exact hbool false v (hpair h)
      · obtain ⟨⟨s, d⟩, -, h⟩ := bind_eq_ok.mp h
        exact hstring s v (hpair h)
      · exact hnumber _ v (hpair h)

end Sound

/-! ## The types of a call's value -/

section Calls

variable {text : DuckText} {casts : DuckCasts} {g : Call → Except Bytes (Value × Cursor)}

theorem Calls.head {a b : Call} {k : Place} (h : Calls text casts g a k b) :
    (skipWhitespace a.1).rest.head? = some (if k = .element then 0x5B else 0x7B) := by
  cases h with
  | element _ hopen => exact hopen
  | entry hopen => exact hopen
  | field hopen => exact hopen
  | wrapped hopen => exact hopen

/-- A wrapper decodes its value and nothing else. -/
theorem Calls.of_wrapped {a b b' : Call} {k : Place} (h : Calls text casts g a .wrapped b)
    (h' : Calls text casts g a k b') :
    k = .wrapped ∧ b' = b := by
  have hhead := h.head.symm.trans h'.head
  cases h with
  | wrapped _ htyped hbrace hloop htype hvalue hparse =>
      cases h' with
      | element => exact absurd hhead (by decide)
      | entry => exact absurd hhead (by decide)
      | field _ hno => exact absurd (hno.symm.trans htyped) (by decide)
      | wrapped _ _ hbrace' hloop' htype' hvalue' hparse' =>
          obtain rfl := Except.ok.inj (hbrace.symm.trans hbrace')
          obtain ⟨rfl, -⟩ := Prod.mk.inj (Except.ok.inj (hloop.symm.trans hloop'))
          obtain rfl := Option.some.inj (htype.symm.trans htype')
          obtain rfl := Option.some.inj (hvalue.symm.trans hvalue')
          obtain rfl := Except.ok.inj (hparse.symm.trans hparse')
          exact ⟨rfl, rfl⟩

/-- The calls for a type without placeholders are for such types; so is the one for the value of a wrapper. -/
theorem Calls.concrete {a b : Call} {k : Place} (h : Calls text casts g a k b) (ha : a.2.Concrete) :
    b.2.Concrete := by
  cases h with
  | element hexpected =>
      rcases hexpected with rfl | ⟨n, rfl⟩
      · cases ha with
        | leaf hleaf => cases hleaf
        | list hc => exact hc
      · cases ha with
        | leaf hleaf => cases hleaf
        | array hc => exact hc
  | entry _ _ _ hb =>
      cases ha with
      | leaf hleaf => cases hleaf
      | map hkey hvalue =>
          obtain ⟨c₁, -, rfl | ⟨r, c₂, -, -, rfl⟩⟩ := hb
          · exact hkey
          · exact hvalue
  | field _ _ _ _ hb =>
      cases ha with
      | leaf hleaf => cases hleaf
      | struct hfields =>
          obtain ⟨key, c₁, field, -, -, hfield, -, htype⟩ := hb
          rw [htype]
          exact hfields field (List.mem_of_getElem? hfield)
  | wrapped _ _ _ _ _ _ hparse => exact concrete_of_parse hparse

/-- What the types of a value say about the call that it comes from. -/
def TypesOf (text : DuckText) (casts : DuckCasts) (g : Call → Except Bytes (Value × Cursor)) (a : Call)
    (v : Value) : Prop :=
  (∀ t, DecodedAs text casts g a t ↔ v.type = t) ∧ ∀ T, WellTyped T v ↔ ¬ Mistyped text casts g T a

theorem typesOf_wrapped {a b : Call} {v : Value} (h : Calls text casts g a .wrapped b)
    (hb : TypesOf text casts g b v) : TypesOf text casts g a v := by
  refine ⟨fun t => ?_, fun T => ?_⟩
  · rw [← hb.1 t]
    refine ⟨fun hdecoded => ?_, .wrapped h⟩
    cases hdecoded with
    | here hno => exact absurd h (hno b)
    | wrapped h' hb' =>
        obtain ⟨-, rfl⟩ := h.of_wrapped h'
        exact hb'
  · rw [hb.2 T]
    refine not_congr ⟨.wrapped h, fun hmistyped => ?_⟩
    cases hmistyped with
    | type hdecoded hne =>
        cases hdecoded with
        | here hno => exact absurd h (hno b)
        | wrapped h' hb' =>
            obtain ⟨-, rfl⟩ := h.of_wrapped h'
            exact .type hb' hne
    | wrapped h' hb' =>
        obtain ⟨-, rfl⟩ := h.of_wrapped h'
        exact hb'
    | element h' => exact nomatch (h.of_wrapped h').1
    | field _ h' => exact nomatch (h.of_wrapped h').1

/-- A value that is no wrapper has the type that is expected of it. -/
theorem typesOf_plain {a : Call} {v : Value} (hno : ∀ b, ¬ Calls text casts g a .wrapped b)
    (htype : v.type = a.2)
    (hchildren : WellTyped a.2 v ↔ ¬ ((∃ b, Calls text casts g a .element b ∧ Mistyped text casts g b.2 b) ∨
      (∀ b, Calls text casts g a .field b → DecodedAs text casts g b b.2) ∧
        ∃ b, Calls text casts g a .field b ∧ Mistyped text casts g b.2 b)) : TypesOf text casts g a v := by
  have hdecoded : ∀ t, DecodedAs text casts g a t ↔ a.2 = t := by
    intro t
    constructor
    · intro h
      cases h with
      | here => rfl
      | wrapped h => exact absurd h (hno _)
    · rintro rfl
      exact .here hno
  refine ⟨fun t => by rw [hdecoded, htype], fun T => ?_⟩
  by_cases hsame : a.2 = T
  · subst hsame
    rw [hchildren]
    refine not_congr ⟨?_, fun h => ?_⟩
    · rintro (⟨b, hcall, hb⟩ | ⟨hall, b, hcall, hb⟩)
      · exact .element hcall hb
      · exact .field hall hcall hb
    · cases h with
      | type h hne => exact absurd ((hdecoded _).mp h).symm hne
      | wrapped h => exact absurd h (hno _)
      | element hcall hb => exact Or.inl ⟨_, hcall, hb⟩
      | field hall hcall hb => exact Or.inr ⟨hall, _, hcall, hb⟩
  · refine iff_of_false (fun h => hsame ?_) (not_not_intro (.type ((hdecoded _).mpr rfl) hsame))
    exact htype.symm.trans h.type_eq

/-- The values of all calls have the types that are expected, if none of the calls is mistyped. -/
theorem allCalls_wellTyped_iff {a : Call} {k : Place} (hall : AllCalls text casts g a k fun _ _ => True)
    (h : ∀ b r, Calls text casts g a k b → g b = .ok r → TypesOf text casts g b r.1) :
    AllCalls text casts g a k WellTyped ↔ ¬ ∃ b, Calls text casts g a k b ∧ Mistyped text casts g b.2 b := by
  constructor
  · rintro hwell ⟨b, hcall, hb⟩
    obtain ⟨r, hr, hv⟩ := hwell b hcall
    exact ((h b r hcall hr).2 b.2).mp hv hb
  · intro hnone b hcall
    obtain ⟨r, hr, -⟩ := hall b hcall
    exact ⟨r, hr, ((h b r hcall hr).2 b.2).mpr fun hb => hnone ⟨b, hcall, hb⟩⟩

end Calls

theorem wellTyped_list_iff {c : LogicalType} {vs : List Value} :
    WellTyped (.list c) (.nested (.list c) vs) ↔ ∀ v ∈ vs, WellTyped c v := by
  constructor
  · intro h
    cases h with
    | list h => exact h
  · exact .list

theorem wellTyped_array {c : LogicalType} {vs : List Value} :
    WellTyped (.array c vs.length) (.nested (.array c vs.length) vs) ↔ ∀ v ∈ vs, WellTyped c v := by
  constructor
  · intro h
    cases h with
    | array _ h => exact h
  · exact .array rfl

theorem wellTyped_struct_iff {fs : Fields} {vs : List Value} (hlen : vs.length = fs.toList.length) :
    WellTyped (.struct fs) (.nested (.struct fs) vs) ↔ ∀ p ∈ fs.toList.zip vs, WellTyped p.1.2 p.2 := by
  constructor
  · intro h
    cases h with
    | struct _ h => exact h
  · exact .struct hlen

theorem wellTyped_map_iff {k t : LogicalType} {es : List (Value × Value)} :
    WellTyped (.map k t) (.nested (.map k t) (es.map fun e => .nested (.entry k t) [e.1, e.2])) ↔
      ∀ e ∈ es, WellTyped k e.1 ∧ WellTyped t e.2 := by
  constructor
  · intro h
    generalize hes : (es.map fun e => Value.nested (.entry k t) [e.1, e.2]) = children at h
    cases h with
    | @map _ _ es' hkey hvalue =>
        have hinjective : Function.Injective fun e : Value × Value => Value.nested (.entry k t) [e.1, e.2] := by
          rintro ⟨a, b⟩ ⟨a', b'⟩ heq
          cases heq
          rfl
        obtain rfl := List.map_injective_iff.mpr hinjective hes
        exact fun e he => ⟨hkey e he, hvalue e he⟩
  · exact fun h => .map (fun e he => (h e he).1) fun e he => (h e he).2

section Decode

variable {text : DuckText} {casts : DuckCasts} {g : Call → Except Bytes (Value × Cursor)}

/-- A LIST, an ARRAY or a MAP. -/
theorem typesOf_array (hkeeps : casts.Keeps) {c : Cursor} {expected : LogicalType} {v : Value} {c' : Cursor}
    (hopen : (skipWhitespace c).rest.head? = some 0x5B)
    (hcalls : ∀ b k r, Calls text casts g (c, expected) k b → g b = .ok r → TypesOf text casts g b r.1)
    (h : decodeArray text casts (fun c t => g (c, t)) (skipWhitespace c) expected = .ok (v, c')) :
    TypesOf text casts g (c, expected) v := by
  -- a tree that opens with a bracket asks for elements only
  have hhead : ∀ b k, Calls text casts g (c, expected) k b → k = .element := by
    intro b k hcall
    by_contra hk
    have hbrace := hcall.head
    rw [if_neg hk] at hbrace
    exact absurd (hopen.symm.trans hbrace) (by decide)
  -- so it is left to say how the type of the value comes from those of its children
  have hresult : ∀ (htype : v.type = expected)
      (hall : AllCalls text casts g (c, expected) .element fun _ _ => True)
      (hchildren : WellTyped expected v ↔ AllCalls text casts g (c, expected) .element WellTyped),
      TypesOf text casts g (c, expected) v := by
    intro htype hall hchildren
    refine typesOf_plain (fun b hb => nomatch hhead b _ hb) htype ?_
    rw [hchildren, allCalls_wellTyped_iff hall fun b r hb hr => hcalls b _ r hb hr]
    refine not_congr (or_iff_left ?_).symm
    rintro ⟨-, b, hb, -⟩
    exact nomatch hhead b _ hb
  cases expected with
  | list child =>
      obtain ⟨d, hbracket, h⟩ := bind_eq_ok.mp h
      obtain ⟨⟨vs, e⟩, hread, h⟩ := bind_eq_ok.mp h
      obtain ⟨w, hw, h⟩ := bind_eq_ok.mp h
      obtain ⟨rfl, -⟩ := Prod.mk.inj (Except.ok.inj h)
      obtain rfl := hkeeps.list _ _ _ (orElse_eq_ok.mp hw)
      have hiff := fun P => elements_iff text casts P (Or.inl rfl) hopen hbracket hread
      refine hresult rfl ((hiff _).mp fun _ _ => trivial) ?_
      rw [wellTyped_list_iff, hiff WellTyped]
  | array child size =>
      obtain ⟨d, hbracket, h⟩ := bind_eq_ok.mp h
      obtain ⟨⟨vs, e⟩, hread, h⟩ := bind_eq_ok.mp h
      simp only at h
      split_ifs at h with hlen
      obtain ⟨w, hw, h⟩ := bind_eq_ok.mp h
      obtain ⟨rfl, -⟩ := Prod.mk.inj (Except.ok.inj h)
      obtain rfl := hkeeps.array _ _ _ (orElse_eq_ok.mp hw)
      obtain rfl : vs.length = size := not_not.mp hlen
      have hiff := fun P => elements_iff text casts P (Or.inr ⟨vs.length, rfl⟩) hopen hbracket hread
      refine hresult rfl ((hiff _).mp fun _ _ => trivial) ?_
      rw [wellTyped_array, hiff WellTyped]
  | map key value =>
      obtain ⟨d, hbracket, h⟩ := bind_eq_ok.mp h
      obtain ⟨⟨es, e⟩, hread, h⟩ := bind_eq_ok.mp h
      obtain ⟨w, hw, h⟩ := bind_eq_ok.mp h
      obtain ⟨rfl, -⟩ := Prod.mk.inj (Except.ok.inj h)
      obtain rfl := hkeeps.map _ _ _ _ (orElse_eq_ok.mp hw)
      have hiff := fun P => entries_iff text casts P hopen hbracket hread
      refine hresult rfl ((hiff _).mp fun _ _ => ⟨trivial, trivial⟩) ?_
      rw [wellTyped_map_iff, hiff WellTyped]
  | _ => exact nomatch h

/-- A STRUCT: one that has its type already is kept, any other is converted. -/
theorem typesOf_struct (htyped : casts.Typed) (hstruct : casts.StructCast) (hsound : casts.Sound) {c : Cursor}
    {expected : LogicalType} {v : Value} {c' : Cursor} (hopen : (skipWhitespace c).rest.head? = some 0x7B)
    (hlooks : looksTyped (skipWhitespace c) = false)
    (hcalls : ∀ b k r, Calls text casts g (c, expected) k b → g b = .ok r → TypesOf text casts g b r.1)
    (h : decodeStruct text casts (fun c t => g (c, t)) (skipWhitespace c) expected = .ok (v, c')) :
    TypesOf text casts g (c, expected) v := by
  have hhead : ∀ b k, Calls text casts g (c, expected) k b → k = .field := by
    intro b k hcall
    cases hcall with
    | element _ hbracket => exact absurd (hopen.symm.trans hbracket) (by decide)
    | entry hbracket => exact absurd (hopen.symm.trans hbracket) (by decide)
    | field => rfl
    | wrapped _ htyped => exact absurd (hlooks.symm.trans htyped) (by decide)
  cases expected with
  | struct fs =>
      obtain ⟨d, hbrace, h⟩ := bind_eq_ok.mp h
      obtain ⟨⟨seen, e⟩, hread, h⟩ := bind_eq_ok.mp h
      obtain ⟨w, hw, h⟩ := bind_eq_ok.mp h
      obtain ⟨rfl, -⟩ := Prod.mk.inj (Except.ok.inj h)
      have hcast : casts.castStruct (structValues fs.toList seen) (.struct fs) = .ok w := orElse_eq_ok.mp hw
      have htype := htyped.castStruct _ _ _ hcast
      have hiff := fun P hnull => fields_iff casts P hnull hopen hlooks hbrace hread
      have hlen := (hiff WellTyped .null).1
      have hall := (hiff (fun _ _ => True) fun _ => trivial).2.mp fun _ _ => trivial
      -- the children have the types of the fields if every call was decoded as it asked
      have hdecoded : (structValues fs.toList seen).map (fun v => (v.1, v.2.type)) = fs.toList ↔
          ∀ b, Calls text casts g (c, .struct fs) .field b → DecodedAs text casts g b b.2 := by
        rw [structValues_types_iff hlen, (hiff (fun t v => v.type = t) fun _ => rfl).2]
        refine forall_congr' fun b => forall_congr' fun hb => ?_
        obtain ⟨r, hr, -⟩ := hall b hb
        rw [(hcalls b _ r hb hr).1 b.2]
        refine ⟨?_, fun hv => ⟨r, hr, hv⟩⟩
        rintro ⟨r', hr', hv⟩
        obtain rfl := Except.ok.inj (hr.symm.trans hr')
        exact hv
      have hnoElement : ¬ ∃ b, Calls text casts g (c, .struct fs) .element b ∧ Mistyped text casts g b.2 b := by
        rintro ⟨b, hb, -⟩
        exact nomatch hhead b _ hb
      refine typesOf_plain (fun b hb => nomatch hhead b _ hb) htype ?_
      rw [or_iff_right hnoElement, ← hdecoded]
      -- then the cast changes nothing; else it casts the wrong children and the value is not well typed
      by_cases hsame : (structValues fs.toList seen).map (fun v => (v.1, v.2.type)) = fs.toList
      · obtain rfl := Except.ok.inj ((hstruct.same _ _ hsame).symm.trans hcast)
        have hchildren := @wellTyped_struct_iff fs ((structValues fs.toList seen).map Prod.snd)
          (by rw [List.length_map, structValues, List.length_zipWith, hlen, Nat.min_self])
        rw [hchildren, (hiff WellTyped .null).2,
          allCalls_wellTyped_iff hall fun b r hb hr => hcalls b _ r hb hr, and_iff_right hsame]
      · exact iff_of_true (hsound.castStruct _ _ _ hsame hcast) fun h => hsame h.1
  | _ => exact nomatch h

/-- **Every call**, by induction on what is left of the text. -/
theorem typesOf_decodeCall (htyped : casts.Typed) (hkeeps : casts.Keeps) (hstruct : casts.StructCast)
    (hsound : casts.Sound) {a : Call} (ha : a.2.Concrete) {r : Value × Cursor}
    (h : decodeCall text casts a = .ok r) :
    TypesOf text casts (decodeCall text casts) a r.1 := by
  induction hn : a.1.rest.length using Nat.strong_induction_on generalizing a r with
  | _ n ih =>
      obtain ⟨c, expected⟩ := a
      obtain ⟨v, c'⟩ := r
      -- every call made inside has less text left, so it is typed by the induction
      have hcalls : ∀ b k r, Calls text casts (decodeCall text casts) (c, expected) k b →
          decodeCall text casts b = .ok r → TypesOf text casts (decodeCall text casts) b r.1 := by
        intro b k r hcall hr
        have hshorter := hcall.length_lt shrinks_decodeCall
        exact ih b.1.rest.length (by omega) (hcall.concrete ha) hr rfl
      rw [← decodeBody_decodeCall, decodeBody] at h
      by_cases hbrace : (skipWhitespace c).rest.head? = some 0x7B
      · simp only [if_pos hbrace] at h
        cases hlooks : looksTyped (skipWhitespace c) with
        | true =>
            rw [if_pos hlooks, decodeTypedWrapper] at h
            obtain ⟨d, hd, h⟩ := bind_eq_ok.mp h
            obtain ⟨⟨⟨type, value⟩, e⟩, hloop, h⟩ := bind_eq_ok.mp h
            cases type with
            | none => cases h
            | some typeString =>
                cases value with
                | none => cases h
                | some raw =>
                    cases hparse : parseType casts.types typeString with
                    | error error =>
                        simp only [hparse] at h
                        cases h
                    | ok t =>
                        simp only [hparse] at h
                        obtain ⟨⟨w, d'⟩, hw, h⟩ := bind_eq_ok.mp h
                        obtain ⟨rfl, -⟩ := Prod.mk.inj (Except.ok.inj h)
                        have hcall :
                            Calls text casts (decodeCall text casts) (c, expected) .wrapped (.start raw, t) :=
                          .wrapped hbrace hlooks hd hloop rfl rfl hparse
                        exact typesOf_wrapped hcall (hcalls _ _ (_, d') hcall hw)
        | false =>
            rw [hlooks, if_neg Bool.false_ne_true] at h
            exact typesOf_struct htyped hstruct hsound hbrace hlooks hcalls h
      · simp only [if_neg hbrace] at h
        by_cases hbracket : (skipWhitespace c).rest.head? = some 0x5B
        · rw [if_pos hbracket] at h
          exact typesOf_array hkeeps hbracket hcalls h
        · rw [if_neg hbracket] at h
          -- a leaf makes no call
          have hnone : ∀ b k, ¬ Calls text casts (decodeCall text casts) (c, expected) k b := by
            intro b k hcall
            have hhead := hcall.head
            cases k with
            | element => exact hbracket hhead
            | field => exact hbrace hhead
            | wrapped => exact hbrace hhead
          rw [← skipWhitespace_idem] at hbrace hbracket
          have hwell := wellTyped_leaf hsound hbrace hbracket ha h
          refine typesOf_plain (fun b hb => hnone b _ hb) hwell.type_eq (iff_of_true hwell ?_)
          rintro (⟨b, hb, -⟩ | ⟨-, b, hb, -⟩)
          · exact hnone b _ hb
          · exact hnone b _ hb

/-- **When the types of a decoded value are right.** The value of a typed wrapper has the type that the wrapper
names, and so has everything in it, exactly when no wrapper of another type stands for it or for an element, a
key or a value in it. -/
theorem wellTyped_iff (htyped : casts.Typed) (hkeeps : casts.Keeps) (hstruct : casts.StructCast)
    (hsound : casts.Sound) {typeJson ts J : Bytes} {T : LogicalType} (htype : IsStringText typeJson ts)
    (hvalue : IsValueText J) (hparse : parseType casts.types ts = .ok T) {expectedTypes : List LogicalType}
    (hmode : expectedTypes = [] ∨ looksTyped (.start (typedWrapper typeJson J)) = true) {v : Value}
    (h : decodeParams text casts (0x5B :: typedWrapper typeJson J ++ [0x5D]) expectedTypes = .ok [v]) :
    WellTyped T v ↔ ¬ Mistyped text casts (decodeCall text casts) T (.start J, T) := by
  have hlooks : looksTyped (.start (typedWrapper typeJson J)) = true := by
    rcases hmode with rfl | hlooks
    · exact looksTyped_of_decodeParams htype h
    · exact hlooks
  rw [decodeParams_typedWrapper htype hvalue hparse hlooks] at h
  obtain ⟨r, hr, h⟩ := bind_eq_ok.mp h
  split_ifs at h
  obtain ⟨rfl, -⟩ := List.cons.inj (Except.ok.inj h)
  have hT : T.Concrete := concrete_of_parse hparse
  exact (typesOf_decodeCall (a := (.start J, T)) htyped hkeeps hstruct hsound hT hr).2 T

end Decode

/-- The types of what is in the value. -/
def childTypes : Value → List LogicalType
  | .nested _ vs => vs.map Value.type
  | _ => []

theorem childTypes_of_list {c : LogicalType} {v : Value} (h : WellTyped (.list c) v) :
    ∀ t ∈ childTypes v, t = c := by
  cases h with
  | null => exact fun t ht => nomatch ht
  | leaf hleaf => cases hleaf
  | list h =>
      intro t ht
      obtain ⟨v, hv, rfl⟩ := List.mem_map.mp ht
      exact (h v hv).type_eq

theorem exists_of_childTypes {x : Except Bytes (List Value)} (ts : List LogicalType)
    (h : x.toOption.map (List.map childTypes) = some [ts]) : ∃ v, x = .ok [v] ∧ childTypes v = ts := by
  obtain ⟨vs, hvs, hmap⟩ := Option.map_eq_some_iff.mp h
  obtain ⟨v, rfl, hv⟩ := List.map_eq_singleton_iff.mp hmap
  exact ⟨v, toOption_eq_some.mp hvs, hv⟩

/-- `{"type": "LIST<INTEGER>", "value": [1]}` -/
theorem wellTyped_iff_list : ∃ v,
    decodeParams DuckText.numerals DuckCasts.simple
        (0x5B :: typedWrapper (0x22 :: lit "LIST<INTEGER>" ++ [0x22]) (lit "[1]") ++ [0x5D]) [] = .ok [v] ∧
      (WellTyped (.list (.scalar .integer)) v ↔
        ¬ Mistyped DuckText.numerals DuckCasts.simple (decodeCall DuckText.numerals DuckCasts.simple)
          (.list (.scalar .integer)) (.start (lit "[1]"), .list (.scalar .integer))) := by
  obtain ⟨v, hv, -⟩ := exists_of_childTypes (x := decodeParams DuckText.numerals DuckCasts.simple
    (0x5B :: typedWrapper (0x22 :: lit "LIST<INTEGER>" ++ [0x22]) (lit "[1]") ++ [0x5D]) [])
    [.scalar .integer] (by decide +kernel)
  exact ⟨v, hv, wellTyped_iff DuckCasts.simple_typed DuckCasts.simple_keeps DuckCasts.simple_structCast
    DuckCasts.simple_sound (isStringText_plain (s := lit "LIST<INTEGER>") (by decide)) (by decide +kernel) rfl
    (Or.inl rfl) hv⟩

/-- `{"type": "LIST<INTEGER>", "value": [{"type": "VARCHAR", "value": "a"}]}` becomes a LIST of INTEGERs with
a VARCHAR in it. -/
theorem not_wellTyped : ¬ ∀ (typeJson ts J : Bytes) (T : LogicalType) (v : Value),
    IsStringText typeJson ts → IsValueText J → parseType .documented ts = .ok T →
      decodeParams DuckText.numerals DuckCasts.simple (0x5B :: typedWrapper typeJson J ++ [0x5D]) [] = .ok [v] →
        WellTyped T v := by
  intro hall
  generalize hJ : 0x5B :: typedWrapper (0x22 :: lit "VARCHAR" ++ [0x22]) (lit "\"a\"") ++ [0x5D] = J
  obtain ⟨v, hv, htypes⟩ := exists_of_childTypes (x := decodeParams DuckText.numerals DuckCasts.simple
    (0x5B :: typedWrapper (0x22 :: lit "LIST<INTEGER>" ++ [0x22]) J ++ [0x5D]) []) [.scalar .varchar]
    (by rw [← hJ]; decide +kernel)
  have hwell := hall (0x22 :: lit "LIST<INTEGER>" ++ [0x22]) (lit "LIST<INTEGER>") J (.list (.scalar .integer)) v
    (isStringText_plain (by decide)) (by rw [← hJ]; decide +kernel) rfl hv
  have hsame := childTypes_of_list hwell (.scalar .varchar) (by rw [htypes]; exact List.mem_singleton_self _)
  exact absurd hsame (by decide)

end ParamDecoder

end Harbor
