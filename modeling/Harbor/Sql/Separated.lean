import Harbor.Sql.Lossless

set_option autoImplicit false

/-! # Which types keep the lossless promise

`Distinguishes text t` says that two values of `t` with the same JSON are the same value. By
induction over the type it holds for every separated type (`distinguishes_of_separated`); and in
every other type two different values with the same JSON are found, NULL everywhere but where the
loss is (`collides_of_not_separated`). `lossless_iff` puts the two together over the bytes the
encoder writes.
-/

namespace Harbor

open Json Encoder

variable {text : DuckText}

/-- Values of the type with the same JSON are the same. -/
def Distinguishes (text : DuckText) (t : LogicalType) : Prop :=
  ∀ v w j k, Has t v → Has t w → valueJson text t v = .ok j → valueJson text t w = .ok k →
    view j = view k → v = w

/-! ## NULL is seen -/

theorem view_ne_null {t : LogicalType} {v : Value} {j : Json} (h : Has t v) (hv : v.isNull = false)
    (hj : valueJson text t v = .ok j) : view j ≠ .null := by
  cases h with
  | null => cases hv
  | @scalar id d h =>
      have hid : id ≠ .sqlNull := by
        rintro rfl
        cases d <;> exact h
      rcases scalarJson_form hid hj with ⟨x, rfl⟩ | ⟨x, rfl⟩ | ⟨x, rfl⟩ | ⟨-, _, _, _, rfl⟩ <;>
        exact fun h => nomatch h
  | decimal h =>
      cases hj
      exact fun h => nomatch h
  | list h =>
      obtain ⟨js, -, rfl⟩ := valueJson_list.mp hj
      exact fun h => nomatch h
  | array _ h =>
      obtain ⟨js, -, rfl⟩ := valueJson_array.mp hj
      exact fun h => nomatch h
  | struct h =>
      obtain ⟨ms, -, rfl⟩ := valueJson_struct.mp hj
      exact fun h => nomatch h
  | map _ _ _ _ =>
      obtain ⟨ps, -, rfl⟩ := valueJson_map.mp hj
      exact fun h => nomatch h
  | union h =>
      obtain ⟨w, -, hw⟩ := valueJson_union.mp hj
      obtain ⟨f, x, -, -, rfl⟩ := memberJson_eq_ok.mp hw
      exact fun h => nomatch h
  | enum h =>
      rw [valueJson_enum h] at hj
      cases hj
      exact fun h => nomatch h
  | other n d =>
      cases hj
      exact fun h => nomatch h

/-- With the NULLs out of the way, only values that are not NULL have to be told apart. -/
theorem distinguishes_of_not_null {t : LogicalType}
    (h : ∀ v w j k, Has t v → Has t w → v.isNull = false → w.isNull = false →
      valueJson text t v = .ok j → valueJson text t w = .ok k → view j = view k → v = w) :
    Distinguishes text t := by
  intro v w j k hv hw hj hk hview
  cases hvn : v.isNull with
  | true =>
      cases hwn : w.isNull with
      | true =>
          have hnull : ∀ {v}, Has t v → v.isNull = true → v = .null t := by
            intro v hv hvn
            cases hv <;> first | rfl | cases hvn
          rw [hnull hv hvn, hnull hw hwn]
      | false =>
          refine absurd ?_ (view_ne_null hw hwn hk)
          cases hv <;> first | cases hvn
          rw [valueJson_null] at hj
          cases hj
          exact hview.symm
  | false =>
      cases hwn : w.isNull with
      | true =>
          refine absurd ?_ (view_ne_null hv hvn hj)
          cases hw <;> first | cases hwn
          rw [valueJson_null] at hk
          cases hk
          exact hview
      | false => exact h v w j k hv hw hvn hwn hj hk hview

/-! ## Containers -/

/-- Two lists that match lists of the same pictures are the same, if the elements are. -/
theorem eq_of_forall₂ {α β γ : Type} {R : α → β → Prop} {f : β → γ} {as cs : List α}
    {bs ds : List β} (h : ∀ a ∈ as, ∀ c ∈ cs, ∀ b d, R a b → R c d → f b = f d → a = c)
    (hab : List.Forall₂ R as bs) (hcd : List.Forall₂ R cs ds) (hf : bs.map f = ds.map f) :
    as = cs := by
  induction hab generalizing cs ds with
  | nil =>
      cases hcd with
      | nil => rfl
      | cons _ _ => cases hf
  | cons hb _ ih =>
      cases hcd with
      | nil => cases hf
      | cons hd hcd =>
          obtain ⟨hhead, htail⟩ := List.cons.inj hf
          rw [h _ (by simp) _ (by simp) _ _ hb hd hhead,
            ih (fun a ha c hc => h a (by simp [ha]) c (by simp [hc])) hcd htail]

theorem view_arr (js : List Json) : view (arr js) = .arr (js.map view) := by
  rw [view, sanitized, Json.read, sanitizedList_eq_map]
  congr 1
  induction js with
  | nil => rfl
  | cons j js ih =>
      rw [List.map_cons, readList, ih, List.map_cons]
      rfl

theorem view_obj (ms : List (Bytes × Json)) :
    view (obj ms) = .obj (readMap (sanitizedMembers ms)) := rfl

theorem list_distinguishes {c : LogicalType} (ih : Distinguishes text c) {vs ws : List Value}
    {js ks : List Json} (hvs : ∀ v ∈ vs, Has c v) (hws : ∀ w ∈ ws, Has c w)
    (hjs : List.Forall₂ (fun v j => valueJson text c v = .ok j) vs js)
    (hks : List.Forall₂ (fun w k => valueJson text c w = .ok k) ws ks)
    (h : view (arr js) = view (arr ks)) : vs = ws := by
  rw [view_arr, view_arr] at h
  exact eq_of_forall₂ (fun v hv w hw j k hj hk => ih v w j k (hvs v hv) (hws w hw) hj hk) hjs hks
    (JVal.arr.inj h)

/-- The names of the members of a STRUCT are those of its fields. -/
theorem names_fieldsJson {fs : Fields} {vs : List Value} {ms : List (Bytes × Json)}
    (hvs : HasFields fs vs) (h : fieldsJson text fs vs = .ok ms) :
    (sanitizedMembers ms).map Prod.fst = fs.names.map sanitize := by
  induction fs using Fields.induction generalizing vs ms with
  | nil =>
      cases h
      rfl
  | cons n t fs ih =>
      cases hvs with
      | cons hv hvs =>
          obtain ⟨j, ms', -, hms, rfl⟩ := fieldsJson_cons.mp h
          rw [sanitizedMembers, List.map_cons, ih hvs hms, Fields.names_cons, List.map_cons]
          rfl

theorem names_sanitize {fs : Fields} (h : fs.Valid) : fs.names.map sanitize = fs.names := by
  have hall : ∀ n ∈ fs.names, sanitize n = n := by
    intro n hn
    obtain ⟨f, hf, rfl⟩ := List.mem_map.mp hn
    exact sanitize_of_isUtf8 (h.of_mem f hf).1
  rw [List.map_congr_left hall, List.map_id']

/-- A value of a type that has only NULL. -/
theorem eq_null_of_onlyNull {t : LogicalType} (ht : t.onlyNull = true) {v : Value} (h : Has t v) :
    v = .null t := by
  cases h with
  | null => rfl
  | @scalar id d h =>
      obtain rfl : id = .sqlNull := by simpa [LogicalType.onlyNull] using ht
      cases d <;> exact h.elim
  | enum h =>
      rename_i ls i
      obtain rfl : ls = [] := by simpa [LogicalType.onlyNull] using ht
      exact absurd h (by simp)
  | union h =>
      rename_i ms i vs
      obtain ⟨f, v, hf, -⟩ := hasMember_iff.mp h
      have hnil : ms.toList = [] := by simpa [LogicalType.onlyNull, Fields.names] using ht
      simp [hnil] at hf
  | _ => cases ht

/-- The fields of a STRUCT, read as a map. A field whose name does not come again is what the map
has under it; one whose name comes again is hidden, and has only NULL. -/
theorem fields_distinguish {fs : Fields} (hvalid : fs.Valid) (hshadow : fs.unshadowed = true)
    (ih : ∀ f ∈ fs.toList, Distinguishes text f.2) {vs ws : List Value}
    {ms ns : List (Bytes × Json)} (hvs : HasFields fs vs) (hws : HasFields fs ws)
    (hms : fieldsJson text fs vs = .ok ms) (hns : fieldsJson text fs ws = .ok ns)
    (h : readMap (sanitizedMembers ms) = readMap (sanitizedMembers ns)) : vs = ws := by
  induction fs using Fields.induction generalizing vs ws ms ns with
  | nil =>
      cases hvs
      cases hws
      rfl
  | cons n t fs ihfs =>
      cases hvs with
      | @cons _ _ _ v vs hv hvs =>
      cases hws with
      | @cons _ _ _ w ws hw hws =>
      obtain ⟨hn, -, hfs⟩ := hvalid
      simp only [Fields.unshadowed, Bool.and_eq_true, Bool.or_eq_true, Bool.not_eq_true',
        List.contains_eq_mem, decide_eq_false_iff_not] at hshadow
      obtain ⟨j, ms, hj, hms', rfl⟩ := fieldsJson_cons.mp hms
      obtain ⟨k, ns, hk, hns', rfl⟩ := fieldsJson_cons.mp hns
      have hmnames := (names_fieldsJson hvs hms').trans (names_sanitize hfs)
      have hnnames := (names_fieldsJson hws hns').trans (names_sanitize hfs)
      have hsn : sanitize n = n := sanitize_of_isUtf8 hn
      simp only [sanitizedMembers, sanitizedMember, hsn] at h
      have htail : readMap (sanitizedMembers ms) = readMap (sanitizedMembers ns) := by
        funext k
        by_cases hmem : k ∈ fs.names
        · have hk := congrFun h k
          rwa [readMap_cons_of_some (hmnames ▸ hmem), readMap_cons_of_some (hnnames ▸ hmem)] at hk
        · rw [readMap_eq_none_iff.mpr (hmnames ▸ hmem), readMap_eq_none_iff.mpr (hnnames ▸ hmem)]
      have hhead : v = w := by
        rcases hshadow.1 with honly | hnotin
        · rw [eq_null_of_onlyNull honly hv, eq_null_of_onlyNull honly hw]
        · have hself := congrFun h n
          rw [readMap_cons_self (m := (n, j.sanitized)) (by rwa [hmnames]),
            readMap_cons_self (m := (n, k.sanitized)) (by rwa [hnnames])] at hself
          exact ih (n, t) List.mem_cons_self v w j k hv hw hj hk (Option.some.inj hself)
      have hrest := ihfs hfs hshadow.2 (fun f hf => ih f (List.mem_cons_of_mem _ hf)) hvs hws hms' hns'
        htail
      rw [hhead, hrest]

/-- The entries of a MAP. -/
theorem map_distinguishes {k w : LogicalType} (ihk : Distinguishes text k)
    (ihw : Distinguishes text w) {es fs : List (Value × Value)} {ps qs : List (Json × Json)}
    (hek : ∀ e ∈ es, Has k e.1) (hew : ∀ e ∈ es, Has w e.2) (hfk : ∀ e ∈ fs, Has k e.1)
    (hfw : ∀ e ∈ fs, Has w e.2)
    (hps : List.Forall₂ (fun e p => valueJson text k e.1 = .ok p.1 ∧ valueJson text w e.2 = .ok p.2) es ps)
    (hqs : List.Forall₂ (fun e p => valueJson text k e.1 = .ok p.1 ∧ valueJson text w e.2 = .ok p.2) fs qs)
    (h : view (arr (ps.map fun p => arr [p.1, p.2])) = view (arr (qs.map fun p => arr [p.1, p.2]))) :
    es = fs := by
  rw [view_arr, view_arr] at h
  have hpairs := JVal.arr.inj h
  rw [List.map_map, List.map_map] at hpairs
  refine eq_of_forall₂ (fun e he f hf p q hp hq hpq => ?_) hps hqs hpairs
  simp only [Function.comp, view_arr, List.map_cons, List.map_nil, JVal.arr.injEq, List.cons.injEq,
    and_true] at hpq
  exact Prod.ext (ihk _ _ _ _ (hek e he) (hfk f hf) hp.1 hq.1 hpq.1)
    (ihw _ _ _ _ (hew e he) (hfw f hf) hp.2 hq.2 hpq.2)

/-- The tag and the member of a UNION, read off its object. -/
theorem view_member {n m : Bytes} (hn : Bytes.IsUtf8 n) (hm : Bytes.IsUtf8 m) {x y : Json}
    (h : view (obj [(lit "tag", str n), (lit "value", x)]) =
      view (obj [(lit "tag", str m), (lit "value", y)])) : n = m ∧ view x = view y := by
  have hmap := JVal.obj.inj h
  have htag := congrFun hmap (lit "tag")
  have hvalue := congrFun hmap (lit "value")
  simp (disch := decide) only [sanitizedMembers, sanitizedMember, sanitize_ascii, sanitized] at htag hvalue
  simp +decide only [readMap, readMember, Json.read, if_true, if_false, Option.some.injEq,
    JVal.str.injEq] at htag hvalue
  rw [sanitize_of_isUtf8 hn, sanitize_of_isUtf8 hm] at htag
  exact ⟨htag, hvalue⟩

theorem union_distinguishes {ms : Fields} (hvalid : ms.Valid) (hnames : ms.names.Nodup)
    (ih : ∀ m ∈ ms.toList, Distinguishes text m.2) {i k : Nat} {vs ws : List Value} {j l : Json}
    (hvs : HasMember ms i vs) (hws : HasMember ms k ws)
    (hj : valueJson text (.union ms) (.nested (.union ms) (.tag i :: vs)) = .ok j)
    (hl : valueJson text (.union ms) (.nested (.union ms) (.tag k :: ws)) = .ok l)
    (h : view j = view l) : i = k ∧ vs = ws := by
  obtain ⟨v, hi, hv⟩ := valueJson_union.mp hj
  obtain ⟨w, hk, hw⟩ := valueJson_union.mp hl
  obtain ⟨f, x, hf, hx, rfl⟩ := memberJson_eq_ok.mp hv
  obtain ⟨g, y, hg, hy, rfl⟩ := memberJson_eq_ok.mp hw
  obtain ⟨f', v', hf', hv', rfl⟩ := hasMember_iff.mp hvs
  obtain ⟨g', w', hg', hw', rfl⟩ := hasMember_iff.mp hws
  obtain rfl : f = f' := Option.some.inj (hf.symm.trans hf')
  obtain rfl : g = g' := Option.some.inj (hg.symm.trans hg')
  have hfmem := List.mem_of_getElem? hf
  have hgmem := List.mem_of_getElem? hg
  obtain ⟨hname, hview⟩ := view_member (hvalid.of_mem f hfmem).1 (hvalid.of_mem g hgmem).1 h
  have hlen : i < ms.names.length := by
    simpa [Fields.names] using (List.getElem?_eq_some_iff.mp hf).1
  have hik : i = k := by
    refine (List.getElem?_inj hlen hnames).mp ?_
    simp [Fields.names, hf, hg, hname]
  subst hik
  obtain rfl : f = g := Option.some.inj (hf.symm.trans hg)
  have hi' : i < (ms.types.map Value.null).length := by
    simpa [Fields.types] using (List.getElem?_eq_some_iff.mp hf).1
  rw [List.getElem?_set_self hi'] at hi hk
  cases hi
  cases hk
  rw [ih f hfmem v w x y hv' hw' hx hy hview]
  exact ⟨rfl, rfl⟩

/-- **A separated type keeps the promise**, by induction over the type. -/
theorem distinguishes_of_separated (ht : text.Faithful) (t : LogicalType) (hvalid : t.Valid)
    (hcore : t.isCore = true) (hsep : t.separated = true) : Distinguishes text t := by
  induction t using LogicalType.induction_on with
  | scalar id =>
      refine distinguishes_of_not_null fun v w j k hv hw hvn hwn hj hk h => ?_
      have hid : id ≠ .timeTz := by simpa [LogicalType.separated] using hsep
      cases hv with
      | null => cases hvn
      | scalar hd =>
          cases hw with
          | null => cases hwn
          | scalar he => rw [scalar_injective ht hid hd he hj hk h]
  | decimal w s =>
      refine distinguishes_of_not_null fun v x j k hv hx hvn hxn hj hk h => ?_
      cases hv with
      | null => cases hvn
      | decimal hi =>
          cases hx with
          | null => cases hxn
          | decimal hl =>
              cases hj
              cases hk
              have htext := view_ascii_injective (ht.decimal_ascii _ w s) (ht.decimal_ascii _ w s) h
              rw [ht.decimal_inj w s hi hl htext]
  | list c ih =>
      refine distinguishes_of_not_null fun v w j k hv hw hvn hwn hj hk h => ?_
      cases hv with
      | null => cases hvn
      | list hvs =>
          cases hw with
          | null => cases hwn
          | list hws =>
              obtain ⟨js, hjs, rfl⟩ := valueJson_list.mp hj
              obtain ⟨ks, hks, rfl⟩ := valueJson_list.mp hk
              rw [list_distinguishes (ih hvalid hcore hsep) hvs hws hjs hks h]
  | array c n ih =>
      refine distinguishes_of_not_null fun v w j k hv hw hvn hwn hj hk h => ?_
      cases hv with
      | null => cases hvn
      | array _ hvs =>
          cases hw with
          | null => cases hwn
          | array _ hws =>
              obtain ⟨js, hjs, rfl⟩ := valueJson_array.mp hj
              obtain ⟨ks, hks, rfl⟩ := valueJson_array.mp hk
              rw [list_distinguishes (ih hvalid.1 hcore hsep) hvs hws hjs hks h]
  | struct fs ih =>
      refine distinguishes_of_not_null fun v w j k hv hw hvn hwn hj hk h => ?_
      simp only [LogicalType.separated, Bool.and_eq_true, Fields.separated_iff] at hsep
      rw [LogicalType.isCore, Fields.areCore_iff] at hcore
      cases hv with
      | null => cases hvn
      | struct hvs =>
          cases hw with
          | null => cases hwn
          | struct hws =>
              obtain ⟨ms, hms, rfl⟩ := valueJson_struct.mp hj
              obtain ⟨ns, hns, rfl⟩ := valueJson_struct.mp hk
              rw [fields_distinguish hvalid hsep.2 (fun f hf => ih f hf (Fields.Valid.of_mem hvalid f hf).2
                (hcore f hf) (hsep.1 f hf)) hvs hws hms hns (JVal.obj.inj h)]
  | map k w ihk ihw =>
      refine distinguishes_of_not_null fun v x j l hv hx hvn hxn hj hl h => ?_
      simp only [LogicalType.isCore, Bool.and_eq_true] at hcore
      simp only [LogicalType.separated, Bool.or_eq_true, Bool.and_eq_true] at hsep
      cases hv with
      | null => cases hvn
      | @map _ _ es hek hew hen _ =>
          cases hx with
          | null => cases hxn
          | @map _ _ fs hfk hfw hfn _ =>
              rcases hsep with honly | ⟨hk, hw⟩
              · have hempty : ∀ es : List (Value × Value), (∀ e ∈ es, Has k e.1) →
                    (∀ e ∈ es, e.1.isNull = false) → es = [] := by
                  intro es hek hen
                  refine List.eq_nil_iff_forall_not_mem.mpr fun e he => ?_
                  have hnull := hen e he
                  rw [eq_null_of_onlyNull honly (hek e he)] at hnull
                  cases hnull
                rw [hempty es hek hen, hempty fs hfk hfn]
              · obtain ⟨ps, hps, rfl⟩ := valueJson_map.mp hj
                obtain ⟨qs, hqs, rfl⟩ := valueJson_map.mp hl
                rw [map_distinguishes (ihk hvalid.1 hcore.1 hk) (ihw hvalid.2 hcore.2 hw) hek hew
                  hfk hfw hps hqs h]
  | union ms ih =>
      refine distinguishes_of_not_null fun v w j k hv hw hvn hwn hj hk h => ?_
      rw [LogicalType.separated, Fields.separated_iff] at hsep
      rw [LogicalType.isCore, Fields.areCore_iff] at hcore
      cases hv with
      | null => cases hvn
      | union hvs =>
          cases hw with
          | null => cases hwn
          | union hws =>
              obtain ⟨rfl, rfl⟩ := union_distinguishes hvalid.1 hvalid.2 (fun m hm => ih m hm
                (hvalid.1.of_mem m hm).2 (hcore m hm) (hsep m hm)) hvs hws hj hk h
              rfl
  | enum ls =>
      refine distinguishes_of_not_null fun v w j k hv hw hvn hwn hj hk h => ?_
      cases hv with
      | null => cases hvn
      | enum hi =>
          cases hw with
          | null => cases hwn
          | enum hl =>
              rw [valueJson_enum hi] at hj
              rw [valueJson_enum hl] at hk
              cases hj
              cases hk
              have hlabel := view_str_injective (hvalid.1 _ (List.getElem_mem hi))
                (hvalid.1 _ (List.getElem_mem hl)) h
              rw [(List.Nodup.getElem_inj_iff hvalid.2).mp hlabel]
  | other n => cases hcore

/-! ## Where something is lost -/

/-- Two different values of the type, neither NULL, have the same JSON. -/
def Collides (text : DuckText) (t : LogicalType) : Prop :=
  ∃ v w j k, Has t v ∧ Has t w ∧ (v.isNull = false ∧ w.isNull = false ∧ v ≠ w) ∧
    valueJson text t v = .ok j ∧ valueJson text t w = .ok k ∧ view j = view k

/-- A value of each scalar type that is not NULL. -/
def ScalarType.sample : ScalarType → Datum
  | .boolean => .bool false
  | .float | .double => .double .nan
  | .varchar | .blob => .str []
  | .bit => .str [0, 0]
  | .timeTz => .timeTz 0 0
  | .interval => .interval 0 0 0
  | _ => .int 0

theorem sample_has {id : ScalarType} (hid : id ≠ .sqlNull) : id.Has id.sample := by
  cases id with
  | sqlNull => exact absurd rfl hid
  | boolean | float | double | blob => exact trivial
  | varchar => exact ⟨[], rfl⟩
  | bit => exact (by decide : (0 : UInt8).toNat < 8 ∧ (0 : UInt8).toNat / 2 ^ (8 - 0) = 2 ^ 0 - 1)
  | timeTz =>
      exact (by decide : ((0 : Int) ≤ 0 ∧ (0 : Int) ≤ 86400000000) ∧ -57599 ≤ (0 : Int) ∧
        (0 : Int) ≤ 57599)
  | time => exact (by decide : (0 : Int) ≤ 0 ∧ (0 : Int) ≤ 86400000000)
  | interval => exact (by decide : IsInt 32 0 ∧ IsInt 32 0 ∧ IsInt 64 0)
  | tinyint => exact (by decide : IsInt 8 0)
  | smallint => exact (by decide : IsInt 16 0)
  | integer | date => exact (by decide : IsInt 32 0)
  | hugeint | uuid => exact (by decide : IsInt 128 0)
  | utinyint => exact (by decide : IsUint 8 0)
  | usmallint => exact (by decide : IsUint 16 0)
  | uinteger => exact (by decide : IsUint 32 0)
  | ubigint => exact (by decide : IsUint 64 0)
  | uhugeint => exact (by decide : IsUint 128 0)
  | _ => exact (by decide : IsInt 64 0)

theorem sample_json (text : DuckText) (id : ScalarType) (t : LogicalType) :
    ∃ j, scalarJson text id (.leaf t id.sample) = .ok j := by
  cases id <;> exact ⟨_, rfl⟩

theorem hasFields_null (fs : Fields) : HasFields fs (fs.types.map .null) := by
  induction fs using Fields.induction with
  | nil => exact .nil
  | cons n t fs ih => exact .cons (.null t) ih

theorem fieldsJson_null (text : DuckText) (fs : Fields) :
    fieldsJson text fs (fs.types.map .null) = .ok (fs.names.map fun n => (n, null)) := by
  induction fs using Fields.induction with
  | nil => rfl
  | cons n t fs ih => exact fieldsJson_cons.mpr ⟨null, _, valueJson_null t, ih, rfl⟩

theorem replicate_null (text : DuckText) (c : LogicalType) (n : Nat) :
    List.Forall₂ (fun v j => valueJson text c v = .ok j) (List.replicate n (.null c))
      (List.replicate n null) := by
  induction n with
  | zero => exact .nil
  | succ n ih => exact .cons (valueJson_null c) ih

/-- A type that has more than NULL has a value with a tree. -/
theorem exists_not_null (text : DuckText) {t : LogicalType} (h : t.onlyNull = false) :
    ∃ v j, Has t v ∧ v.isNull = false ∧ valueJson text t v = .ok j := by
  cases t with
  | scalar id =>
      have hid : id ≠ .sqlNull := by simpa [LogicalType.onlyNull] using h
      obtain ⟨j, hj⟩ := sample_json text id (.scalar id)
      exact ⟨_, j, .scalar (sample_has hid), rfl, hj⟩
  | decimal w s =>
      have hpos : (0 : Int) < 10 ^ w := by positivity
      exact ⟨.leaf _ (.int 0), _, .decimal ⟨by omega, hpos⟩, rfl, rfl⟩
  | list c => exact ⟨.nested _ [], _, .list (by simp), rfl, rfl⟩
  | array c n =>
      refine ⟨.nested _ (List.replicate n (.null c)), _, .array (by simp) fun v hv => ?_, rfl,
        valueJson_array.mpr ⟨_, replicate_null text c n, rfl⟩⟩
      rw [List.eq_of_mem_replicate hv]
      exact .null c
  | struct fs =>
      exact ⟨.nested _ _, _, .struct (hasFields_null fs), rfl,
        valueJson_struct.mpr ⟨_, fieldsJson_null text fs, rfl⟩⟩
  | map k w =>
      exact ⟨.nested _ [], arr [], @Has.map k w [] (by simp) (by simp) (by simp) (by simp), rfl, rfl⟩
  | union ms =>
      cases ms with
      | nil => cases h
      | cons n t fs =>
          exact ⟨.nested _ _, _, .union (.here (.null t)), rfl, valueJson_union.mpr
            ⟨_, rfl, memberJson_eq_ok.mpr ⟨(n, t), null, rfl, valueJson_null t, rfl⟩⟩⟩
  | enum ls =>
      have hpos : 0 < ls.length := by
        cases ls with
        | nil => cases h
        | cons l ls => simp
      exact ⟨.leaf _ (.int 0), _, .enum (i := 0) hpos, rfl, valueJson_enum hpos⟩
  | other n => exact ⟨.leaf _ (.int 0), _, .other n _, rfl, rfl⟩

theorem readMap_cons_congr {n : Bytes} {x y : Json} {ms ns : List (Bytes × Json)}
    (hxy : x.read = y.read) (h : readMap ms = readMap ns) :
    readMap ((n, x) :: ms) = readMap ((n, y) :: ns) := by
  funext k
  simp only [readMap, readMember, h, hxy]

/-- Two different rows of fields that are the same map. -/
def FieldsCollide (text : DuckText) (fs : Fields) : Prop :=
  ∃ vs ws ms ns, HasFields fs vs ∧ HasFields fs ws ∧ vs ≠ ws ∧ fieldsJson text fs vs = .ok ms ∧
    fieldsJson text fs ws = .ok ns ∧ readMap (sanitizedMembers ms) = readMap (sanitizedMembers ns)

/-- A collision in the fields behind the first one is one with NULL in the first. -/
theorem FieldsCollide.cons {fs : Fields} (n : Bytes) (t : LogicalType) (h : FieldsCollide text fs) :
    FieldsCollide text (.cons n t fs) := by
  obtain ⟨vs, ws, ms, ns, hvs, hws, hne, hms, hns, hmap⟩ := h
  refine ⟨.null t :: vs, .null t :: ws, (n, null) :: ms, (n, null) :: ns, .cons (.null t) hvs,
    .cons (.null t) hws, fun h => hne (List.cons.inj h).2,
    fieldsJson_cons.mpr ⟨_, _, valueJson_null t, hms, rfl⟩,
    fieldsJson_cons.mpr ⟨_, _, valueJson_null t, hns, rfl⟩, readMap_cons_congr rfl hmap⟩

theorem fieldsCollide_of_mem {fs : Fields} {f : Bytes × LogicalType} (hf : f ∈ fs.toList)
    (h : Collides text f.2) : FieldsCollide text fs := by
  induction fs using Fields.induction with
  | nil => simp [Fields.toList] at hf
  | cons n t fs ih =>
      rcases List.mem_cons.mp hf with rfl | hf
      · obtain ⟨v, w, j, k, hv, hw, hne, hj, hk, hview⟩ := h
        refine ⟨_, _, _, _, .cons hv (hasFields_null fs), .cons hw (hasFields_null fs),
          fun h => hne.2.2 (List.cons.inj h).1, fieldsJson_cons.mpr ⟨_, _, hj, fieldsJson_null text fs, rfl⟩,
          fieldsJson_cons.mpr ⟨_, _, hk, fieldsJson_null text fs, rfl⟩, readMap_cons_congr hview rfl⟩
      · exact (ih hf).cons n t

/-- A field that is hidden by a later one can change without being seen. -/
theorem fieldsCollide_of_shadowed (text : DuckText) {fs : Fields} (h : fs.unshadowed = false) :
    FieldsCollide text fs := by
  induction fs using Fields.induction with
  | nil => cases h
  | cons n t fs ih =>
      cases hfs : fs.unshadowed with
      | false => exact (ih hfs).cons n t
      | true =>
          simp only [Fields.unshadowed, hfs, Bool.and_true, Bool.or_eq_false_iff, Bool.not_eq_false',
            List.contains_eq_mem, decide_eq_true_eq] at h
          obtain ⟨v, j, hv, hvn, hj⟩ := exists_not_null text h.1
          have hnames := names_fieldsJson (hasFields_null fs) (fieldsJson_null text fs)
          have hmem : ∀ x : Json, (sanitizedMember (n, x)).1 ∈
              (sanitizedMembers (fs.names.map fun n => (n, null))).map Prod.fst := by
            intro x
            rw [hnames]
            exact List.mem_map_of_mem h.2
          refine ⟨_, _, _, _, .cons hv (hasFields_null fs), .cons (.null t) (hasFields_null fs), ?_,
            fieldsJson_cons.mpr ⟨_, _, hj, fieldsJson_null text fs, rfl⟩,
            fieldsJson_cons.mpr ⟨_, _, valueJson_null t, fieldsJson_null text fs, rfl⟩, ?_⟩
          · rintro h
            obtain ⟨rfl, -⟩ := List.cons.inj h
            cases hvn
          · rw [sanitizedMembers, sanitizedMembers, readMap_cons_of_mem (hmem j),
              readMap_cons_of_mem (hmem null)]

theorem timeTz_collides (text : DuckText) : Collides text (.scalar .timeTz) := by
  have hrange : ∀ offset : Int, -57599 ≤ offset ∧ offset ≤ 57599 →
      Has (.scalar .timeTz) (.leaf (.scalar .timeTz) (.timeTz 0 offset)) :=
    fun offset h => .scalar ⟨by decide, h⟩
  exact ⟨_, _, _, _, hrange 0 (by decide), hrange 30 (by decide), ⟨rfl, rfl, by simp⟩, rfl, rfl, rfl⟩

theorem Fields.exists_not_separated {fs : Fields} (h : fs.separated = false) :
    ∃ f ∈ fs.toList, f.2.separated = false := by
  by_contra hall
  push Not at hall
  have htrue := Fields.separated_iff.mpr fun f hf => Bool.ne_false_iff.mp (hall f hf)
  rw [htrue] at h
  cases h

/-- Two MAPs of one entry each, with the same JSON. -/
theorem entry_collides {k w : LogicalType} {a b x y : Value} {p q j l : Json} (ha : Has k a)
    (hb : Has k b) (han : a.isNull = false) (hbn : b.isNull = false) (hx : Has w x) (hy : Has w y)
    (hne : a ≠ b ∨ x ≠ y) (hp : valueJson text k a = .ok p) (hq : valueJson text k b = .ok q)
    (hj : valueJson text w x = .ok j) (hl : valueJson text w y = .ok l)
    (hkey : view p = view q) (hvalue : view j = view l) : Collides text (.map k w) := by
  refine ⟨_, _, _, _, @Has.map k w [(a, x)] (by simpa using ha) (by simpa using hx)
      (by simpa using han) (by simp), @Has.map k w [(b, y)] (by simpa using hb) (by simpa using hy)
      (by simpa using hbn) (by simp), ⟨rfl, rfl, fun h => ?_⟩,
    valueJson_map.mpr ⟨[(p, j)], .cons ⟨hp, hj⟩ .nil, rfl⟩,
    valueJson_map.mpr ⟨[(q, l)], .cons ⟨hq, hl⟩ .nil, rfl⟩, ?_⟩
  · have hchildren := (Value.nested.inj (List.cons.inj (Value.nested.inj h).2).1).2
    simp only [List.cons.injEq, and_true] at hchildren
    rcases hne with hne | hne
    · exact hne hchildren.1
    · exact hne hchildren.2
  · simp only [view_arr, List.map_cons, List.map_nil, hkey, hvalue]

/-- **In a type that is not separated something is lost**, by induction over the type. -/
theorem collides_of_not_separated (text : DuckText) (t : LogicalType) (hvalid : t.Valid)
    (hsep : t.separated = false) :
    Collides text t := by
  induction t using LogicalType.induction_on with
  | scalar id =>
      obtain rfl : id = .timeTz := by simpa [LogicalType.separated] using hsep
      exact timeTz_collides text
  | decimal w s => cases hsep
  | enum ls => cases hsep
  | other n => cases hsep
  | list c ih =>
      obtain ⟨v, w, j, k, hv, hw, hne, hj, hk, hview⟩ := ih hvalid hsep
      refine ⟨.nested _ [v], .nested _ [w], arr [j], arr [k], .list (by simpa using hv),
        .list (by simpa using hw), ⟨rfl, rfl, by simpa using hne.2.2⟩,
        valueJson_list.mpr ⟨[j], .cons hj .nil, rfl⟩, valueJson_list.mpr ⟨[k], .cons hk .nil, rfl⟩, ?_⟩
      simp only [view_arr, List.map_cons, List.map_nil, hview]
  | array c n ih =>
      obtain ⟨v, w, j, k, hv, hw, hne, hj, hk, hview⟩ := ih hvalid.1 hsep
      -- the two arrays differ in the first element, NULL fills up the rest
      obtain ⟨n, rfl⟩ : ∃ m, n = m + 1 := ⟨n - 1, by have := hvalid.2; omega⟩
      have hall : ∀ {v}, Has c v → ∀ x ∈ v :: List.replicate n (.null c), Has c x := by
        intro v hv
        refine List.forall_mem_cons.mpr ⟨hv, fun x hx => ?_⟩
        rw [List.eq_of_mem_replicate hx]
        exact .null c
      refine ⟨.nested _ (v :: List.replicate n (.null c)), .nested _ (w :: List.replicate n (.null c)),
        arr (j :: List.replicate n null), arr (k :: List.replicate n null), .array (by simp) (hall hv),
        .array (by simp) (hall hw), ⟨rfl, rfl, by simpa using hne.2.2⟩,
        valueJson_array.mpr ⟨_, .cons hj (replicate_null text c n), rfl⟩,
        valueJson_array.mpr ⟨_, .cons hk (replicate_null text c n), rfl⟩, ?_⟩
      simp only [view_arr, List.map_cons, hview]
  | struct fs ih =>
      -- two fields share a name, so the later one hides the earlier, or one field type collides
      have hcollide : FieldsCollide text fs := by
        cases hfs : fs.separated with
        | true =>
            rw [LogicalType.separated, hfs, Bool.true_and] at hsep
            exact fieldsCollide_of_shadowed text hsep
        | false =>
            obtain ⟨f, hf, hfsep⟩ := Fields.exists_not_separated hfs
            exact fieldsCollide_of_mem hf (ih f hf (Fields.Valid.of_mem hvalid f hf).2 hfsep)
      obtain ⟨vs, ws, ms, ns, hvs, hws, hne, hms, hns, hmap⟩ := hcollide
      refine ⟨.nested _ vs, .nested _ ws, obj ms, obj ns, .struct hvs, .struct hws,
        ⟨rfl, rfl, by simpa using hne⟩, valueJson_struct.mpr ⟨_, hms, rfl⟩,
        valueJson_struct.mpr ⟨_, hns, rfl⟩, ?_⟩
      rw [view_obj, view_obj, hmap]
  | map k w ihk ihw =>
      simp only [LogicalType.separated, Bool.or_eq_false_iff, Bool.and_eq_false_iff] at hsep
      -- the two keys collide under the value NULL, or two values under one key
      obtain ⟨honly, hkey | hvalue⟩ := hsep
      · obtain ⟨v, x, j, l, hv, hx, hne, hj, hl, hview⟩ := ihk hvalid.1 hkey
        exact entry_collides hv hx hne.1 hne.2.1 (.null w) (.null w) (.inl hne.2.2) hj hl
          (valueJson_null w) (valueJson_null w) hview rfl
      · obtain ⟨v, x, j, l, hv, hx, hne, hj, hl, hview⟩ := ihw hvalid.2 hvalue
        obtain ⟨u, m, hu, hun, hm⟩ := exists_not_null text honly
        exact entry_collides hu hu hun hun hv hx (.inr hne.2.2) hm hm hj hl rfl hview
  | union ms ih =>
      obtain ⟨f, hf, hfsep⟩ := Fields.exists_not_separated hsep
      obtain ⟨i, hi, hif⟩ := List.getElem_of_mem hf
      have hget : ms.toList[i]? = some f := by rw [List.getElem?_eq_getElem hi, hif]
      have hlen : i < (ms.types.map Value.null).length := by simpa [Fields.types] using hi
      obtain ⟨v, w, j, k, hv, hw, hne, hj, hk, hview⟩ := ih f hf (hvalid.1.of_mem f hf).2 hfsep
      -- both values are of the member `f`
      have hmember : ∀ {v j}, valueJson text f.2 v = .ok j →
          valueJson text (.union ms)
            (.nested (.union ms) (.tag i :: (ms.types.map .null).set i v)) =
            .ok (obj [(lit "tag", str f.1), (lit "value", j)]) := fun hj =>
        valueJson_union.mpr ⟨_, List.getElem?_set_self hlen,
          memberJson_eq_ok.mpr ⟨f, _, hget, hj, rfl⟩⟩
      refine ⟨_, _, _, _, .union (hasMember_iff.mpr ⟨f, v, hget, hv, rfl⟩),
        .union (hasMember_iff.mpr ⟨f, w, hget, hw, rfl⟩), ⟨rfl, rfl, fun h => hne.2.2 ?_⟩,
        hmember hj, hmember hk, ?_⟩
      · have hset := congrArg (·[i]?) (List.cons.inj (Value.nested.inj h).2).2
        simpa only [List.getElem?_set_self hlen, Option.some.injEq] using hset
      · rw [view_obj, view_obj]
        exact congrArg JVal.obj (readMap_cons_congr rfl (readMap_cons_congr hview rfl))

/-! ## The promise over what the encoder writes -/

/-- The schema record of the column is JSON that says `lossless: true` at every node. -/
def MarkedLossless (text : DuckText) (t : LogicalType) (name : Bytes) : Prop :=
  ∃ s, parse (emitColumnSchema text t name .new).buf = some s ∧ LosslessEverywhere s

/-- Different values of the type are written as JSON that reads differently. -/
def Lossless (text : DuckText) (t : LogicalType) : Prop :=
  ∀ v w out₁ out₂, Has t v → Has t w → v ≠ w → emitValue text t v .new = .ok out₁ →
    emitValue text t w .new = .ok out₂ →
    ∃ j k, parse out₁.buf = some j ∧ parse out₂.buf = some k ∧ j.read ≠ k.read

theorem markedLossless_iff (t : LogicalType) (name : Bytes) :
    MarkedLossless text t name ↔ t.isCore = true := by
  rw [← losslessEverywhere_schemaJson text t name, MarkedLossless, emitColumnSchema_eq, write_new,
    parse_text (schemaJson_numbersOk text t name)]
  exact ⟨fun ⟨_, h, hs⟩ => Option.some.inj h ▸ hs, fun h => ⟨_, rfl, h⟩⟩

theorem emitValue_eq_ok {t : LogicalType} {v : Value} {out : JsonWriter} :
    emitValue text t v .new = .ok out ↔ ∃ j, valueJson text t v = .ok j ∧ write .new j = out := by
  rw [emitValue_eq]
  cases valueJson text t v <;> simp [Except.map]

/-- A type is lossless if the trees of its values tell them apart. -/
theorem lossless_iff_distinguishes (ht : text.Faithful) (t : LogicalType) :
    Lossless text t ↔ Distinguishes text t := by
  have hparse : ∀ {v j}, valueJson text t v = .ok j →
      parse (write .new j).buf = some j.sanitized := by
    intro v j hj
    rw [write_new, parse_text (valueJson_numbersOk ht.double_number t v j hj)]
  constructor
  · intro h v w j k hv hw hj hk hview
    by_contra hne
    obtain ⟨j', k', hj', hk', hread⟩ := h v w _ _ hv hw hne (emitValue_eq_ok.mpr ⟨j, hj, rfl⟩)
      (emitValue_eq_ok.mpr ⟨k, hk, rfl⟩)
    rw [hparse hj] at hj'
    rw [hparse hk] at hk'
    cases hj'
    cases hk'
    exact hread hview
  · intro h v w out₁ out₂ hv hw hne hout₁ hout₂
    obtain ⟨j, hj, rfl⟩ := emitValue_eq_ok.mp hout₁
    obtain ⟨k, hk, rfl⟩ := emitValue_eq_ok.mp hout₂
    exact ⟨_, _, hparse hj, hparse hk, fun hread => hne (h v w j k hv hw hj hk hread)⟩

/-- **A type that is marked lossless everywhere is lossless exactly if it is separated**: no TIMETZ
a value can reach, and no STRUCT field hidden by a later one of its name. -/
theorem lossless_iff (ht : text.Faithful) {t : LogicalType} (hvalid : t.Valid) {name : Bytes}
    (hmarked : MarkedLossless text t name) : Lossless text t ↔ t.separated = true := by
  rw [lossless_iff_distinguishes ht]
  constructor
  · intro h
    by_contra hsep
    obtain ⟨v, w, j, k, hv, hw, hne, hj, hk, hview⟩ :=
      collides_of_not_separated text t hvalid (Bool.eq_false_iff.mpr hsep)
    exact hne.2.2 (h v w j k hv hw hj hk hview)
  · exact distinguishes_of_separated ht t hvalid ((markedLossless_iff t name).mp hmarked)

theorem faithful_numerals : DuckText.numerals.Faithful where
  double_number := isNumber_numerals
  double_inj d e h := by
    have hvalue : ∀ d, numberValue (DuckText.numerals.formatDouble d) = ⟨d.neg, d.magnitude.val⟩ := by
      rintro ⟨neg, magnitude⟩
      cases neg with
      | false => exact numberValue_decNat magnitude.val
      | true => exact numberValue_neg_decNat magnitude.val
    obtain ⟨neg, magnitude⟩ := d
    obtain ⟨neg', magnitude'⟩ := e
    simp only [hvalue, Number.mk.injEq, Nat.cast_inj] at h
    rw [h.1, Fin.ext h.2]
  decimal_inj _ _ _ _ _ _ := decInt_injective
  uuid_inj _ _ _ _ := decInt_injective
  date_inj _ _ _ _ := decInt_injective
  time_inj _ _ _ _ := decInt_injective
  timestamp_inj _ _ _ _ := decInt_injective
  timestampNs_inj _ _ _ _ := decInt_injective
  bit_inj _ _ _ _ h := Base64.encode_injective h
  decimal_ascii i _ _ := decInt_ascii i
  uuid_ascii := decInt_ascii
  date_ascii := decInt_ascii
  time_ascii := decInt_ascii
  timestamp_ascii := decInt_ascii
  timestampNs_ascii := decInt_ascii
  bit_ascii := Base64.encode_ascii
  timestamp_blank i := notMem_decInt (by decide) (by decide) i
  timestampNs_blank i := notMem_decInt (by decide) (by decide) i
  timestamp_seconds s := by
    rw [fraction, List.dropWhile_eq_nil_iff]
    exact fun b hb => decide_eq_true fun h => notMem_decInt (by decide) (by decide) _ (h ▸ hb)
  timestamp_millis ms := by
    have hnil : fraction (DuckText.numerals.timestampToString (ms * 1000)) = [] := by
      rw [fraction, List.dropWhile_eq_nil_iff]
      exact fun b hb => decide_eq_true fun h => notMem_decInt (by decide) (by decide) _ (h ▸ hb)
    simp [hnil]

/-- A list of STRUCTs with fields of different names. -/
theorem lossless_list_struct : Lossless .numerals
    (.list (.struct (.cons (lit "id") (.scalar .bigint) (.cons (lit "name") (.scalar .varchar) .nil)))) := by
  have hid : Bytes.IsUtf8 (lit "id") := Bytes.isUtf8_of_ascii (by decide)
  have hname : Bytes.IsUtf8 (lit "name") := Bytes.isUtf8_of_ascii (by decide)
  have hvalid : LogicalType.Valid (.list (.struct (.cons (lit "id") (.scalar .bigint)
      (.cons (lit "name") (.scalar .varchar) .nil)))) := ⟨hid, trivial, hname, trivial, trivial⟩
  exact (lossless_iff faithful_numerals hvalid
    ((markedLossless_iff _ (lit "rows")).mpr (by decide))).mpr (by decide)

/-- Midnight, at offsets from UTC of 0 and of 30 seconds: two values of TIMETZ, a type that is marked
lossless, for which the encoder writes the same bytes. -/
theorem timeTz_not_lossless :
    MarkedLossless .numerals (.scalar .timeTz) (lit "t") ∧
      (∃ out,
        emitValue .numerals (.scalar .timeTz) (.leaf (.scalar .timeTz) (.timeTz 0 0)) .new = .ok out ∧
        emitValue .numerals (.scalar .timeTz) (.leaf (.scalar .timeTz) (.timeTz 0 30)) .new = .ok out) ∧
      ¬ Lossless .numerals (.scalar .timeTz) := by
  have hrange : ∀ offset : Int, -57599 ≤ offset ∧ offset ≤ 57599 →
      Has (.scalar .timeTz) (.leaf (.scalar .timeTz) (.timeTz 0 offset)) :=
    fun offset h => .scalar ⟨by decide, h⟩
  refine ⟨(markedLossless_iff _ _).mpr rfl, ⟨_, rfl, rfl⟩, fun h => ?_⟩
  obtain ⟨j, k, hj, hk, hne⟩ := h _ _ _ _ (hrange 0 (by decide)) (hrange 30 (by decide)) (by simp) rfl rfl
  have hjk : j = k := Option.some.inj (hj.symm.trans hk)
  exact hne (congrArg Json.read hjk)

end Harbor
