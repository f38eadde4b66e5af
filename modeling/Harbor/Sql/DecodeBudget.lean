import Harbor.Sql.DecodeDepth
import Harbor.Sql.DecodeText
import Harbor.Sql.DuckTyping
import Harbor.Sql.TypeSound

set_option autoImplicit false

/-! # How deep the decoder recurses

The types of a request are nested at most `kMaxTypeNesting` deep, and a call for an element or a field is
one for a type that is nested less. Only the value of a typed wrapper is decoded as a type of its own, and
nothing bounds how many wrappers stand in each other. So a fixed depth is enough for a set of requests
exactly where the number of wrappers that are open at once is bounded in it (`budget_iff`).
-/

namespace Harbor.ParamDecoder

open Bytes Json

/-! ## The rank of a call -/

theorem nesting_le_fieldsNesting {fs : Fields} {f : Bytes × LogicalType} (hf : f ∈ fs.toList) :
    nesting f.2 ≤ fieldsNesting fs := by
  induction fs using Fields.induction with
  | nil => cases hf
  | cons n t fs ih =>
      rw [fieldsNesting]
      rcases List.mem_cons.mp hf with rfl | hf
      · exact Nat.le_max_left _ _
      · exact Nat.le_trans (ih hf) (Nat.le_max_right _ _)

section Parsed

variable {types : DuckTypes}

theorem fieldsNesting_of_parse {levels : Nat}
    (ih : ∀ s t, parseLogicalType types levels s = .ok t → nesting t < levels) {fields : List Bytes}
    {fs : Fields} (hne : fields ≠ []) (h : parseFields (parseLogicalType types levels) fields = .ok fs) :
    fieldsNesting fs < levels := by
  induction fields generalizing fs with
  | nil => exact absurd rfl hne
  | cons field fields ihfields =>
      rw [parseFields] at h
      obtain ⟨⟨name, behind⟩, hspan⟩ : ∃ p, (field.span fun b => b ≠ 0x20 && b ≠ 0x09) = p := ⟨_, rfl⟩
      rw [hspan] at h
      cases behind with
      | nil => cases h
      | cons b rest =>
          obtain ⟨⟨⟩, -, h⟩ := bind_eq_ok.mp h
          obtain ⟨type, hparse, h⟩ := bind_eq_ok.mp h
          obtain ⟨others, hothers, h⟩ := bind_eq_ok.mp h
          obtain rfl : Fields.cons _ type others = fs := Except.ok.inj h
          have htype := ih _ _ hparse
          rw [fieldsNesting]
          cases fields with
          | nil =>
              obtain rfl : Fields.nil = others := Except.ok.inj hothers
              exact Nat.max_lt.mpr ⟨htype, Nat.zero_lt_of_lt htype⟩
          | cons next fields => exact Nat.max_lt.mpr ⟨htype, ihfields (by simp) hothers⟩

theorem eq_decimal_of_parse {s : Bytes} {t : LogicalType} (h : parseDecimal types s = .ok t) :
    ∃ w n, t = .decimal w n := by
  rw [parseDecimal] at h
  repeat' split at h
  all_goals first
    | exact ⟨_, _, (Except.ok.inj h).symm⟩
    | cases h

/-- **What the parser returns is nested no deeper than it goes.** -/
theorem nesting_lt_of_parse {levels : Nat} {s : Bytes} {t : LogicalType}
    (h : parseLogicalType types levels s = .ok t) : nesting t < levels := by
  induction levels generalizing s t with
  | zero => exact nomatch h
  | succ levels ih =>
      cases parsedAs (tight_normalize s) (parseLogicalType_normalized h) with
      | list _ _ hc => exact Nat.succ_lt_succ (ih hc)
      | array _ _ _ hc _ _ => exact Nat.succ_lt_succ (ih hc)
      | map _ _ _ hk hv => exact Nat.succ_lt_succ (Nat.max_lt.mpr ⟨ih hk, ih hv⟩)
      | struct _ _ hne hfs => exact Nat.succ_lt_succ (fieldsNesting_of_parse (fun _ _ h => ih h) hne hfs)
      | scalar _ => exact Nat.succ_pos _
      | decimal _ h =>
          obtain ⟨w, n, rfl⟩ := eq_decimal_of_parse h
          exact Nat.succ_pos _

end Parsed

section Rank

variable {text : DuckText} {casts : DuckCasts} {g : Call → Except Bytes (Value × Cursor)}

/-- The calls for the value of a wrapper. -/
def unwraps : Place → Bool
  | .wrapped => true
  | _ => false

/-- An element or a field is of a type that is nested less. -/
theorem Calls.nesting_lt {a b : Call} {k : Place} (h : Calls text casts g a k b) (hk : unwraps k = false) :
    nesting b.2 < nesting a.2 := by
  cases h with
  | element hexpected =>
      rcases hexpected with rfl | ⟨n, rfl⟩ <;> exact Nat.lt_succ_self _
  | entry _ _ _ ha =>
      obtain ⟨c₁, -, rfl | ⟨r, c₂, -, -, rfl⟩⟩ := ha
      · exact Nat.lt_succ_of_le (Nat.le_max_left _ _)
      · exact Nat.lt_succ_of_le (Nat.le_max_right _ _)
  | field _ _ _ _ ha =>
      obtain ⟨key, c₁, field, -, -, hfield, -, htype⟩ := ha
      rw [htype]
      exact Nat.lt_succ_of_le (nesting_le_fieldsNesting (List.mem_of_getElem? hfield))
  | wrapped => cases hk

/-- The value of a wrapper is of a type that the parser has read. -/
theorem Calls.nesting_le {a b : Call} {k : Place} (h : Calls text casts g a k b) (hk : unwraps k = true) :
    nesting b.2 ≤ kMaxTypeNesting := by
  cases h with
  | wrapped _ _ _ _ _ _ hparse => exact Nat.lt_succ_iff.mp (nesting_lt_of_parse hparse)
  | _ => cases hk

end Rank

/-! ## A list of parameters -/

variable (text : DuckText) (casts : DuckCasts)

/-- The text without white space around it. -/
def trimmed (paramsJson : Bytes) : Bytes :=
  ((paramsJson.reverse.dropWhile Json.isWs).reverse).dropWhile Json.isWs

/-- `SqlParamDecoder::Decode` with the function that decodes a value. -/
def decodeParamsBy (decode : Cursor → LogicalType → Except Bytes (Value × Cursor)) (paramsJson : Bytes)
    (expectedTypes : List LogicalType) : Except Bytes (List Value) :=
  let expects := lit "prepared statement expects " ++ decNat expectedTypes.length
  if trimmed paramsJson = [] ∨ trimmed paramsJson = lit "[]" then
    if expectedTypes = [] then .ok [] else .error (expects ++ lit " parameter(s); none provided")
  else do
    let c ← consumeChar 0x5B (.start (trimmed paramsJson))
    let (values, _) ← readAll 0x5D (parameter decode expectedTypes) [] c
    if expectedTypes ≠ [] ∧ values.length ≠ expectedTypes.length then
      .error (expects ++ lit " parameter(s); got " ++ decNat values.length)
    else .ok values

/-- `SqlParamDecoder::Decode` with at most `budget` calls of `DecodeOne` in each other. -/
def decodeParamsWithin (budget : Nat) : Bytes → List LogicalType → Except Bytes (List Value) :=
  decodeParamsBy (decodeOne text casts budget)

theorem decodeParams_eq_within (paramsJson : Bytes) (expectedTypes : List LogicalType) :
    decodeParams text casts paramsJson expectedTypes =
      decodeParamsWithin text casts ((trimmed paramsJson).length + 1) paramsJson expectedTypes := rfl

/-- A parameter is decoded at `a`. -/
def ParameterCall (paramsJson : Bytes) (expectedTypes : List LogicalType) (a : Call) : Prop :=
  ∃ d values e, ¬ (trimmed paramsJson = [] ∨ trimmed paramsJson = lit "[]") ∧
    consumeChar 0x5B (.start (trimmed paramsJson)) = .ok d ∧
    Visits 0x5D (parameter (fun c t => decodeCall text casts (c, t)) expectedTypes) true [] d values e ∧
    ¬ (expectedTypes ≠ [] ∧ expectedTypes.length ≤ values.length) ∧
    a = (e, expectedTypes.getD values.length .any)

section Parameters

variable {text casts}

theorem shrinks_parameter {decode : Cursor → LogicalType → Except Bytes (Value × Cursor)}
    (hdecode : ∀ t, Shrinks fun c => decode c t) (expectedTypes : List LogicalType) (values : List Value) :
    Shrinks (parameter decode expectedTypes values) := by
  intro c values' c' h
  rw [parameter] at h
  split_ifs at h
  obtain ⟨⟨v, c₁⟩, hread, h⟩ := bind_eq_ok.mp h
  obtain ⟨rfl, rfl⟩ := Prod.mk.inj (Except.ok.inj h)
  exact hdecode _ c v c₁ hread

theorem asks_parameter {g : Call → Except Bytes (Value × Cursor)} (expectedTypes : List LogicalType)
    (values : List Value) (c : Cursor) :
    Asks g (fun h => parameter (fun c t => h (c, t)) expectedTypes values c) fun a =>
      ¬ (expectedTypes ≠ [] ∧ expectedTypes.length ≤ values.length) ∧
        a = (c, expectedTypes.getD values.length .any) := by
  by_cases hmany : expectedTypes ≠ [] ∧ expectedTypes.length ≤ values.length
  · simp only [parameter, if_pos hmany]
    exact (Asks.const _).of_iff fun a => by simp [hmany]
  · simp only [parameter, if_neg hmany]
    refine ((Asks.call (c, expectedTypes.getD values.length .any)).bind_const fun r : Value × Cursor =>
      .ok (values ++ [r.1], r.2)).of_iff fun a => ?_
    rw [and_iff_right hmany]

theorem shrinks_decodeCall (t : LogicalType) : Shrinks fun c => decodeCall text casts (c, t) :=
  fun c v c' h => shrinks_decodeOne _ t c v c' h

theorem asks_decodeParams (paramsJson : Bytes) (expectedTypes : List LogicalType) :
    Asks (decodeCall text casts) (fun h => decodeParamsBy (fun c t => h (c, t)) paramsJson expectedTypes)
      (ParameterCall text casts paramsJson expectedTypes) := by
  unfold decodeParamsBy
  by_cases hnone : trimmed paramsJson = [] ∨ trimmed paramsJson = lit "[]"
  · simp only [if_pos hnone]
    refine (Asks.const _).of_iff fun a => iff_of_false ?_ id
    rintro ⟨d, values, e, hsome, -⟩
    exact hsome hnone
  · simp only [if_neg hnone]
    refine (asks_readAll (fun values c => asks_parameter expectedTypes values c)
      (fun values => shrinks_parameter shrinks_decodeCall expectedTypes values) 0x5B []
      (.start (trimmed paramsJson)) _).of_iff fun a => ?_
    constructor
    · rintro ⟨d, values, e, -, hbracket, hvisits, hfew, ha⟩
      exact ⟨d, hbracket, values, e, hvisits, hfew, ha⟩
    · rintro ⟨d, hbracket, values, e, hvisits, hfew, ha⟩
      exact ⟨d, values, e, hnone, hbracket, hvisits, hfew, ha⟩

theorem ParameterCall.length_lt {paramsJson : Bytes} {expectedTypes : List LogicalType} {a : Call}
    (h : ParameterCall text casts paramsJson expectedTypes a) :
    a.1.rest.length < (trimmed paramsJson).length := by
  obtain ⟨d, values, e, -, hbracket, hvisits, -, rfl⟩ := h
  exact Nat.lt_of_le_of_lt (hvisits.length_le fun values => shrinks_parameter shrinks_decodeCall _ values)
    (length_consumeChar hbracket)

theorem decodeParams_eq (paramsJson : Bytes) (expectedTypes : List LogicalType) :
    decodeParams text casts paramsJson expectedTypes =
      decodeParamsBy (fun c t => decodeCall text casts (c, t)) paramsJson expectedTypes := by
  rw [decodeParams_eq_within]
  refine (asks_decodeParams paramsJson expectedTypes).congr
    (fun a => decodeOne text casts ((trimmed paramsJson).length + 1) a.1 a.2) fun a ha => ?_
  have hlt := ha.length_lt
  exact decodeOne_of_length_lt (Nat.lt_succ_of_lt hlt) a.2

theorem finishes_decodeParams (paramsJson : Bytes) (expectedTypes : List LogicalType) :
    Finishes (decodeParams text casts paramsJson expectedTypes) := by
  rw [decodeParams_eq]
  unfold decodeParamsBy
  simp only
  split_ifs
  · exact finishes_ok _
  · exact finishes_error rfl
  · refine (finishes_consumeChar _ _).bind fun d _ => Finishes.bind ?_ fun r _ => ?_
    · refine finishes_readAll (fun values => shrinks_parameter shrinks_decodeCall expectedTypes values)
        fun values e _ => ?_
      rw [parameter]
      split_ifs
      · exact finishes_error rfl
      · exact (finishes_decodeOne _ _ _ (Nat.lt_succ_self _)).bind fun _ _ => finishes_ok _
    · split_ifs
      · exact finishes_error rfl
      · exact finishes_ok _

/-- A budget is enough for a list when it is enough for each of its parameters. -/
theorem decodeParamsWithin_eq_iff (budget : Nat) (paramsJson : Bytes) (expectedTypes : List LogicalType) :
    decodeParamsWithin text casts budget paramsJson expectedTypes =
        decodeParams text casts paramsJson expectedTypes ↔
      ∀ a, ParameterCall text casts paramsJson expectedTypes a → ¬ ∃ w,
        Path (Calls text casts (decodeCall text casts)) unwraps a budget w := by
  have hasks := @asks_decodeParams text casts paramsJson expectedTypes
  have hrecursion := @recursion_decodeOne text casts
  have hrun : ∀ a : Call, decodeOne text casts budget a.1 a.2 = decodeCall text casts a ↔
      ¬ ∃ w, Path (Calls text casts (decodeCall text casts)) unwraps a budget w := by
    intro a
    rw [← run_decodeBody]
    exact hrecursion.unroll_eq_iff unwraps budget a
  have heither : ∀ a : Call, decodeOne text casts budget a.1 a.2 = decodeCall text casts a ∨
      decodeOne text casts budget a.1 a.2 = .error (lit "unreachable") := by
    intro a
    rw [← run_decodeBody]
    exact hrecursion.unroll_eq_or budget a
  rw [decodeParams_eq]
  constructor
  · intro heq a ha
    rw [← hrun]
    refine (heither a).resolve_right fun hout => ?_
    have hfails := hasks.fails (fun a => decodeOne text casts budget a.1 a.2) _ (fun b _ => heither b)
      ⟨a, ha, hout⟩
    have hfinishes := @finishes_decodeParams text casts paramsJson expectedTypes
    rw [decodeParams_eq, ← heq] at hfinishes
    exact hfinishes hfails
  · intro hall
    exact hasks.congr (fun a => decodeOne text casts budget a.1 a.2) fun a ha => (hrun a).mpr (hall a ha)

end Parameters

/-! ## Wrappers in each other -/

/-- At most `w` typed wrappers are open at once while the parameters are decoded. -/
def WrappersAtMost (w : Nat) (paramsJson : Bytes) (expectedTypes : List LogicalType) : Prop :=
  ∀ a, ParameterCall text casts paramsJson expectedTypes a → ∀ n m,
    Path (Calls text casts (decodeCall text casts)) unwraps a n m → m ≤ w

variable {text casts}

/-- **What bounds the recursion.** For expected types within `kMaxTypeNesting`, a budget that depends on the
number of wrappers in each other alone. -/
theorem decodeParamsWithin_of_wrappers {w budget : Nat} (hbudget : (w + 1) * (kMaxTypeNesting + 1) ≤ budget)
    {paramsJson : Bytes} {expectedTypes : List LogicalType}
    (htypes : ∀ t ∈ expectedTypes, nesting t ≤ kMaxTypeNesting)
    (h : WrappersAtMost text casts w paramsJson expectedTypes) :
    decodeParamsWithin text casts budget paramsJson expectedTypes =
      decodeParams text casts paramsJson expectedTypes := by
  rw [decodeParamsWithin_eq_iff]
  rintro a ha ⟨m, hpath⟩
  have hm := h a ha budget m hpath
  have hlen := Path.length_le (fun a : Call => nesting a.2) (R := kMaxTypeNesting)
    (fun a k b hcall hk => hcall.nesting_lt hk) (fun a k b hcall hk => hcall.nesting_le hk) hpath
  have hrank : nesting a.2 ≤ kMaxTypeNesting := by
    obtain ⟨d, values, e, -, -, -, -, rfl⟩ := ha
    show nesting (expectedTypes.getD values.length .any) ≤ kMaxTypeNesting
    rw [List.getD_eq_getElem?_getD]
    cases hget : expectedTypes[values.length]? with
    | none => exact Nat.zero_le _
    | some t => exact htypes t (List.mem_of_getElem? hget)
  have hmul := Nat.mul_le_mul_right (kMaxTypeNesting + 1) hm
  rw [Nat.add_mul, Nat.one_mul] at hbudget
  omega

/-- **When the recursion is bounded.** One budget is enough for a whole set of requests, whose expected types
are nested at most `kMaxTypeNesting` deep, exactly when the wrappers that stand in each other are bounded in
it; `w` of them need no more than `(w + 1) * (kMaxTypeNesting + 1)`. -/
theorem budget_iff (requests : Set (Bytes × List LogicalType))
    (htypes : ∀ x ∈ requests, ∀ t ∈ x.2, nesting t ≤ kMaxTypeNesting) :
    ((∃ budget, ∀ x ∈ requests,
        decodeParamsWithin text casts budget x.1 x.2 = decodeParams text casts x.1 x.2) ↔
      ∃ w, ∀ x ∈ requests, WrappersAtMost text casts w x.1 x.2) ∧
    ∀ w, (∀ x ∈ requests, WrappersAtMost text casts w x.1 x.2) → ∀ x ∈ requests,
      decodeParamsWithin text casts ((w + 1) * (kMaxTypeNesting + 1)) x.1 x.2 =
        decodeParams text casts x.1 x.2 := by
  have henough : ∀ w, (∀ x ∈ requests, WrappersAtMost text casts w x.1 x.2) → ∀ x ∈ requests,
      decodeParamsWithin text casts ((w + 1) * (kMaxTypeNesting + 1)) x.1 x.2 =
        decodeParams text casts x.1 x.2 :=
    fun w hw x hx => decodeParamsWithin_of_wrappers (Nat.le_refl _) (htypes x hx) (hw x hx)
  refine ⟨⟨?_, fun ⟨w, hw⟩ => ⟨_, henough w hw⟩⟩, henough⟩
  rintro ⟨budget, hbudget⟩
  refine ⟨budget, fun x hx a ha n m hpath => ?_⟩
  have hnone := (decodeParamsWithin_eq_iff budget x.1 x.2).mp (hbudget x hx) a ha
  by_contra hm
  have hle := hpath.resets_le
  exact hnone (hpath.take (by omega))

theorem budget_iff_number : ∃ w, ∀ x ∈ ({(lit "[1]", [.scalar .integer])} : Set (Bytes × List LogicalType)),
    WrappersAtMost DuckText.numerals DuckCasts.simple w x.1 x.2 := by
  refine (budget_iff {(lit "[1]", [.scalar .integer])} ?_).1.mp ⟨4, ?_⟩
  · rintro x rfl
    decide
  · rintro x rfl
    rfl

/-! ## No budget for all -/

/-- `{"type":"INTEGER","value":{"type":"INTEGER","value":...}}` -/
def nestedWrapper : Nat → Source
  | 0 => .null
  | n + 1 => .obj [] [.plain ['t', 'y', 'p', 'e'] (.plain ['I', 'N', 'T', 'E', 'G', 'E', 'R']),
      .plain ['v', 'a', 'l', 'u', 'e'] (nestedWrapper n)]

theorem nestedWrapper_ok (n : Nat) : (nestedWrapper n).Ok := by
  induction n with
  | zero => exact .null
  | succ n ih =>
      refine .obj (by decide) ?_ ?_
      all_goals
        simp only [List.forall_mem_cons, List.not_mem_nil, false_imp_iff, implies_true, and_true]
      · exact ⟨Member.plain_ok (by decide) _, Member.plain_ok (by decide) _⟩
      · exact ⟨Source.plain_ok (by decide), ih⟩

theorem calls_nestedWrapper (n p : Nat) {rest : Bytes} (hrest : Ended rest) (expected : LogicalType) :
    Calls text casts (decodeCall text casts) (⟨p, (nestedWrapper (n + 1)).text ++ rest⟩, expected) .wrapped
      (.start (nestedWrapper n).text, .scalar .integer) := by
  have hok := nestedWrapper_ok (n + 1)
  have hskip := skipWhitespace_source hok p rest
  have hlooks := (looksTyped_source hok p hrest).mpr ⟨⟨_, List.mem_cons_self, by decide⟩,
    ⟨_, List.mem_cons_of_mem _ (List.mem_cons_of_mem _ List.mem_cons_self), by decide⟩⟩
  generalize hms : [Member.plain ['t', 'y', 'p', 'e'] (.plain ['I', 'N', 'T', 'E', 'G', 'E', 'R']),
    Member.plain ['v', 'a', 'l', 'u', 'e'] (nestedWrapper n)] = ms
  have hnested : nestedWrapper (n + 1) = .obj [] ms := by rw [← hms, nestedWrapper]
  have hshape : (nestedWrapper (n + 1)).text ++ rest =
      0x7B :: ([] ++ [0x2C].intercalate (ms.map Source.memberText) ++ 0x7D :: rest) := by
    rw [hnested, obj_text]
    simp
  rw [hnested] at hok
  cases hok with
  | obj hblank hmembers hvalues =>
      have hitems : ∀ m ∈ ms, ReadsItem 0x7D wrapperMember wrapperStep Source.memberText m :=
        fun m hm => readsItem_wrapperMember (hmembers m hm) (hvalues m hm)
      have hloop := readAll_texts (Or.inr rfl) skips_wrapperMember hitems hblank {} (p + 1) rest
      -- the value kept is the text of the wrapper inside
      have hfold : ms.foldlM wrapperStep {} =
          some { type := some (lit "INTEGER"), value := some (nestedWrapper n).text } := by
        rw [← hms]
        rfl
      rw [hfold, Option.map_some, toOption_eq_some] at hloop
      have hbrace := consumeChar_blank (b := 0x7B) (w := []) (by decide) (by decide) p
        ([] ++ [0x2C].intercalate (ms.map Source.memberText) ++ 0x7D :: rest)
      rw [hshape] at hskip hlooks ⊢
      refine .wrapped ?_ ?_ ?_ hloop rfl rfl rfl
      · rw [hskip]
        rfl
      · rw [hskip]
        exact hlooks
      · rw [hskip]
        exact hbrace

theorem path_nestedWrapper (n p : Nat) {rest : Bytes} (hrest : Ended rest) (expected : LogicalType) :
    Path (Calls text casts (decodeCall text casts)) unwraps
      (⟨p, (nestedWrapper n).text ++ rest⟩, expected) n n := by
  induction n generalizing p rest expected with
  | zero => exact .nil _
  | succ n ih =>
      have hinner := ih 0 ended_nil (.scalar .integer)
      rw [List.append_nil] at hinner
      exact .cons (calls_nestedWrapper n p hrest expected) hinner

theorem trimmed_brackets (t : Bytes) : trimmed (0x5B :: t ++ [0x5D]) = 0x5B :: t ++ [0x5D] := by
  have hback : (0x5B :: t ++ [0x5D]).reverse.dropWhile Json.isWs = (0x5B :: t ++ [0x5D]).reverse := by
    rw [List.reverse_append, List.reverse_singleton, List.singleton_append]
    rfl
  rw [trimmed, hback, List.reverse_reverse]
  rfl

/-- The only parameter of a list is decoded behind the bracket. -/
theorem parameterCall_nestedWrapper (n : Nat) :
    ParameterCall text casts (0x5B :: (nestedWrapper (n + 1)).text ++ [0x5D]) []
      (⟨1, (nestedWrapper (n + 1)).text ++ [0x5D]⟩, .any) := by
  have hok := nestedWrapper_ok (n + 1)
  have hskip := skipWhitespace_source hok 1 [0x5D]
  obtain ⟨b, s, htext, hb, -, hclose, -⟩ := hok.head
  refine ⟨⟨1, (nestedWrapper (n + 1)).text ++ [0x5D]⟩, [], _, ?_, ?_, .here ?_ ?_, by simp, rfl⟩
  · rw [trimmed_brackets, htext]
    rintro (hnil | hempty)
    · exact nomatch hnil
    · have hlen := congrArg List.length hempty
      simp [show (lit "[]").length = 2 from rfl] at hlen
  · rw [trimmed_brackets]
    exact consumeChar_blank (b := 0x5B) (w := []) (by decide) (by decide) 0 _
  · rw [hskip, htext]
    simpa using hclose
  · exact congrArg Except.ok hskip

/-- **No budget is enough for every list of parameters**: as many wrappers in each other as it allows calls. -/
theorem no_budget : ¬ ∃ budget, ∀ paramsJson expectedTypes,
    (∀ t ∈ expectedTypes, nesting t ≤ kMaxTypeNesting) →
      decodeParamsWithin DuckText.numerals DuckCasts.simple budget paramsJson expectedTypes =
        decodeParams DuckText.numerals DuckCasts.simple paramsJson expectedTypes := by
  rintro ⟨budget, hall⟩
  have hequal := hall (0x5B :: (nestedWrapper (budget + 1)).text ++ [0x5D]) [] fun t ht => nomatch ht
  have hnone := (decodeParamsWithin_eq_iff budget _ _).mp hequal _ (parameterCall_nestedWrapper budget)
  have hpath := @path_nestedWrapper DuckText.numerals DuckCasts.simple (budget + 1) 1 [0x5D]
    (ended_cons (by decide) []) .any
  exact hnone (hpath.take (Nat.le_succ budget))

end Harbor.ParamDecoder
