import Harbor.Json.Escape

set_option autoImplicit false

/-! # The JSON writer

`JsonWriter` keeps a buffer, a stack of open containers and the flag `firstInFrame`; it puts the
commas itself. `Json.write` drives it over a syntax tree, and `write_new` and `write_inside` say
what that does to the writer: it appends the text of the tree (`Json.text`), behind a comma where
one is due, and leaves the stack as a value leaves it. `parse_text` closes the circle: a reader of
the text gets the tree back, up to the bytes of its strings that were not UTF-8.
-/

namespace Harbor

/-! ## The writer -/

/-- A finite IEEE 754 double: its sign and the 63 bits below it. -/
structure FiniteDouble where
  neg : Bool
  magnitude : Fin 0x7FF0000000000000
deriving DecidableEq, Repr

inductive Double where
  | nan
  | inf (neg : Bool)
  | finite (d : FiniteDouble)
deriving DecidableEq, Repr

/-- `JsonWriter::Frame`; the empty stack is `ROOT`. -/
inductive Frame where
  | objectKey
  | objectValue
  | array
deriving DecidableEq, Repr

/-- The top of the stack of frames is the head of the list. -/
structure JsonWriter where
  buf : Bytes
  frames : List Frame
  firstInFrame : Bool
deriving DecidableEq, Repr

namespace JsonWriter

def new : JsonWriter := ⟨[], [], true⟩

/-- `buf.append`. -/
def append (out : JsonWriter) (s : Bytes) : JsonWriter := { out with buf := out.buf ++ s }

def beforeValue (out : JsonWriter) : JsonWriter :=
  match out.frames with
  | [] => out
  | .array :: _ =>
      { out with buf := if out.firstInFrame then out.buf else out.buf ++ [0x2C], firstInFrame := false }
  | .objectValue :: fs => { out with frames := .objectKey :: fs, firstInFrame := false }
  | .objectKey :: _ => out

def beforeKey (out : JsonWriter) : JsonWriter :=
  match out.frames with
  | .objectKey :: _ =>
      { out with buf := if out.firstInFrame then out.buf else out.buf ++ [0x2C], firstInFrame := false }
  | _ => out

/-- `BeginObject`. -/
def beginObject (out : JsonWriter) : JsonWriter :=
  let out := out.beforeValue.append [0x7B]
  { out with frames := .objectKey :: out.frames, firstInFrame := true }

/-- `EndObject`. -/
def endObject (out : JsonWriter) : JsonWriter :=
  match out.frames with
  | [] => out
  | _ :: fs => { out.append [0x7D] with frames := fs, firstInFrame := false }

/-- `BeginArray`. -/
def beginArray (out : JsonWriter) : JsonWriter :=
  let out := out.beforeValue.append [0x5B]
  { out with frames := .array :: out.frames, firstInFrame := true }

/-- `EndArray`. -/
def endArray (out : JsonWriter) : JsonWriter :=
  match out.frames with
  | [] => out
  | _ :: fs => { out.append [0x5D] with frames := fs, firstInFrame := false }

/-- `Key`. -/
def key (out : JsonWriter) (k : Bytes) : JsonWriter :=
  let out := out.beforeKey.append (Json.writeEscapedString k ++ [0x3A])
  { out with frames := .objectValue :: out.frames.tail }

def null (out : JsonWriter) : JsonWriter := out.beforeValue.append (lit "null")

def bool (out : JsonWriter) (v : Bool) : JsonWriter :=
  out.beforeValue.append (if v then lit "true" else lit "false")

def int64 (out : JsonWriter) (v : Int) : JsonWriter := out.beforeValue.append (Bytes.decInt v)

def uint64 (out : JsonWriter) (v : Nat) : JsonWriter := out.beforeValue.append (Bytes.decNat v)

/-- `Double`; `format` is `snprintf` with `%.17g`. -/
def double (out : JsonWriter) (format : FiniteDouble → Bytes) : Double → JsonWriter
  | .nan => out.beforeValue.append (lit "\"NaN\"")
  | .inf neg => out.beforeValue.append (if neg then lit "\"-Infinity\"" else lit "\"Infinity\"")
  | .finite d => out.beforeValue.append (format d)

/-- `String`. -/
def string (out : JsonWriter) (s : Bytes) : JsonWriter :=
  out.beforeValue.append (Json.writeEscapedString s)

/-- `RawNumber`. -/
def rawNumber (out : JsonWriter) (s : Bytes) : JsonWriter := out.beforeValue.append s

def keyBool (out : JsonWriter) (k : Bytes) (v : Bool) : JsonWriter := (out.key k).bool v

def keyInt64 (out : JsonWriter) (k : Bytes) (v : Int) : JsonWriter := (out.key k).int64 v

def keyUint64 (out : JsonWriter) (k : Bytes) (v : Nat) : JsonWriter := (out.key k).uint64 v

def keyString (out : JsonWriter) (k v : Bytes) : JsonWriter := (out.key k).string v

end JsonWriter

namespace Json

/-! ## Writing a tree -/

mutual

/-- Drive the writer over a tree. -/
def write (out : JsonWriter) : Json → JsonWriter
  | null => out.null
  | bool b => out.bool b
  | num l => out.rawNumber l
  | str s => out.string s
  | arr xs => (writeElements out.beginArray xs).endArray
  | obj ms => (writeMembers out.beginObject ms).endObject
termination_by structural j => j

def writeElements (out : JsonWriter) : List Json → JsonWriter
  | [] => out
  | x :: xs => writeElements (write out x) xs
termination_by structural xs => xs

def writeMembers (out : JsonWriter) : List (Bytes × Json) → JsonWriter
  | [] => out
  | m :: ms => writeMembers (writeMember out m) ms
termination_by structural ms => ms

def writeMember (out : JsonWriter) : Bytes × Json → JsonWriter
  | (k, j) => write (out.key k) j
termination_by structural m => m

end

mutual

/-- The text of a tree, without white space. -/
def text : Json → Bytes
  | null => lit "null"
  | bool b => if b then lit "true" else lit "false"
  | num l => l
  | str s => writeEscapedString s
  | arr xs => 0x5B :: [0x2C].intercalate (texts xs) ++ [0x5D]
  | obj ms => 0x7B :: [0x2C].intercalate (memberTexts ms) ++ [0x7D]
termination_by structural j => j

def texts : List Json → List Bytes
  | [] => []
  | x :: xs => x.text :: texts xs
termination_by structural xs => xs

def memberTexts : List (Bytes × Json) → List Bytes
  | [] => []
  | m :: ms => memberText m :: memberTexts ms
termination_by structural ms => ms

def memberText : Bytes × Json → Bytes
  | (k, j) => writeEscapedString k ++ 0x3A :: j.text
termination_by structural m => m

end

/-! ### The writer appends the text -/

/-- A value is due: the next element of an array or the value of a key. -/
def AcceptsValue (out : JsonWriter) : Prop :=
  ∃ fs, out.frames = .array :: fs ∨ out.frames = .objectValue :: fs

theorem beforeValue_of_acceptsValue {out : JsonWriter} (h : AcceptsValue out) :
    out.beforeValue.firstInFrame = false ∧ ∃ f fs, out.beforeValue.frames = f :: fs := by
  obtain ⟨b, frames, first⟩ := out
  obtain ⟨fs, rfl | rfl⟩ := h
  · exact ⟨rfl, _, _, rfl⟩
  · exact ⟨rfl, _, _, rfl⟩

/-- The writer behind a container: the text is appended, the frames are the old ones. -/
def afterContainer (out : JsonWriter) (s : Bytes) : JsonWriter :=
  { out.beforeValue.append s with firstInFrame := false }

theorem afterContainer_of_acceptsValue {out : JsonWriter} (h : AcceptsValue out) (s : Bytes) :
    afterContainer out s = out.beforeValue.append s := by
  have hfirst := (beforeValue_of_acceptsValue h).1
  rw [afterContainer, JsonWriter.append, hfirst]

/-- Where a value is due, the writer appends the text of the tree. -/
def WritesText (j : Json) : Prop :=
  ∀ out, AcceptsValue out → write out j = out.beforeValue.append j.text

/-- The elements behind the first one, each behind a comma. -/
def WritesElements (xs : List Json) : Prop :=
  ∀ b fs, writeElements ⟨b, .array :: fs, false⟩ xs =
    ⟨b ++ (texts xs).flatMap ([0x2C] ++ ·), .array :: fs, false⟩

/-- The members behind the first one, each behind a comma. -/
def WritesMembers (ms : List (Bytes × Json)) : Prop :=
  ∀ b fs, writeMembers ⟨b, .objectKey :: fs, false⟩ ms =
    ⟨b ++ (memberTexts ms).flatMap ([0x2C] ++ ·), .objectKey :: fs, false⟩

def WritesMember (m : Bytes × Json) : Prop :=
  ∀ out fs, out.frames = .objectKey :: fs →
    writeMember out m = out.beforeKey.append (memberText m)

theorem writesElements {xs : List Json} (h : ∀ x ∈ xs, WritesText x) : WritesElements xs := by
  induction xs with
  | nil => simp [WritesElements, writeElements, texts]
  | cons x xs ih =>
      intro b fs
      have hfirst : write ⟨b, .array :: fs, false⟩ x = ⟨b ++ [0x2C] ++ x.text, .array :: fs, false⟩ :=
        h x (by simp) _ ⟨_, Or.inl rfl⟩
      rw [writeElements, hfirst, ih fun y hy => h y (by simp [hy]), texts, List.flatMap_cons]
      simp

theorem writesMembers {ms : List (Bytes × Json)} (h : ∀ m ∈ ms, WritesMember m) :
    WritesMembers ms := by
  induction ms with
  | nil => simp [WritesMembers, writeMembers, memberTexts]
  | cons m ms ih =>
      intro b fs
      have hfirst : writeMember ⟨b, .objectKey :: fs, false⟩ m =
        ⟨b ++ [0x2C] ++ memberText m, .objectKey :: fs, false⟩ := h m (by simp) _ _ rfl
      rw [writeMembers, hfirst, ih fun m' hm' => h m' (by simp [hm']), memberTexts,
        List.flatMap_cons]
      simp

theorem writesMember {m : Bytes × Json} (h : WritesText m.2) : WritesMember m := by
  intro out fs hfs
  obtain ⟨k, j⟩ := m
  obtain ⟨b, frames, first⟩ := out
  subst hfs
  have hvalue := h (JsonWriter.key ⟨b, .objectKey :: fs, first⟩ k) ⟨fs, Or.inr rfl⟩
  rw [writeMember, hvalue]
  simp [JsonWriter.key, JsonWriter.beforeKey, JsonWriter.beforeValue, JsonWriter.append, memberText]

theorem write_arr {xs : List Json} (h : ∀ x ∈ xs, WritesText x) (out : JsonWriter) :
    write out (arr xs) = afterContainer out (text (arr xs)) := by
  have hopen : out.beginArray =
    ⟨out.beforeValue.buf ++ [0x5B], .array :: out.beforeValue.frames, true⟩ := rfl
  rw [write, hopen, text, afterContainer]
  cases xs with
  | nil => simp [writeElements, texts, JsonWriter.endArray, JsonWriter.append]
  | cons x xs =>
      have hfirst : write ⟨out.beforeValue.buf ++ [0x5B], .array :: out.beforeValue.frames, true⟩ x =
        ⟨out.beforeValue.buf ++ [0x5B] ++ x.text, .array :: out.beforeValue.frames, false⟩ :=
        h x (by simp) _ ⟨_, Or.inl rfl⟩
      rw [writeElements, hfirst, writesElements fun y hy => h y (by simp [hy]), texts,
        Bytes.intercalate_cons]
      simp [JsonWriter.endArray, JsonWriter.append]

theorem write_obj {ms : List (Bytes × Json)} (h : ∀ m ∈ ms, WritesMember m) (out : JsonWriter) :
    write out (obj ms) = afterContainer out (text (obj ms)) := by
  have hopen : out.beginObject =
    ⟨out.beforeValue.buf ++ [0x7B], .objectKey :: out.beforeValue.frames, true⟩ := rfl
  rw [write, hopen, text, afterContainer]
  cases ms with
  | nil => simp [writeMembers, memberTexts, JsonWriter.endObject, JsonWriter.append]
  | cons m ms =>
      have hfirst : writeMember
          ⟨out.beforeValue.buf ++ [0x7B], .objectKey :: out.beforeValue.frames, true⟩ m =
        ⟨out.beforeValue.buf ++ [0x7B] ++ memberText m, .objectKey :: out.beforeValue.frames, false⟩ :=
        h m (by simp) _ _ rfl
      rw [writeMembers, hfirst, writesMembers fun m' hm' => h m' (by simp [hm']), memberTexts,
        Bytes.intercalate_cons]
      simp [JsonWriter.endObject, JsonWriter.append]

/-- **Inside a container the writer appends the text of the tree**, behind a comma where one is
due. -/
theorem write_inside (j : Json) : WritesText j := by
  induction j using Json.induction with
  | null => exact fun _ _ => rfl
  | bool b => exact fun _ _ => rfl
  | num l => exact fun _ _ => rfl
  | str s => exact fun _ _ => rfl
  | arr xs ih =>
      intro out h
      rw [write_arr ih, afterContainer_of_acceptsValue h]
  | obj ms ih =>
      intro out h
      rw [write_obj fun m hm => writesMember (ih m hm), afterContainer_of_acceptsValue h]

/-- **A fresh writer holds the text of the tree** after it has been driven over it. -/
theorem write_new (j : Json) : (write .new j).buf = j.text := by
  cases j with
  | arr xs => rw [write_arr fun x _ => write_inside x]; rfl
  | obj ms => rw [write_obj fun m _ => writesMember (write_inside m.2)]; rfl
  | _ => rfl

/-! ### Reading the text -/

mutual

/-- The tree a reader gets: every string without its invalid bytes. -/
def sanitized : Json → Json
  | null => null
  | bool b => bool b
  | num l => num l
  | str s => str (sanitize s)
  | arr xs => arr (sanitizedList xs)
  | obj ms => obj (sanitizedMembers ms)
termination_by structural j => j

def sanitizedList : List Json → List Json
  | [] => []
  | x :: xs => x.sanitized :: sanitizedList xs
termination_by structural xs => xs

def sanitizedMembers : List (Bytes × Json) → List (Bytes × Json)
  | [] => []
  | m :: ms => sanitizedMember m :: sanitizedMembers ms
termination_by structural ms => ms

def sanitizedMember : Bytes × Json → Bytes × Json
  | (k, j) => (sanitize k, j.sanitized)
termination_by structural m => m

end

theorem sanitizedList_eq_map (js : List Json) : sanitizedList js = js.map sanitized := by
  induction js with
  | nil => rfl
  | cons j js ih => rw [sanitizedList, ih, List.map_cons]

theorem sanitizedMembers_eq_map (ms : List (Bytes × Json)) :
    sanitizedMembers ms = ms.map sanitizedMember := by
  induction ms with
  | nil => rfl
  | cons m ms ih => rw [sanitizedMembers, ih, List.map_cons]

/-- Every number literal of the tree is one. -/
inductive NumbersOk : Json → Prop where
  | null : NumbersOk null
  | bool (b : Bool) : NumbersOk (bool b)
  | num {l : Bytes} (h : IsNumber l) : NumbersOk (num l)
  | str (s : Bytes) : NumbersOk (str s)
  | arr {xs : List Json} (h : ∀ x ∈ xs, NumbersOk x) : NumbersOk (arr xs)
  | obj {ms : List (Bytes × Json)} (h : ∀ m ∈ ms, NumbersOk m.2) : NumbersOk (obj ms)

@[simp] theorem numbersOk_null : NumbersOk null := .null

@[simp] theorem numbersOk_bool (b : Bool) : NumbersOk (bool b) := .bool b

@[simp] theorem numbersOk_str (s : Bytes) : NumbersOk (str s) := .str s

@[simp] theorem numbersOk_num {l : Bytes} : NumbersOk (num l) ↔ IsNumber l :=
  ⟨fun h => by cases h with | num h => exact h, .num⟩

@[simp] theorem numbersOk_arr {xs : List Json} : NumbersOk (arr xs) ↔ ∀ x ∈ xs, NumbersOk x :=
  ⟨fun h => by cases h with | arr h => exact h, .arr⟩

@[simp] theorem numbersOk_obj {ms : List (Bytes × Json)} :
    NumbersOk (obj ms) ↔ ∀ m ∈ ms, NumbersOk m.2 :=
  ⟨fun h => by cases h with | obj h => exact h, .obj⟩

/-- A text starts with a byte that is neither white space nor a closing bracket. -/
theorem text_head {j : Json} (h : NumbersOk j) :
    ∃ b s, j.text = b :: s ∧ isWs b = false ∧ b ≠ 0x5D := by
  cases h with
  | null => exact ⟨_, _, rfl, rfl, by decide⟩
  | bool b =>
      cases b with
      | false => exact ⟨_, _, rfl, rfl, by decide⟩
      | true => exact ⟨_, _, rfl, rfl, by decide⟩
  | num h =>
      obtain ⟨b, s, rfl, rfl | hb⟩ := h.head
      · exact ⟨_, _, rfl, rfl, by decide⟩
      · exact ⟨_, _, rfl, isDigit_not_ws hb, by rintro rfl; simp [Bytes.isDigit] at hb⟩
  | str s => exact ⟨_, _, rfl, rfl, by decide⟩
  | arr _ => exact ⟨_, _, rfl, rfl, by decide⟩
  | obj _ => exact ⟨_, _, rfl, rfl, by decide⟩

/-- With a step for each byte, the reader reads the text back. -/
def Reads (j : Json) : Prop :=
  ∀ fuel rest, j.text.length ≤ fuel → Delimited rest →
    readValue fuel (j.text ++ rest) = some (j.sanitized, rest)

/-- The elements of an array, one fuel unit for each byte up to the bracket. -/
theorem readElements_texts {x : Json} {xs : List Json} (h : ∀ y ∈ x :: xs, Reads y) (rest : Bytes) :
    ∀ fuel, ([0x2C].intercalate (texts (x :: xs))).length + 1 ≤ fuel →
      readElements fuel ([0x2C].intercalate (texts (x :: xs)) ++ 0x5D :: rest) =
        some (sanitizedList (x :: xs), rest) := by
  induction xs generalizing x with
  | nil =>
      intro fuel hfuel
      simp only [texts, List.intercalate_singleton] at hfuel ⊢
      obtain ⟨fuel, rfl⟩ : ∃ f, fuel = f + 1 := ⟨fuel - 1, by omega⟩
      exact readElements_last (h x (by simp) _ _ (by omega) (delimited_cons (by simp) _))
  | cons y ys ih =>
      intro fuel hfuel
      rw [texts, texts, List.intercalate_cons_cons, ← texts] at hfuel ⊢
      simp only [List.length_append, List.length_singleton] at hfuel
      obtain ⟨fuel, rfl⟩ : ∃ f, fuel = f + 1 := ⟨fuel - 1, by omega⟩
      have hmore := ih (x := y) (fun z hz => h z (by simp [List.mem_cons.mp hz])) fuel (by omega)
      refine readElements_more ?_ hmore
      rw [List.append_assoc, List.append_assoc]
      exact h x (by simp) _ _ (by omega) (delimited_cons (by simp) _)

theorem readMembers_texts {m : Bytes × Json} {ms : List (Bytes × Json)}
    (h : ∀ m' ∈ m :: ms, Reads m'.2) (rest : Bytes) :
    ∀ fuel, ([0x2C].intercalate (memberTexts (m :: ms))).length + 1 ≤ fuel →
      readMembers fuel ([0x2C].intercalate (memberTexts (m :: ms)) ++ 0x7D :: rest) =
        some (sanitizedMembers (m :: ms), rest) := by
  induction ms generalizing m with
  | nil =>
      intro fuel hfuel
      obtain ⟨k, j⟩ := m
      simp only [memberTexts, memberText, List.intercalate_singleton, writeEscapedString,
        List.cons_append, List.append_assoc, List.nil_append, List.length_cons,
        List.length_append] at hfuel ⊢
      obtain ⟨fuel, rfl⟩ : ∃ f, fuel = f + 1 := ⟨fuel - 1, by omega⟩
      exact readMembers_last (readString_escaped k _)
        (h (k, j) (by simp) _ _ (by simp only; omega) (delimited_cons (by simp) _))
  | cons m' ms ih =>
      intro fuel hfuel
      obtain ⟨k, j⟩ := m
      rw [memberTexts, memberTexts, List.intercalate_cons_cons, ← memberTexts] at hfuel ⊢
      simp only [memberText, writeEscapedString, List.cons_append, List.append_assoc,
        List.nil_append, List.length_cons, List.length_append] at hfuel ⊢
      obtain ⟨fuel, rfl⟩ : ∃ f, fuel = f + 1 := ⟨fuel - 1, by omega⟩
      have hmore := ih (m := m') (fun z hz => h z (by simp [List.mem_cons.mp hz])) fuel (by omega)
      exact readMembers_more (readString_escaped k _)
        (h (k, j) (by simp) _ _ (by simp only; omega) (delimited_cons (by simp) _)) hmore

theorem length_text_pos {j : Json} (h : NumbersOk j) : 0 < j.text.length := by
  obtain ⟨b, s, hs, -, -⟩ := text_head h
  simp [hs]

theorem reads (j : Json) (hj : NumbersOk j) : Reads j := by
  intro fuel rest hfuel hrest
  have hpos := length_text_pos hj
  obtain ⟨fuel, rfl⟩ : ∃ f, fuel = f + 1 := ⟨fuel - 1, by omega⟩
  -- on the tree; the fuel counts the bytes of its text
  induction j using Json.induction generalizing fuel rest with
  | null => exact readValue_null fuel rest
  | bool b =>
      cases b with
      | false => exact readValue_false fuel rest
      | true => exact readValue_true fuel rest
  | num l =>
      cases hj with
      | num h => exact readValue_number h hrest fuel
  | str s =>
      rw [text, writeEscapedString, List.cons_append, List.cons_append, List.append_assoc]
      exact readValue_string (readString_escaped s rest) fuel
  | arr xs ih =>
      have hall := numbersOk_arr.mp hj
      have hreads : ∀ x ∈ xs, Reads x := by
        intro x hx fuel rest hfuel hrest
        have hpos := length_text_pos (hall x hx)
        obtain ⟨fuel, rfl⟩ : ∃ f, fuel = f + 1 := ⟨fuel - 1, by omega⟩
        exact ih x hx (hall x hx) rest hrest hpos fuel hfuel
      cases xs with
      | nil => exact readValue_arr_nil fuel rest
      | cons x xs =>
          have helems := readElements_texts hreads rest fuel (by simpa [text] using hfuel)
          obtain ⟨b, s, hb, hws, hne⟩ := text_head (hall x (by simp))
          rw [text, List.cons_append, List.cons_append, List.append_assoc]
          rw [texts, Bytes.intercalate_cons, hb, List.cons_append, List.cons_append] at helems ⊢
          exact readValue_arr hws hne helems
  | obj ms ih =>
      have hall := numbersOk_obj.mp hj
      have hreads : ∀ m ∈ ms, Reads m.2 := by
        intro m hm fuel rest hfuel hrest
        have hpos := length_text_pos (hall m hm)
        obtain ⟨fuel, rfl⟩ : ∃ f, fuel = f + 1 := ⟨fuel - 1, by omega⟩
        exact ih m hm (hall m hm) rest hrest hpos fuel hfuel
      cases ms with
      | nil => exact readValue_obj_nil fuel rest
      | cons m ms =>
          obtain ⟨k, j⟩ := m
          have hmembers := readMembers_texts hreads rest fuel (by simpa [text] using hfuel)
          rw [text, List.cons_append, List.cons_append, List.append_assoc]
          rw [memberTexts, memberText, writeEscapedString, Bytes.intercalate_cons] at hmembers ⊢
          simp only [List.cons_append] at hmembers ⊢
          exact readValue_obj hmembers

/-- **A reader of the text of a tree gets the tree**, its strings without their invalid bytes. -/
theorem parse_text {j : Json} (h : NumbersOk j) : parse j.text = some j.sanitized := by
  have hread := reads j h (j.text.length + 1) [] (by omega) delimited_nil
  rw [List.append_nil] at hread
  rw [parse, hread]
  rfl

/-! ### No line feed -/

theorem newline_notMem_writeEscapedString (s : Bytes) : 0x0A ∉ writeEscapedString s := by
  simp [writeEscapedString, newline_notMem_escaped s]

theorem mem_texts {t : Bytes} {xs : List Json} (h : t ∈ texts xs) : ∃ x ∈ xs, t = x.text := by
  induction xs with
  | nil => simp [texts] at h
  | cons x xs ih =>
      rcases List.mem_cons.mp h with rfl | h
      · exact ⟨x, by simp, rfl⟩
      · obtain ⟨y, hy, rfl⟩ := ih h
        exact ⟨y, by simp [hy], rfl⟩

theorem mem_memberTexts {t : Bytes} {ms : List (Bytes × Json)} (h : t ∈ memberTexts ms) :
    ∃ m ∈ ms, t = memberText m := by
  induction ms with
  | nil => simp [memberTexts] at h
  | cons m ms ih =>
      rcases List.mem_cons.mp h with rfl | h
      · exact ⟨m, by simp, rfl⟩
      · obtain ⟨m', hm', rfl⟩ := ih h
        exact ⟨m', by simp [hm'], rfl⟩

/-- **The text of a tree has no line feed.** -/
theorem newline_notMem_text {j : Json} (hj : NumbersOk j) : 0x0A ∉ j.text := by
  induction j using Json.induction with
  | null => decide
  | bool b => cases b <;> decide
  | num l =>
      cases hj with
      | num h =>
          intro hmem
          exact absurd (h.isNumberByte _ hmem) (by decide)
  | str s => exact newline_notMem_writeEscapedString s
  | arr xs ih =>
      intro hmem
      simp only [text, List.cons_append, List.mem_cons, List.mem_append, List.not_mem_nil,
        or_false] at hmem
      rcases hmem with h | h | h
      · exact absurd h (by decide)
      · rcases Bytes.mem_intercalate h with h | ⟨t, ht, h⟩
        · exact absurd h (by decide)
        · obtain ⟨x, hx, rfl⟩ := mem_texts ht
          exact ih x hx (numbersOk_arr.mp hj x hx) h
      · exact absurd h (by decide)
  | obj ms ih =>
      intro hmem
      simp only [text, List.cons_append, List.mem_cons, List.mem_append, List.not_mem_nil,
        or_false] at hmem
      rcases hmem with h | h | h
      · exact absurd h (by decide)
      · rcases Bytes.mem_intercalate h with h | ⟨t, ht, h⟩
        · exact absurd h (by decide)
        · obtain ⟨⟨k, j⟩, hm, rfl⟩ := mem_memberTexts ht
          simp only [memberText, List.mem_append, List.mem_cons] at h
          rcases h with h | h | h
          · exact newline_notMem_writeEscapedString k h
          · exact absurd h (by decide)
          · exact ih (k, j) hm (numbersOk_obj.mp hj (k, j) hm) h
      · exact absurd h (by decide)

end Json

end Harbor
