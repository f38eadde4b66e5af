import Harbor.Json.Exact

set_option autoImplicit false

/-! # Documents

A document is what a caller wants to write; `calls` is the sequence of operations of `JsonWriter` that
walks it. The operations are driven one by one from a writer that is new or has been emptied by
`Take`, and the text is read back as the document (`document_read`).
-/

namespace Harbor

/-! ## The operations of the writer -/

/-- An operation of `JsonWriter`. -/
inductive WriterCall where
  | beginObject
  | endObject
  | beginArray
  | endArray
  | key (k : Bytes)
  | null
  | bool (v : Bool)
  | int64 (v : Int64)
  | uint64 (v : UInt64)
  | string (s : Bytes)
  deriving DecidableEq, Repr

namespace JsonWriter

/-- One operation. -/
def call (out : JsonWriter) : WriterCall → JsonWriter
  | .beginObject => out.beginObject
  | .endObject => out.endObject
  | .beginArray => out.beginArray
  | .endArray => out.endArray
  | .key k => out.key k
  | .null => out.null
  | .bool v => out.bool v
  | .int64 v => out.int64 v.toInt
  | .uint64 v => out.uint64 v.toNat
  | .string s => out.string s

/-- `Take`: the buffer, and the writer without it. -/
def take (out : JsonWriter) : Bytes × JsonWriter := (out.buf, new)

end JsonWriter

/-! ## Documents and their calls -/

/-- A JSON value in the types the writer has operations for. -/
inductive Document where
  | null
  | bool (v : Bool)
  | int64 (v : Int64)
  | uint64 (v : UInt64)
  | string (s : Bytes)
  | array (xs : List Document)
  | object (ms : List (Bytes × Document))

namespace Document

/-- Induction over documents: a container may assume the statement for everything inside it. -/
theorem induction {P : Document → Prop} (null : P null) (bool : ∀ v, P (bool v))
    (int64 : ∀ v, P (int64 v)) (uint64 : ∀ v, P (uint64 v)) (string : ∀ s, P (string s))
    (array : ∀ xs, (∀ x ∈ xs, P x) → P (array xs))
    (object : ∀ ms : List (Bytes × Document), (∀ m ∈ ms, P m.2) → P (object ms)) : ∀ d, P d := by
  refine @Document.rec P (fun xs => ∀ x ∈ xs, P x) (fun ms => ∀ m ∈ ms, P m.2) (fun m => P m.2)
    null bool int64 uint64 string array object ?_ ?_ ?_ ?_ fun _ _ h => h
  · simp
  · intro x xs hx hxs
    exact List.forall_mem_cons.mpr ⟨hx, hxs⟩
  · simp
  · intro m ms hm hms
    exact List.forall_mem_cons.mpr ⟨hm, hms⟩

mutual

/-- The calls that walk a document. -/
def calls : Document → List WriterCall
  | null => [.null]
  | bool v => [.bool v]
  | int64 v => [.int64 v]
  | uint64 v => [.uint64 v]
  | string s => [.string s]
  | array xs => .beginArray :: elementCalls xs ++ [.endArray]
  | object ms => .beginObject :: membersCalls ms ++ [.endObject]
termination_by structural d => d

def elementCalls : List Document → List WriterCall
  | [] => []
  | x :: xs => calls x ++ elementCalls xs
termination_by structural xs => xs

def membersCalls : List (Bytes × Document) → List WriterCall
  | [] => []
  | m :: ms => memberCalls m ++ membersCalls ms
termination_by structural ms => ms

def memberCalls : Bytes × Document → List WriterCall
  | (k, d) => .key k :: calls d
termination_by structural m => m

end

mutual

/-- The syntax tree of a document, with `f` applied to the strings and the keys; a number is its
decimal numeral. -/
def tree (f : Bytes → Bytes) : Document → Json
  | null => .null
  | bool v => .bool v
  | int64 v => .num (Bytes.decInt v.toInt)
  | uint64 v => .num (Bytes.decNat v.toNat)
  | string s => .str (f s)
  | array xs => .arr (trees f xs)
  | object ms => .obj (memberTrees f ms)
termination_by structural d => d

def trees (f : Bytes → Bytes) : List Document → List Json
  | [] => []
  | x :: xs => tree f x :: trees f xs
termination_by structural xs => xs

def memberTrees (f : Bytes → Bytes) : List (Bytes × Document) → List (Bytes × Json)
  | [] => []
  | m :: ms => memberTree f m :: memberTrees f ms
termination_by structural ms => ms

def memberTree (f : Bytes → Bytes) : Bytes × Document → Bytes × Json
  | (k, d) => (f k, tree f d)
termination_by structural m => m

end

/-! ## The calls write the tree -/

theorem write_elements {xs : List Document}
    (h : ∀ x ∈ xs, ∀ out, x.calls.foldl JsonWriter.call out = Json.write out (x.tree id))
    (out : JsonWriter) :
    (elementCalls xs).foldl JsonWriter.call out = Json.writeElements out (trees id xs) := by
  induction xs generalizing out with
  | nil => rfl
  | cons x xs ih =>
      rw [elementCalls, List.foldl_append, h x (by simp), trees, Json.writeElements]
      exact ih (fun y hy => h y (by simp [hy])) _

theorem write_members {ms : List (Bytes × Document)}
    (h : ∀ m ∈ ms, ∀ out, m.2.calls.foldl JsonWriter.call out = Json.write out (m.2.tree id))
    (out : JsonWriter) :
    (membersCalls ms).foldl JsonWriter.call out = Json.writeMembers out (memberTrees id ms) := by
  induction ms generalizing out with
  | nil => rfl
  | cons m ms ih =>
      obtain ⟨k, d⟩ := m
      rw [membersCalls, List.foldl_append, memberCalls, List.foldl_cons, h (k, d) (by simp),
        memberTrees, Json.writeMembers]
      exact ih (fun m hm => h m (by simp [hm])) _

/-- The calls drive the writer as `Json.write` does. -/
theorem foldl_calls (d : Document) (out : JsonWriter) :
    d.calls.foldl JsonWriter.call out = Json.write out (d.tree id) := by
  induction d using Document.induction generalizing out with
  | null => rfl
  | bool v => rfl
  | int64 v => rfl
  | uint64 v => rfl
  | string s => rfl
  | array xs ih =>
      rw [calls, List.cons_append, List.foldl_cons, List.foldl_append, write_elements ih]
      rfl
  | object ms ih =>
      rw [calls, List.cons_append, List.foldl_cons, List.foldl_append, write_members ih]
      rfl

theorem numbersOk_tree (f : Bytes → Bytes) (d : Document) : (d.tree f).NumbersOk := by
  induction d using Document.induction with
  | null => exact Json.numbersOk_null
  | bool v => exact Json.numbersOk_bool v
  | int64 v => exact Json.numbersOk_num.mpr (Json.isNumber_decInt _)
  | uint64 v => exact Json.numbersOk_num.mpr (Json.isNumber_decNat _)
  | string s => exact Json.numbersOk_str _
  | array xs ih =>
      refine Json.numbersOk_arr.mpr ?_
      induction xs with
      | nil => simp [trees]
      | cons x xs ihxs =>
          rw [trees, List.forall_mem_cons]
          exact ⟨ih x (by simp), ihxs fun y hy => ih y (by simp [hy])⟩
  | object ms ih =>
      refine Json.numbersOk_obj.mpr ?_
      induction ms with
      | nil => simp [memberTrees]
      | cons m ms ihms =>
          obtain ⟨k, d⟩ := m
          rw [memberTrees, List.forall_mem_cons]
          exact ⟨ih (k, d) (by simp), ihms fun m hm => ih m (by simp [hm])⟩

/-- A reader's tree of what is written. -/
theorem sanitized_tree (d : Document) :
    (d.tree id).sanitized = d.tree Bytes.replaceIllFormed := by
  induction d using Document.induction with
  | null => rfl
  | bool v => rfl
  | int64 v => rfl
  | uint64 v => rfl
  | string s => exact congrArg Json.str (Json.sanitize_eq s)
  | array xs ih =>
      refine congrArg Json.arr ?_
      induction xs with
      | nil => rfl
      | cons x xs ihxs =>
          rw [trees, Json.sanitizedList, ih x (by simp), trees,
            ihxs fun y hy => ih y (by simp [hy])]
  | object ms ih =>
      refine congrArg Json.obj ?_
      induction ms with
      | nil => rfl
      | cons m ms ihms =>
          obtain ⟨k, d⟩ := m
          rw [memberTrees, Json.sanitizedMembers, memberTree, Json.sanitizedMember,
            ih (k, d) (by simp), memberTrees, memberTree, ihms fun m hm => ih m (by simp [hm]),
            id, Json.sanitize_eq]

/-- **The calls that walk a document, from a new writer or one that has been emptied by `Take`, make
a text that a reader reads as exactly one value, the document**, with its members in the order of the
calls and U+FFFD for each ill-formed byte of its strings and keys. -/
theorem document_read (d : Document) (used : JsonWriter) :
    Json.parse (d.calls.foldl JsonWriter.call .new).take.1 = some (d.tree Bytes.replaceIllFormed) ∧
      Json.parse (d.calls.foldl JsonWriter.call used.take.2).take.1 =
        some (d.tree Bytes.replaceIllFormed) := by
  have hfresh : Json.parse (d.calls.foldl JsonWriter.call .new).take.1 =
      some (d.tree Bytes.replaceIllFormed) := by
    show Json.parse (d.calls.foldl JsonWriter.call .new).buf = _
    rw [foldl_calls, Json.write_new, Json.parse_text (numbersOk_tree id d), sanitized_tree]
  exact ⟨hfresh, hfresh⟩

/-- An empty container in the place of a value, and a value behind a container. -/
example : ((object [(lit "a", array []), (lit "b", object []), (lit "c", int64 (-1))]).calls.foldl
    JsonWriter.call .new).buf = lit "\x7b\"a\":[],\"b\":\x7b\x7d,\"c\":-1\x7d" := by decide

end Document

end Harbor
