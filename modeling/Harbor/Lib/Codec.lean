import Harbor.Lib.Bytes

set_option autoImplicit false

/-! # Objects written property by property

A `Codec` writes a value so that it is read back from the front of any text. An object is written as its
properties, each behind its id, and a terminator. A property that has its default is left out, which its
reader sees from the next id: so reading it depends on what follows. `Above n rest` says that the next id
of `rest` is at least `n`; the writers of the properties from `n` on give it, and so does the terminator.
-/

namespace Harbor

/-- What is read from the front of a text, with the rest of it; `none` when the reader throws. -/
abbrev Reader := StateT Bytes Option

variable {α β : Type}

/-- One reader after another, when the first has read its part. -/
theorem reader_bind {read : Reader α} {f : α → Reader β} {bytes rest : Bytes} {a : α}
    (h : read bytes = some (a, rest)) : (read >>= f) bytes = f a rest := by
  change (read bytes).bind _ = _
  rw [h]
  rfl

/-- What one reader after another has read. -/
theorem bind_eq_some {read : Reader α} {f : α → Reader β} {bytes rest : Bytes} {b : β}
    (h : (read >>= f) bytes = some (b, rest)) :
    ∃ a middle, read bytes = some (a, middle) ∧ f a middle = some (b, rest) := by
  change (read bytes).bind _ = _ at h
  obtain ⟨⟨a, middle⟩, hread, hf⟩ := Option.bind_eq_some_iff.mp h
  exact ⟨a, middle, hread, hf⟩

/-- A form in which a value is read back from the front of any text. -/
structure Codec (α : Type) where
  encode : α → Bytes
  decode : Reader α
  decode_encode : ∀ a rest, decode (encode a ++ rest) = some (a, rest)

namespace Codec

/-! ## Lists, pointers and pairs -/

/-- As many values as are announced. -/
def decodeMany (c : Codec α) : Nat → Reader (List α)
  | 0 => pure []
  | n + 1 => do
      let a ← c.decode
      let as ← decodeMany c n
      pure (a :: as)

theorem decodeMany_encode (c : Codec α) (as : List α) (rest : Bytes) :
    c.decodeMany as.length (as.flatMap c.encode ++ rest) = some (as, rest) := by
  induction as with
  | nil => rfl
  | cons a as ih =>
      rw [List.flatMap_cons, List.append_assoc, List.length_cons, decodeMany,
        reader_bind (c.decode_encode a _), reader_bind ih]
      rfl

/-- A list: its length, then its elements. -/
def list (count : Codec Nat) (c : Codec α) : Codec (List α) where
  encode as := count.encode as.length ++ as.flatMap c.encode
  decode := do
    let n ← count.decode
    decodeMany c n
  decode_encode := by
    intro as rest
    rw [List.append_assoc, reader_bind (count.decode_encode _ _)]
    exact decodeMany_encode c as rest

/-- A pointer: whether it is there, then what it points to. -/
def nullable (present : Codec Bool) (c : Codec α) : Codec (Option α) where
  encode
    | none => present.encode false
    | some a => present.encode true ++ c.encode a
  decode := do
    if ← present.decode then
      let a ← c.decode
      pure (some a)
    else pure none
  decode_encode := by
    intro a rest
    cases a with
    | none =>
        rw [reader_bind (present.decode_encode _ _)]
        rfl
    | some a =>
        rw [List.append_assoc, reader_bind (present.decode_encode _ _), if_pos rfl,
          reader_bind (c.decode_encode _ _)]
        rfl

/-- A value in the form of another type, which has room for it. -/
def ofForm (c : Codec β) (form : α → β) (back : β → Option α) (h : ∀ a, back (form a) = some a) :
    Codec α where
  encode a := c.encode (form a)
  decode := do
    let b ← c.decode
    fun rest => (back b).map fun a => (a, rest)
  decode_encode := by
    intro a rest
    rw [reader_bind (c.decode_encode _ _), h]
    rfl

/-- Two values, one after the other. -/
def pair (c : Codec α) (d : Codec β) : Codec (α × β) where
  encode p := c.encode p.1 ++ d.encode p.2
  decode := do
    let a ← c.decode
    let b ← d.decode
    pure (a, b)
  decode_encode := by
    intro p rest
    rw [List.append_assoc, reader_bind (c.decode_encode _ _), reader_bind (d.decode_encode _ _)]
    rfl

end Codec

/-! ## Numbers -/

/-- Seven bits a byte, the lowest first; the top bit says that more follow. -/
def varint (n : Nat) : Bytes :=
  if n < 128 then [UInt8.ofNat n] else UInt8.ofNat (n % 128 + 128) :: varint (n / 128)
termination_by n
decreasing_by omega

def readVarint : Reader Nat
  | [] => none
  | b :: rest =>
      if b.toNat < 128 then some (b.toNat, rest)
      else (readVarint rest).map fun p => (b.toNat % 128 + 128 * p.1, p.2)

theorem readVarint_varint (n : Nat) (rest : Bytes) : readVarint (varint n ++ rest) = some (n, rest) := by
  induction n using Nat.strongRecOn with
  | ind n ih =>
      rw [varint]
      by_cases hn : n < 128
      · have hbyte : (UInt8.ofNat n).toNat = n := by
          rw [UInt8.toNat_ofNat']
          exact Nat.mod_eq_of_lt (by omega)
        rw [if_pos hn, List.singleton_append, readVarint, hbyte, if_pos hn]
      · have hbyte : (UInt8.ofNat (n % 128 + 128)).toNat = n % 128 + 128 := by
          rw [UInt8.toNat_ofNat']
          exact Nat.mod_eq_of_lt (by omega)
        rw [if_neg hn, List.cons_append, readVarint, hbyte, if_neg (by omega), ih (n / 128) (by omega),
          Option.map_some]
        have hsplit : (n % 128 + 128) % 128 + 128 * (n / 128) = n := by omega
        exact congrArg (fun m => some (m, rest)) hsplit

/-- The same for signed numbers: the last byte has a bit for the sign. -/
def signedVarint (z : Int) : Bytes :=
  if -64 ≤ z ∧ z < 64 then [UInt8.ofNat (z % 128).toNat]
  else UInt8.ofNat ((z % 128).toNat + 128) :: signedVarint (z / 128)
termination_by z.natAbs
decreasing_by omega

def readSignedVarint : Reader Int
  | [] => none
  | b :: rest =>
      if b.toNat < 64 then some ((b.toNat : Int), rest)
      else if b.toNat < 128 then some ((b.toNat : Int) - 128, rest)
      else (readSignedVarint rest).map fun p => ((b.toNat : Int) % 128 + 128 * p.1, p.2)

theorem readSignedVarint_signedVarint (z : Int) (rest : Bytes) :
    readSignedVarint (signedVarint z ++ rest) = some (z, rest) := by
  induction hn : z.natAbs using Nat.strongRecOn generalizing z with
  | ind n ih =>
      subst hn
      rw [signedVarint]
      by_cases hz : -64 ≤ z ∧ z < 64
      · have hbyte : (UInt8.ofNat (z % 128).toNat).toNat = (z % 128).toNat := by
          rw [UInt8.toNat_ofNat']
          exact Nat.mod_eq_of_lt (by omega)
        rw [if_pos hz, List.singleton_append, readSignedVarint, hbyte]
        split_ifs with hneg hlast
        · exact congrArg (fun z => some (z, rest)) (by omega)
        · exact congrArg (fun z => some (z, rest)) (by omega)
        · omega
      · have hbyte : (UInt8.ofNat ((z % 128).toNat + 128)).toNat = (z % 128).toNat + 128 := by
          rw [UInt8.toNat_ofNat']
          exact Nat.mod_eq_of_lt (by omega)
        rw [if_neg hz, List.cons_append, readSignedVarint, hbyte, if_neg (by omega), if_neg (by omega),
          ih (z / 128).natAbs (by omega) (z / 128) rfl, Option.map_some]
        have hsplit : (((z % 128).toNat + 128 : Nat) : Int) % 128 + 128 * (z / 128) = z := by omega
        exact congrArg (fun z => some (z, rest)) hsplit

namespace Codec

/-- Numbers of any size. -/
def nat : Codec Nat := ⟨varint, readVarint, readVarint_varint⟩

def int : Codec Int := ⟨signedVarint, readSignedVarint, readSignedVarint_signedVarint⟩

/-- A byte as it is. -/
def byte : Codec UInt8 where
  encode b := [b]
  decode
    | [] => none
    | b :: rest => some (b, rest)
  decode_encode _ _ := rfl

def bool : Codec Bool :=
  byte.ofForm Bool.toUInt8 (fun b => some (b != 0)) fun b => by cases b <;> rfl

/-- A string: its length, then its bytes. -/
def string : Codec Bytes := .list .nat .byte

/-- Two bytes, the lower one first. -/
def uint16 : Codec UInt16 :=
  (pair byte byte).ofForm (fun n => (n.toUInt8, (n >>> 8).toUInt8))
    (fun p => some (UInt16.ofNat (p.1.toNat + 256 * p.2.toNat))) fun n => by
      have hlt := n.toNat_lt
      refine congrArg some (UInt16.toNat_inj.mp ?_)
      simp only [UInt16.toNat_ofNat', UInt16.toNat_toUInt8, UInt16.toNat_shiftRight, UInt16.reduceToNat,
        Nat.reduceMod, Nat.shiftRight_eq_div_pow]
      omega

/-- Eight bits in the form of a number of any size. -/
def uint8 : Codec UInt8 :=
  nat.ofForm UInt8.toNat (fun n => if n < 2 ^ 8 then some (UInt8.ofNat n) else none) fun n => by
    rw [if_pos n.toNat_lt, UInt8.ofNat_toNat]

def uint64 : Codec UInt64 :=
  nat.ofForm UInt64.toNat (fun n => if n < 2 ^ 64 then some (UInt64.ofNat n) else none) fun n => by
    rw [if_pos n.toNat_lt, UInt64.ofNat_toNat]

/-- The upper half with its sign, then the lower half. -/
def int128 : Codec (BitVec 128) :=
  (pair int nat).ofForm (fun x => (x.toInt / 2 ^ 64, (x.toInt % 2 ^ 64).toNat))
    (fun p => some (BitVec.ofInt 128 (p.1 * 2 ^ 64 + p.2))) fun x => by
      have hlower : 0 ≤ x.toInt % 2 ^ 64 := Int.emod_nonneg _ (by decide)
      rw [Int.toNat_of_nonneg hlower, Int.mul_comm, Int.mul_ediv_add_emod, BitVec.ofInt_toInt]

end Codec

/-! ## Defaults -/

/-- A type with a default, which a writer can leave out. -/
class DefaultValue (α : Type) where
  getDefault : α
  isDefault : α → Bool
  isDefault_iff : ∀ a, isDefault a = true ↔ a = getDefault

instance defaultValue_list : DefaultValue (List α) := ⟨[], List.isEmpty, fun _ => List.isEmpty_iff⟩

instance defaultValue_option : DefaultValue (Option α) := ⟨none, Option.isNone, fun _ => Option.isNone_iff_eq_none⟩

instance defaultValue_bool : DefaultValue Bool := ⟨false, fun b => !b, fun b => by cases b <;> simp⟩

instance defaultValue_idx : DefaultValue UInt64 := ⟨0, fun n => n == 0, fun _ => beq_iff_eq⟩

namespace Property

/-! ## Properties -/

/-- The id behind the last property of an object. -/
def terminatorId : UInt16 := 0xFFFF

variable (ids : Codec UInt16)

def write (c : Codec α) (id : UInt16) (a : α) : Bytes := ids.encode id ++ c.encode a

def read (c : Codec α) (id : UInt16) : Reader α := do
  let next ← ids.decode
  if next = id then c.decode else failure

def writeWithDefault [DefaultValue α] (c : Codec α) (id : UInt16) (a : α) : Bytes :=
  if DefaultValue.isDefault a then [] else write ids c id a

/-- The id is looked at, and taken only if it is the one of the property. -/
def readWithDefault [DefaultValue α] (c : Codec α) (id : UInt16) : Reader α := fun bytes =>
  match ids.decode bytes with
  | none => none
  | some (next, rest) => if next = id then c.decode rest else some (DefaultValue.getDefault, bytes)

/-- The end of an object. -/
def writeEnd : Bytes := ids.encode terminatorId

def readEnd : Reader Unit := do
  let next ← ids.decode
  if next = terminatorId then pure () else failure

/-- The next id is at least `n`. -/
def Above (n : UInt16) (rest : Bytes) : Prop := ∃ id tail, n ≤ id ∧ rest = ids.encode id ++ tail

variable {ids} {n id : UInt16} {rest : Bytes}

theorem above_write (c : Codec α) (id : UInt16) (a : α) : Above ids id (write ids c id a ++ rest) :=
  ⟨id, c.encode a ++ rest, UInt16.le_refl id, List.append_assoc _ _ _⟩

theorem above_writeEnd : Above ids terminatorId (writeEnd ids ++ rest) :=
  ⟨terminatorId, rest, UInt16.le_refl _, rfl⟩

theorem Above.writeWithDefault [DefaultValue α] (hrest : Above ids n rest) (c : Codec α) (id : UInt16)
    (a : α) (h : id ≤ n := by decide) : Above ids id (Property.writeWithDefault ids c id a ++ rest) := by
  unfold Property.writeWithDefault
  split
  · obtain ⟨next, tail, hnext, htail⟩ := hrest
    exact ⟨next, tail, UInt16.le_trans h hnext, htail⟩
  · exact above_write c id a

theorem read_write (c : Codec α) (a : α) : read ids c id (write ids c id a ++ rest) = some (a, rest) := by
  rw [write, List.append_assoc, read, reader_bind (ids.decode_encode _ _), if_pos rfl]
  exact c.decode_encode a rest

theorem readEnd_writeEnd : readEnd ids (writeEnd ids ++ rest) = some ((), rest) := by
  rw [readEnd, writeEnd, reader_bind (ids.decode_encode _ _), if_pos rfl]
  rfl

/-- **A property that may have been left out is read back**, when what follows has a larger id. -/
theorem readWithDefault_writeWithDefault [DefaultValue α] (c : Codec α) (a : α)
    (hrest : Above ids n rest) (h : id < n := by decide) :
    readWithDefault ids c id (writeWithDefault ids c id a ++ rest) = some (a, rest) := by
  unfold writeWithDefault readWithDefault
  by_cases hdefault : DefaultValue.isDefault a = true
  · obtain ⟨next, tail, hnext, rfl⟩ := hrest
    have hne : next ≠ id := by
      rintro rfl
      exact UInt16.not_le.mpr h hnext
    rw [if_pos hdefault, List.nil_append, ids.decode_encode]
    dsimp only
    rw [if_neg hne, (DefaultValue.isDefault_iff a).mp hdefault]
  · rw [if_neg hdefault, write, List.append_assoc, ids.decode_encode]
    dsimp only
    rw [if_pos rfl, c.decode_encode]

end Property

/-- A property as the form of its value. -/
def Codec.property (ids : Codec UInt16) (id : UInt16) (c : Codec α) : Codec α where
  encode := Property.write ids c id
  decode := Property.read ids c id
  decode_encode a _ := Property.read_write c a

/-- A value and the end of its object. -/
def Codec.terminated (ids : Codec UInt16) (c : Codec α) : Codec α where
  encode a := c.encode a ++ Property.writeEnd ids
  decode := do
    let a ← c.decode
    Property.readEnd ids
    pure a
  decode_encode := by
    intro a rest
    rw [List.append_assoc, reader_bind (c.decode_encode _ _), reader_bind Property.readEnd_writeEnd]
    rfl

end Harbor
