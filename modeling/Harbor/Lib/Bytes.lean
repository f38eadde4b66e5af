import Mathlib.Tactic
import Mathlib.Data.Fintype.Basic
import Mathlib.Data.List.TakeWhile

set_option autoImplicit false

/-! # Byte strings

A C++ `std::string` is a sequence of bytes. `Bytes` is that sequence as a list, `lit` the
bytes of an ASCII literal, and the rest of the file is the small part of the standard string
toolbox that programs over byte strings need: character classes, decimal numerals, prefixes
and substring search.
-/

namespace Harbor

abbrev Bytes := List UInt8

instance lawfulBEq_bytes : LawfulBEq Bytes := inferInstance

/-- The bytes of an ASCII literal. -/
def lit (s : String) : Bytes := s.toList.map fun c => UInt8.ofNat c.toNat

/-- A literal as the list of its bytes, without a look at how the string is stored. -/
theorem lit_ofList (cs : List Char) :
    lit (String.ofList cs) = cs.map fun c => UInt8.ofNat c.toNat := by
  rw [lit, String.toList_ofList]

/-- Decided along the string, not over all 256 bytes. -/
instance (priority := 2000) decidableForallMem {P : UInt8 → Prop} [DecidablePred P] (s : Bytes) :
    Decidable (∀ b ∈ s, P b) :=
  List.decidableBAll P s

/-- A property of bytes that holds of all 256 of them. -/
theorem forall_byte {P : UInt8 → Prop} (h : ∀ n : Fin 256, P (UInt8.ofNat n)) (b : UInt8) :
    P b := by
  have hb := h ⟨b.toNat, b.toNat_lt⟩
  simpa using hb

theorem ok_bind {ε α β : Type} (a : α) (f : α → Except ε β) : (Except.ok a >>= f) = f a := rfl

/-- A computation that succeeds has succeeded in its first step. -/
theorem bind_eq_ok {ε α β : Type} {x : Except ε α} {f : α → Except ε β} {b : β} :
    (x >>= f) = .ok b ↔ ∃ a, x = .ok a ∧ f a = .ok b := by
  cases x with
  | ok a => exact ⟨fun h => ⟨a, rfl, h⟩, fun ⟨a', ha, h⟩ => by cases ha; exact h⟩
  | error e => exact ⟨fun h => (nomatch h), fun ⟨a', ha, _⟩ => (nomatch ha)⟩

theorem toOption_ok {ε α : Type} (a : α) : (Except.ok a : Except ε α).toOption = some a := rfl

theorem toOption_bind {ε α β : Type} (x : Except ε α) (f : α → Except ε β) :
    (x >>= f).toOption = x.toOption.bind fun a => (f a).toOption := by
  cases x <;> rfl

theorem toOption_map_ok {ε α β : Type} (x : Except ε α) (f : α → β) :
    (x >>= fun a => Except.ok (f a)).toOption = x.toOption.map f := by
  cases x <;> rfl

theorem toOption_eq_some {ε α : Type} {x : Except ε α} {a : α} : x.toOption = some a ↔ x = .ok a := by
  cases x <;> simp [Except.toOption]

theorem mapError_eq_ok {ε ε' α : Type} {x : Except ε α} {f : ε → ε'} {a : α} :
    x.mapError f = .ok a ↔ x = .ok a := by
  cases x <;> simp [Except.mapError]

theorem toOption_mapError {ε ε' α : Type} (x : Except ε α) (f : ε → ε') :
    (x.mapError f).toOption = x.toOption := by
  cases x <;> rfl

namespace Bytes

/-! ## Character classes -/

/-- `'0'` to `'9'`. -/
def isDigit (b : UInt8) : Bool := 0x30 ≤ b && b ≤ 0x39

/-- The value of a decimal digit. -/
def digitValue (b : UInt8) : Nat := b.toNat - 0x30

/-- `std::isspace` in the C locale. -/
def isSpace (b : UInt8) : Bool := b == 0x20 || (0x09 ≤ b && b ≤ 0x0D)

def isAlpha (b : UInt8) : Bool := (0x41 ≤ b && b ≤ 0x5A) || (0x61 ≤ b && b ≤ 0x7A)

def toLower (b : UInt8) : UInt8 := if 0x41 ≤ b && b ≤ 0x5A then b + 0x20 else b

def toUpper (b : UInt8) : UInt8 := if 0x61 ≤ b && b ≤ 0x7A then b - 0x20 else b

/-- `StringUtil::Lower`. -/
def lower (s : Bytes) : Bytes := s.map toLower

/-- `StringUtil::Upper`. -/
def upper (s : Bytes) : Bytes := s.map toUpper

/-- Both ends without their white space. -/
def trim (s : Bytes) : Bytes := ((s.dropWhile isSpace).reverse.dropWhile isSpace).reverse

/-! ## Prefixes and substrings -/

/-- `StringUtil::StartsWith`. -/
def startsWith (s p : Bytes) : Bool := p.isPrefixOf s

/-- `s.find(p) != npos`. -/
def contains (s p : Bytes) : Bool := s.tails.any fun t => p.isPrefixOf t

theorem contains_iff {s p : Bytes} : contains s p = true ↔ p <:+: s := by
  simp only [contains, List.any_eq_true, List.mem_tails, List.isPrefixOf_iff_prefix,
    List.infix_iff_prefix_suffix, and_comm]

/-- `s.find(p, start)`: the first place from `start` on where `p` stands. -/
def findFrom (s p : Bytes) (start : Nat) : Option Nat :=
  (List.range (s.length + 1)).find? fun i => decide (start ≤ i) && startsWith (s.drop i) p

/-! ## Lines -/

/-- The pieces between the line feeds; the last one may be without. -/
def lines : Bytes → List Bytes
  | [] => []
  | b :: s =>
      if b = 0x0A then [] :: lines s
      else
        match lines s with
        | [] => [[b]]
        | l :: ls => (b :: l) :: ls

theorem lines_append {l : Bytes} (h : 0x0A ∉ l) (s : Bytes) : lines (l ++ 0x0A :: s) = l :: lines s := by
  induction l with
  | nil => simp [lines]
  | cons b l ih =>
      simp only [List.mem_cons, not_or] at h
      rw [List.cons_append, lines, if_neg (Ne.symm h.1), ih h.2]

/-! ## Joining -/

theorem intercalate_cons (sep t : Bytes) (ts : List Bytes) :
    sep.intercalate (t :: ts) = t ++ ts.flatMap (sep ++ ·) := by
  induction ts generalizing t with
  | nil => simp
  | cons u ts ih =>
      rw [List.intercalate_cons_cons, ih u, List.flatMap_cons]
      simp only [List.append_assoc]

theorem mem_intercalate {b : UInt8} {sep : Bytes} {ts : List Bytes}
    (h : b ∈ sep.intercalate ts) : b ∈ sep ∨ ∃ t ∈ ts, b ∈ t := by
  cases ts with
  | nil => simp at h
  | cons t ts =>
      simp only [intercalate_cons, List.mem_append, List.mem_flatMap] at h
      rcases h with h | ⟨u, hu, h | h⟩
      · exact Or.inr ⟨t, by simp, h⟩
      · exact Or.inl h
      · exact Or.inr ⟨u, by simp [hu], h⟩

theorem length_le_intercalate {sep t : Bytes} {ts : List Bytes} (ht : t ∈ ts) :
    t.length ≤ (sep.intercalate ts).length := by
  induction ts with
  | nil => cases ht
  | cons u ts ih =>
      rw [intercalate_cons, List.length_append]
      rcases List.mem_cons.mp ht with rfl | ht
      · omega
      · have hle : t.length ≤ (ts.flatMap fun v => sep ++ v).length := by
          obtain ⟨v, w, rfl⟩ := List.append_of_mem ht
          simp only [List.flatMap_append, List.flatMap_cons, List.length_append]
          omega
        omega

/-! ## Decimal numerals -/

/-- The decimal numeral of a natural number. -/
def decNat (n : Nat) : Bytes := (Nat.toDigits 10 n).map fun c => UInt8.ofNat c.toNat

/-- The decimal numeral of an integer, as `%lld` prints it. -/
def decInt : Int → Bytes
  | .ofNat n => decNat n
  | .negSucc n => 0x2D :: decNat (n + 1)

theorem decNat_of_lt {n : Nat} (h : n < 10) : decNat n = [UInt8.ofNat (0x30 + n)] := by
  rw [decNat, Nat.toDigits_of_lt_base h]
  interval_cases n <;> rfl

theorem decNat_of_le {n : Nat} (h : 10 ≤ n) :
    decNat n = decNat (n / 10) ++ [UInt8.ofNat (0x30 + n % 10)] := by
  have hlast : [UInt8.ofNat (0x30 + n % 10)] = decNat (n % 10) :=
    (decNat_of_lt (Nat.mod_lt n (by omega))).symm
  rw [hlast, decNat, decNat, decNat, Nat.toDigits_of_base_le (by omega) h,
    Nat.toDigits_of_lt_base (Nat.mod_lt n (by omega)), List.map_append]

theorem isDigit_ofNat {d : Nat} (h : d < 10) : isDigit (UInt8.ofNat (0x30 + d)) = true := by
  interval_cases d <;> rfl

theorem digitValue_ofNat {d : Nat} (h : d < 10) : digitValue (UInt8.ofNat (0x30 + d)) = d := by
  interval_cases d <;> rfl

/-- A numeral consists of digits. -/
theorem isDigit_of_mem_decNat {n : Nat} : ∀ b ∈ decNat n, isDigit b = true := by
  induction n using Nat.strong_induction_on with
  | _ n ih =>
      by_cases h : n < 10
      · rw [decNat_of_lt h]
        intro b hb
        rw [List.mem_singleton] at hb
        rw [hb]
        exact isDigit_ofNat h
      · rw [decNat_of_le (by omega)]
        intro b hb
        rcases List.mem_append.mp hb with hb | hb
        · exact ih (n / 10) (by omega) b hb
        · rw [List.mem_singleton] at hb
          rw [hb]
          exact isDigit_ofNat (Nat.mod_lt n (by omega))

theorem decNat_ne_nil (n : Nat) : decNat n ≠ [] := by
  by_cases h : n < 10
  · rw [decNat_of_lt h]
    simp
  · rw [decNat_of_le (by omega)]
    simp

/-- The number a string of digits denotes, from the value `acc` of the digits before it. -/
def natOfDigits (acc : Nat) (ds : Bytes) : Nat :=
  ds.foldl (fun acc b => acc * 10 + digitValue b) acc

theorem natOfDigits_append (acc : Nat) (ds es : Bytes) :
    natOfDigits acc (ds ++ es) = natOfDigits (natOfDigits acc ds) es := by
  simp [natOfDigits, List.foldl_append]

/-- **A numeral denotes its number.** -/
theorem natOfDigits_decNat (n : Nat) : natOfDigits 0 (decNat n) = n := by
  induction n using Nat.strong_induction_on with
  | _ n ih =>
      by_cases h : n < 10
      · rw [decNat_of_lt h]
        simp only [natOfDigits, List.foldl_cons, List.foldl_nil, digitValue_ofNat h]
        omega
      · rw [decNat_of_le (by omega), natOfDigits_append, ih (n / 10) (by omega)]
        simp only [natOfDigits, List.foldl_cons, List.foldl_nil,
          digitValue_ofNat (Nat.mod_lt n (by omega : 0 < 10))]
        omega

theorem decNat_injective {m n : Nat} (h : decNat m = decNat n) : m = n := by
  rw [← natOfDigits_decNat m, ← natOfDigits_decNat n, h]

/-- The first digit of a positive number is not `'0'`. -/
theorem head_decNat_ne_zero {n : Nat} (h : 0 < n) : ∃ b ds, decNat n = b :: ds ∧ b ≠ 0x30 := by
  induction n using Nat.strong_induction_on with
  | _ n ih =>
      by_cases hn : n < 10
      · refine ⟨_, [], decNat_of_lt hn, ?_⟩
        interval_cases n <;> decide
      · obtain ⟨b, ds, hds, hb⟩ := ih (n / 10) (by omega) (by omega)
        exact ⟨b, ds ++ _, by rw [decNat_of_le (by omega), hds, List.cons_append], hb⟩

/-- `std::stoull`: white space, a sign, digits up to the first byte that is none; `none` where it
throws, without a digit or from `2 ^ 64` on. -/
def stoull (s : Bytes) : Option Nat :=
  let s := s.dropWhile isSpace
  let negative := s.head? == some 0x2D
  let digits := (if negative || s.head? == some 0x2B then s.tail else s).takeWhile isDigit
  let n := natOfDigits 0 digits
  if digits = [] ∨ 2 ^ 64 ≤ n then none else some (if negative then (2 ^ 64 - n) % 2 ^ 64 else n)

theorem stoull_decNat {n : Nat} (h : n < 2 ^ 64) : stoull (decNat n) = some n := by
  have hdigits := isDigit_of_mem_decNat (n := n)
  have hvalue := natOfDigits_decNat n
  cases hn : decNat n with
  | nil => exact absurd hn (decNat_ne_nil n)
  | cons b ds =>
      rw [hn] at hdigits hvalue
      have hb : isDigit b = true := hdigits b (by simp)
      have hplain : isSpace b = false ∧ b ≠ 0x2D ∧ b ≠ 0x2B := by
        grind [isDigit, isSpace]
      obtain ⟨hspace, hminus, hplus⟩ := hplain
      have hall : (b :: ds).takeWhile isDigit = b :: ds :=
        List.takeWhile_eq_self_iff.mpr hdigits
      simp [stoull, hspace, hminus, hplus, hall, hvalue]
      omega

/-! ## Splitting -/

/-- The pieces of a split do not contain the separator. -/
theorem notMem_of_mem_splitOn {sep : UInt8} {s piece : Bytes} :
    piece ∈ s.splitOn sep → sep ∉ piece := by
  intro h
  induction s generalizing piece with
  | nil =>
      rw [List.splitOn_nil, List.mem_singleton] at h
      simp [h]
  | cons b s ih =>
      rw [List.splitOn_cons_eq_if_modifyHead] at h
      split at h
      · rcases List.mem_cons.mp h with rfl | h
        · simp
        · exact ih h
      · rename_i hb
        cases hs : s.splitOn sep with
        | nil => exact absurd hs (List.splitOn_ne_nil sep s)
        | cons p ps =>
            rw [hs, List.modifyHead_cons] at h
            rcases List.mem_cons.mp h with rfl | h
            · have hp : sep ∉ p := ih (by rw [hs]; simp)
              simp only [List.mem_cons, not_or]
              exact ⟨fun heq => hb (by simp [heq]), hp⟩
            · exact ih (by rw [hs]; simp [h])

/-! ## UTF-8 -/

/-- The bytes are the UTF-8 encoding of a sequence of Unicode scalar values. -/
def IsUtf8 (s : Bytes) : Prop := ∃ cs : List Char, s = cs.flatMap String.utf8EncodeChar

/-- Induction over the characters of a UTF-8 string. -/
theorem IsUtf8.rec_chars {P : Bytes → Prop} (nil : P [])
    (cons : ∀ (c : Char) (s : Bytes), IsUtf8 s → P s → P (String.utf8EncodeChar c ++ s)) :
    ∀ {s : Bytes}, IsUtf8 s → P s := by
  rintro s ⟨cs, rfl⟩
  induction cs with
  | nil => exact nil
  | cons c cs ih =>
      rw [List.flatMap_cons]
      exact cons c _ ⟨cs, rfl⟩ ih

theorem utf8EncodeChar_ascii {b : UInt8} (h : b < 0x80) :
    String.utf8EncodeChar (Char.ofNat b.toNat) = [b] := by
  have hb : b.toNat < 128 := by simpa using UInt8.lt_iff_toNat_lt.mp h
  have hval : (Char.ofNat b.toNat).val.toNat = b.toNat := by
    rw [Char.ofNat, dif_pos (Or.inl (by omega))]
    rfl
  rw [String.utf8EncodeChar, hval, if_pos (by omega)]
  simp

/-- An ASCII string is UTF-8. -/
theorem isUtf8_of_ascii {s : Bytes} (h : ∀ b ∈ s, b < 0x80) : IsUtf8 s := by
  refine ⟨s.map fun b => Char.ofNat b.toNat, ?_⟩
  induction s with
  | nil => rfl
  | cons b s ih =>
      rw [List.map_cons, List.flatMap_cons, utf8EncodeChar_ascii (h b (by simp)),
        List.singleton_append, ← ih fun c hc => h c (by simp [hc])]

end Bytes

end Harbor
