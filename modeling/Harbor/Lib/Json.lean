import Harbor.Lib.Bytes
import Mathlib.Data.Rat.Defs
import Mathlib.Data.List.TakeWhile

set_option autoImplicit false

/-! # JSON

Three views of JSON.

* `Json` is the syntax tree of a text: an object keeps its members in the order of the text,
  duplicate names included, and a number keeps its literal.
* `Json.parse` reads a text in the grammar of RFC 8259.
* `JVal` is what an ordinary consumer makes of the tree: a number is its decimal value, an
  object is a finite map, and of duplicate names the last one wins. `Json.read` is the map from
  trees to values.
-/

namespace Harbor

/-! ## Syntax trees -/

inductive Json where
  | null
  | bool (b : Bool)
  | num (literal : Bytes)
  | str (s : Bytes)
  | arr (xs : List Json)
  | obj (ms : List (Bytes × Json))
deriving Repr

namespace Json

/-- Induction over trees: a container may assume the statement for everything inside it. -/
theorem induction {P : Json → Prop} (null : P null) (bool : ∀ b, P (bool b))
    (num : ∀ l, P (num l)) (str : ∀ s, P (str s)) (arr : ∀ xs, (∀ x ∈ xs, P x) → P (arr xs))
    (obj : ∀ ms : List (Bytes × Json), (∀ m ∈ ms, P m.2) → P (obj ms)) : ∀ j, P j := by
  refine @Json.rec P (fun xs => ∀ x ∈ xs, P x) (fun ms => ∀ m ∈ ms, P m.2) (fun m => P m.2)
    null bool num str arr obj ?_ ?_ ?_ ?_ fun _ _ h => h
  · simp
  · intro x xs hx hxs
    exact List.forall_mem_cons.mpr ⟨hx, hxs⟩
  · simp
  · intro m ms hm hms
    exact List.forall_mem_cons.mpr ⟨hm, hms⟩

/-! ## Numbers -/

/-- A decimal number with its sign, so that `0` and `-0` stay apart. -/
structure Number where
  neg : Bool
  magnitude : ℚ
deriving DecidableEq, Repr

/-- What the grammar of numbers takes apart:
`[ minus ] int [ "." frac ] [ e [ minus / plus ] exp ]`. -/
structure NumberParts where
  neg : Bool
  int : Bytes
  frac : Bytes
  expNeg : Bool
  exp : Bytes
deriving DecidableEq, Repr

/-- The number `int.frac * 10 ^ exp`. -/
def NumberParts.value (p : NumberParts) : Number :=
  let coeff : ℚ := (Bytes.natOfDigits 0 (p.int ++ p.frac) : ℚ) / 10 ^ p.frac.length
  let scale : ℚ := 10 ^ Bytes.natOfDigits 0 p.exp
  ⟨p.neg, if p.expNeg then coeff / scale else coeff * scale⟩

/-- The leading digits of a text. -/
def spanDigits (s : Bytes) : Bytes × Bytes := (s.takeWhile Bytes.isDigit, s.dropWhile Bytes.isDigit)

/-- `int = zero / ( digit1-9 *DIGIT )`. -/
def scanInt : Bytes → Option (Bytes × Bytes)
  | [] => none
  | b :: s =>
      if b = 0x30 then some ([b], s)
      else if Bytes.isDigit b then some (b :: (spanDigits s).1, (spanDigits s).2)
      else none

/-- `frac = "." 1*DIGIT`, or nothing. -/
def scanFrac : Bytes → Option (Bytes × Bytes)
  | [] => some ([], [])
  | b :: s =>
      if b = 0x2E then
        if (spanDigits s).1 = [] then none else some (spanDigits s)
      else some ([], b :: s)

/-- `[ minus / plus ]`; the flag is the minus. -/
def scanSign : Bytes → Bool × Bytes
  | [] => (false, [])
  | b :: s =>
      if b = 0x2D then (true, s)
      else if b = 0x2B then (false, s)
      else (false, b :: s)

/-- `exp = e [ minus / plus ] 1*DIGIT`, or nothing. -/
def scanExp : Bytes → Option (Bool × Bytes × Bytes)
  | [] => some (false, [], [])
  | b :: s =>
      if b = 0x65 ∨ b = 0x45 then
        if (spanDigits (scanSign s).2).1 = [] then none
        else some ((scanSign s).1, spanDigits (scanSign s).2)
      else some (false, [], b :: s)

/-- `[ minus ]`. -/
def scanMinus : Bytes → Bool × Bytes
  | [] => (false, [])
  | b :: s => if b = 0x2D then (true, s) else (false, b :: s)

/-- The number at the start of a text, and the text behind it. -/
def scanNumber (s : Bytes) : Option (NumberParts × Bytes) := do
  let (neg, s) := scanMinus s
  let (int, s) ← scanInt s
  let (frac, s) ← scanFrac s
  let (expNeg, exp, s) ← scanExp s
  some (⟨neg, int, frac, expNeg, exp⟩, s)

/-- The literal is in the grammar of numbers. -/
def IsNumber (literal : Bytes) : Prop := ∃ p, scanNumber literal = some (p, [])

/-- The value of a number literal; `0` for a text that is none. -/
def numberValue (literal : Bytes) : Number :=
  match scanNumber literal with
  | some (p, _) => p.value
  | none => ⟨false, 0⟩

/-! ## Strings -/

/-- The value of a hexadecimal digit. -/
def hexValue (b : UInt8) : Option Nat :=
  if Bytes.isDigit b then some (b.toNat - 0x30)
  else if 0x61 ≤ b ∧ b ≤ 0x66 then some (b.toNat - 0x57)
  else if 0x41 ≤ b ∧ b ≤ 0x46 then some (b.toNat - 0x37)
  else none

/-- The code unit of `\uXXXX`. -/
def hexUnit (a b c d : UInt8) : Option Nat := do
  some (((← hexValue a) * 16 + (← hexValue b)) * 256 + ((← hexValue c) * 16 + (← hexValue d)))

/-- What a two-character escape `\c` stands for. -/
def unescape (c : UInt8) : Option UInt8 :=
  if c = 0x22 ∨ c = 0x5C ∨ c = 0x2F then some c
  else if c = 0x62 then some 0x08
  else if c = 0x66 then some 0x0C
  else if c = 0x6E then some 0x0A
  else if c = 0x72 then some 0x0D
  else if c = 0x74 then some 0x09
  else none

/-- The characters a code unit adds, given the high surrogate before it, and the high surrogate it
leaves behind. Surrogates have to come in pairs. -/
def joinUnit : Option Nat → Nat → Option (Bytes × Option Nat)
  | none, u =>
      if 0xD800 ≤ u ∧ u < 0xDC00 then some ([], some u)
      else if 0xDC00 ≤ u ∧ u < 0xE000 then none
      else some (String.utf8EncodeChar (Char.ofNat u), none)
  | some hi, u =>
      if 0xDC00 ≤ u ∧ u < 0xE000 then
        let c := Char.ofNat (0x10000 + (hi - 0xD800) * 0x400 + (u - 0xDC00))
        some (String.utf8EncodeChar c, none)
      else none

/-- The rest of a string behind its opening quote: its contents and the text behind the closing
quote. The first argument is a high surrogate that waits for its partner. -/
def readString : Option Nat → Bytes → Option (Bytes × Bytes)
  | _, [] => none
  | hi, b :: s =>
      if b = 0x5C then
        match s with
        | 0x75 :: a :: b :: c :: d :: s => do
            let (chars, hi) ← joinUnit hi (← hexUnit a b c d)
            let (t, s) ← readString hi s
            some (chars ++ t, s)
        | c :: s =>
            if hi.isSome then none
            else do
              let x ← unescape c
              let (t, s) ← readString none s
              some (x :: t, s)
        | [] => none
      else if hi.isSome ∨ b < 0x20 then none
      else if b = 0x22 then some ([], s)
      else do
        let (t, s) ← readString none s
        some (b :: t, s)

theorem readString_quote (s : Bytes) : readString none (0x22 :: s) = some ([], s) := by
  rw [readString.eq_def]
  rfl

/-- A byte that a string holds as it is. -/
theorem readString_plain {b : UInt8} (h : 0x20 ≤ b) (hq : b ≠ 0x22) (hs : b ≠ 0x5C) (s : Bytes) :
    readString none (b :: s) = (readString none s).map fun r => (b :: r.1, r.2) := by
  rw [readString.eq_def]
  simp only [if_neg hs, if_neg hq, Option.isSome_none, Bool.false_eq_true, false_or,
    if_neg (UInt8.not_lt.mpr h)]
  cases readString none s <;> rfl

theorem ne_u_of_unescape {b c : UInt8} (h : unescape c = some b) : c ≠ 0x75 := by
  rintro rfl
  cases h

theorem readString_escape {b c : UInt8} (h : unescape c = some b) (s : Bytes) :
    readString none (0x5C :: c :: s) = (readString none s).map fun r => (b :: r.1, r.2) := by
  rw [readString.eq_def]
  simp only [if_true]
  split
  · rename_i heq
    exact absurd (List.cons.inj heq).1 (ne_u_of_unescape h)
  · rename_i heq
    obtain ⟨rfl, rfl⟩ := List.cons.inj heq
    simp only [Option.isSome_none, Bool.false_eq_true, if_false, h]
    cases readString none s <;> rfl
  · rename_i heq
    exact absurd heq (by simp)

/-! ## Values -/

def isWs (b : UInt8) : Bool := b == 0x20 || b == 0x09 || b == 0x0A || b == 0x0D

def skipWs (s : Bytes) : Bytes := s.dropWhile isWs

/-- The text behind an expected keyword. -/
def dropKeyword (k s : Bytes) : Option Bytes :=
  if Bytes.startsWith s k then some (s.drop k.length) else none

mutual

/-- The value at the start of a text, and the text behind it. -/
def readValue : Nat → Bytes → Option (Json × Bytes)
  | 0, _ => none
  | fuel + 1, s =>
      match skipWs s with
      | [] => none
      | b :: s =>
          if b = 0x22 then (readString none s).map fun (t, s) => (.str t, s)
          else if b = 0x5B then
            if (skipWs s).head? = some 0x5D then some (.arr [], (skipWs s).tail)
            else (readElements fuel s).map fun (xs, s) => (.arr xs, s)
          else if b = 0x7B then
            if (skipWs s).head? = some 0x7D then some (.obj [], (skipWs s).tail)
            else (readMembers fuel s).map fun (ms, s) => (.obj ms, s)
          else if b = 0x6E then (dropKeyword (lit "ull") s).map fun s => (.null, s)
          else if b = 0x74 then (dropKeyword (lit "rue") s).map fun s => (.bool true, s)
          else if b = 0x66 then (dropKeyword (lit "alse") s).map fun s => (.bool false, s)
          else
            (scanNumber (b :: s)).map fun (_, rest) =>
              (.num ((b :: s).take ((b :: s).length - rest.length)), rest)

/-- The elements of an array up to its closing bracket. -/
def readElements : Nat → Bytes → Option (List Json × Bytes)
  | 0, _ => none
  | fuel + 1, s => do
      let (x, s) ← readValue fuel s
      match skipWs s with
      | 0x2C :: s => (readElements fuel s).map fun (xs, s) => (x :: xs, s)
      | 0x5D :: s => some ([x], s)
      | _ => none

/-- The members of an object up to its closing brace. -/
def readMembers : Nat → Bytes → Option (List (Bytes × Json) × Bytes)
  | 0, _ => none
  | fuel + 1, s =>
      match skipWs s with
      | 0x22 :: s => do
          let (k, s) ← readString none s
          match skipWs s with
          | 0x3A :: s => do
              let (x, s) ← readValue fuel s
              match skipWs s with
              | 0x2C :: s => (readMembers fuel s).map fun (ms, s) => ((k, x) :: ms, s)
              | 0x7D :: s => some ([(k, x)], s)
              | _ => none
          | _ => none
      | _ => none

end

/-- The tree of a whole text. -/
def parse (s : Bytes) : Option Json :=
  match readValue (s.length + 1) s with
  | some (j, rest) => if skipWs rest = [] then some j else none
  | none => none

end Json

/-! ## Values as consumers see them -/

inductive JVal where
  | null
  | bool (b : Bool)
  | num (n : Json.Number)
  | str (s : Bytes)
  | arr (xs : List JVal)
  | obj (m : Bytes → Option JVal)

namespace Json

mutual

/-- The value of a tree. -/
def read : Json → JVal
  | null => .null
  | bool b => .bool b
  | num l => .num (numberValue l)
  | str s => .str s
  | arr xs => .arr (readList xs)
  | obj ms => .obj (readMap ms)
termination_by structural j => j

def readList : List Json → List JVal
  | [] => []
  | x :: xs => x.read :: readList xs
termination_by structural xs => xs

/-- The map of a list of members: the last member of a name decides. -/
def readMap : List (Bytes × Json) → Bytes → Option JVal
  | [], _ => none
  | m :: ms, k =>
      match readMap ms k with
      | some v => some v
      | none => if m.1 = k then some (readMember m) else none
termination_by structural ms => ms

def readMember : Bytes × Json → JVal
  | (_, j) => j.read
termination_by structural m => m

end

/-! ## Scanning a prefix -/

/-- What may stand behind a value inside a container: nothing, a comma or a closing bracket. -/
def Delimited (rest : Bytes) : Prop := ∀ b ∈ rest.head?, b = 0x2C ∨ b = 0x5D ∨ b = 0x7D

theorem delimited_nil : Delimited [] := by simp [Delimited]

theorem delimited_cons {b : UInt8} (h : b = 0x2C ∨ b = 0x5D ∨ b = 0x7D) (s : Bytes) :
    Delimited (b :: s) := by
  simpa [Delimited] using h

theorem Delimited.not_digit {b : UInt8} {s : Bytes} (h : Delimited (b :: s)) :
    Bytes.isDigit b = false := by
  rcases h b rfl with rfl | rfl | rfl <;> rfl

theorem spanDigits_append {s rest : Bytes} (h : Delimited rest) :
    spanDigits (s ++ rest) = ((spanDigits s).1, (spanDigits s).2 ++ rest) := by
  simp only [spanDigits]
  induction s with
  | nil =>
      cases rest with
      | nil => rfl
      | cons b rest => simp [h.not_digit]
  | cons b s ih =>
      by_cases hb : Bytes.isDigit b = true
      · simpa [hb] using ih
      · simp [hb]

theorem scanInt_append {s r d rest : Bytes} (h : Delimited rest) (hs : scanInt s = some (d, r)) :
    scanInt (s ++ rest) = some (d, r ++ rest) := by
  cases s with
  | nil => simp [scanInt] at hs
  | cons b s =>
      rw [scanInt] at hs
      rw [List.cons_append, scanInt, spanDigits_append h]
      split_ifs at hs ⊢ with h0 hd
      · simp_all
      · simp_all

theorem scanFrac_append {s r d rest : Bytes} (h : Delimited rest) (hs : scanFrac s = some (d, r)) :
    scanFrac (s ++ rest) = some (d, r ++ rest) := by
  cases s with
  | nil =>
      obtain ⟨rfl, rfl⟩ : [] = d ∧ [] = r := by simpa [scanFrac] using hs
      cases rest with
      | nil => rfl
      | cons b rest =>
          have hb : b ≠ 0x2E := by rcases h b rfl with rfl | rfl | rfl <;> decide
          simp [scanFrac, hb]
  | cons b s =>
      rw [scanFrac] at hs
      rw [List.cons_append, scanFrac, spanDigits_append h]
      split_ifs at hs ⊢ with hb hd
      · simpa using congrArg (Option.map fun p => (p.1, p.2 ++ rest)) hs
      · obtain ⟨rfl, rfl⟩ : [] = d ∧ b :: s = r := by simpa using hs
        rfl

theorem scanSign_append {s : Bytes} (hs : s ≠ []) (rest : Bytes) :
    scanSign (s ++ rest) = ((scanSign s).1, (scanSign s).2 ++ rest) := by
  cases s with
  | nil => exact absurd rfl hs
  | cons b s =>
      rw [List.cons_append, scanSign, scanSign]
      split_ifs <;> rfl

theorem scanMinus_append {s : Bytes} (hs : s ≠ []) (rest : Bytes) :
    scanMinus (s ++ rest) = ((scanMinus s).1, (scanMinus s).2 ++ rest) := by
  cases s with
  | nil => exact absurd rfl hs
  | cons b s =>
      rw [List.cons_append, scanMinus, scanMinus]
      split_ifs <;> rfl

theorem scanExp_append {s r d rest : Bytes} {neg : Bool} (h : Delimited rest)
    (hs : scanExp s = some (neg, d, r)) : scanExp (s ++ rest) = some (neg, d, r ++ rest) := by
  cases s with
  | nil =>
      obtain ⟨rfl, rfl, rfl⟩ : false = neg ∧ [] = d ∧ [] = r := by simpa [scanExp] using hs
      cases rest with
      | nil => rfl
      | cons b rest =>
          have hb : ¬ (b = 0x65 ∨ b = 0x45) := by rcases h b rfl with rfl | rfl | rfl <;> decide
          rw [List.nil_append, scanExp, if_neg hb]
  | cons b s =>
      rw [scanExp] at hs
      rw [List.cons_append, scanExp]
      by_cases hb : b = 0x65 ∨ b = 0x45
      · rw [if_pos hb] at hs ⊢
        have hne : s ≠ [] := by
          rintro rfl
          simp [scanSign, spanDigits] at hs
        rw [scanSign_append hne, spanDigits_append h]
        split_ifs at hs ⊢ with hd
        obtain ⟨rfl, hspan⟩ := Prod.mk.inj (Option.some.inj hs)
        rw [hspan]
      · rw [if_neg hb] at hs ⊢
        obtain ⟨rfl, rfl, rfl⟩ : false = neg ∧ [] = d ∧ b :: s = r := by simpa using hs
        rfl

/-- **A number literal is read up to where it ends**, whatever container goes on behind it. -/
theorem scanNumber_append {s rest : Bytes} {p : NumberParts} (h : Delimited rest)
    (hs : scanNumber s = some (p, [])) : scanNumber (s ++ rest) = some (p, rest) := by
  simp only [scanNumber, Option.bind_eq_bind, Option.bind_eq_some_iff, Prod.exists] at hs
  obtain ⟨int, s₁, hint, frac, s₂, hfrac, expNeg, exp, s₃, hexp, hp⟩ := hs
  obtain ⟨rfl, rfl⟩ := Prod.mk.inj (Option.some.inj hp)
  have hne : s ≠ [] := by
    rintro rfl
    simp [scanMinus, scanInt] at hint
  simp only [scanNumber, scanMinus_append hne, scanInt_append h hint, scanFrac_append h hfrac,
    scanExp_append h hexp, Option.bind_eq_bind, Option.bind_some, List.nil_append]

/-! ## The bytes of a number -/

def isNumberByte (b : UInt8) : Bool :=
  Bytes.isDigit b || b == 0x2D || b == 0x2B || b == 0x2E || b == 0x65 || b == 0x45

/-- `r` is left of `s` behind bytes that numbers are written with. -/
def Scanned (s r : Bytes) : Prop := ∃ p, s = p ++ r ∧ ∀ b ∈ p, isNumberByte b = true

theorem Scanned.refl (s : Bytes) : Scanned s s := ⟨[], rfl, by simp⟩

theorem Scanned.trans {s r t : Bytes} (h : Scanned s r) (h' : Scanned r t) : Scanned s t := by
  obtain ⟨p, rfl, hp⟩ := h
  obtain ⟨q, rfl, hq⟩ := h'
  refine ⟨p ++ q, by simp, fun b hb => ?_⟩
  rcases List.mem_append.mp hb with hb | hb
  · exact hp b hb
  · exact hq b hb

theorem scanned_cons {b : UInt8} {s r : Bytes} (hb : isNumberByte b = true) (h : Scanned s r) :
    Scanned (b :: s) r := by
  obtain ⟨p, rfl, hp⟩ := h
  exact ⟨b :: p, rfl, List.forall_mem_cons.mpr ⟨hb, hp⟩⟩

theorem isNumberByte_of_isDigit {b : UInt8} (h : Bytes.isDigit b = true) : isNumberByte b = true := by
  simp [isNumberByte, h]

theorem scanned_spanDigits (s : Bytes) : Scanned s (spanDigits s).2 :=
  ⟨s.takeWhile Bytes.isDigit, (List.takeWhile_append_dropWhile).symm, fun _ hb =>
    isNumberByte_of_isDigit (List.all_eq_true.mp List.all_takeWhile _ hb)⟩

theorem scanned_scanMinus (s : Bytes) : Scanned s (scanMinus s).2 := by
  cases s with
  | nil => exact .refl _
  | cons b s =>
      rw [scanMinus]
      split_ifs with h
      · exact scanned_cons (by rw [h]; rfl) (.refl s)
      · exact .refl _

theorem scanned_scanInt {s d r : Bytes} (h : scanInt s = some (d, r)) : Scanned s r := by
  cases s with
  | nil => simp [scanInt] at h
  | cons b s =>
      rw [scanInt] at h
      split_ifs at h with h0 hd
      · obtain ⟨-, rfl⟩ : [b] = d ∧ s = r := by simpa using h
        exact scanned_cons (by rw [h0]; rfl) (.refl s)
      · obtain ⟨-, rfl⟩ : b :: (spanDigits s).1 = d ∧ (spanDigits s).2 = r := by simpa using h
        exact scanned_cons (isNumberByte_of_isDigit hd) (scanned_spanDigits s)

theorem scanned_scanFrac {s d r : Bytes} (h : scanFrac s = some (d, r)) : Scanned s r := by
  cases s with
  | nil =>
      obtain ⟨-, rfl⟩ : [] = d ∧ [] = r := by simpa [scanFrac] using h
      exact .refl _
  | cons b s =>
      rw [scanFrac] at h
      split_ifs at h with hb hd
      · obtain rfl : (spanDigits s).2 = r := congrArg Prod.snd (Option.some.inj h)
        exact scanned_cons (by rw [hb]; rfl) (scanned_spanDigits s)
      · obtain ⟨-, rfl⟩ : [] = d ∧ b :: s = r := by simpa using h
        exact .refl _

theorem scanned_scanSign (s : Bytes) : Scanned s (scanSign s).2 := by
  cases s with
  | nil => exact .refl _
  | cons b s =>
      rw [scanSign]
      split_ifs with h h'
      · exact scanned_cons (by rw [h]; rfl) (.refl s)
      · exact scanned_cons (by rw [h']; rfl) (.refl s)
      · exact .refl _

theorem scanned_scanExp {s d r : Bytes} {neg : Bool} (h : scanExp s = some (neg, d, r)) :
    Scanned s r := by
  cases s with
  | nil =>
      obtain ⟨-, -, rfl⟩ : false = neg ∧ [] = d ∧ [] = r := by simpa [scanExp] using h
      exact .refl _
  | cons b s =>
      rw [scanExp] at h
      split_ifs at h with hb hd
      · obtain rfl : (spanDigits (scanSign s).2).2 = r :=
          congrArg Prod.snd (Prod.mk.inj (Option.some.inj h)).2
        have hbyte : isNumberByte b = true := by rcases hb with rfl | rfl <;> rfl
        exact scanned_cons hbyte ((scanned_scanSign s).trans (scanned_spanDigits _))
      · obtain ⟨-, -, rfl⟩ : false = neg ∧ [] = d ∧ b :: s = r := by simpa using h
        exact .refl _

theorem IsNumber.isNumberByte {l : Bytes} (h : IsNumber l) : ∀ b ∈ l, isNumberByte b = true := by
  obtain ⟨p, hp⟩ := h
  simp only [scanNumber, Option.bind_eq_bind, Option.bind_eq_some_iff, Prod.exists] at hp
  obtain ⟨int, s₁, hint, frac, s₂, hfrac, expNeg, exp, s₃, hexp, hp⟩ := hp
  obtain ⟨-, rfl⟩ := Prod.mk.inj (Option.some.inj hp)
  obtain ⟨q, hq, hall⟩ := (scanned_scanMinus l).trans ((scanned_scanInt hint).trans
    ((scanned_scanFrac hfrac).trans (scanned_scanExp hexp)))
  rw [List.append_nil] at hq
  exact hq ▸ hall

theorem isDigit_not_ws {b : UInt8} (h : Bytes.isDigit b = true) : isWs b = false := by
  grind [Bytes.isDigit, isWs]

/-- A number starts with a minus sign or a digit. -/
theorem IsNumber.head {l : Bytes} (h : IsNumber l) :
    ∃ b s, l = b :: s ∧ (b = 0x2D ∨ Bytes.isDigit b = true) := by
  obtain ⟨p, hp⟩ := h
  simp only [scanNumber, Option.bind_eq_bind, Option.bind_eq_some_iff, Prod.exists] at hp
  obtain ⟨int, s₁, hint, -⟩ := hp
  cases l with
  | nil => simp [scanMinus, scanInt] at hint
  | cons b s =>
      refine ⟨b, s, rfl, ?_⟩
      by_cases hb : b = 0x2D
      · exact Or.inl hb
      · right
        rw [scanMinus, if_neg hb, scanInt] at hint
        split_ifs at hint with h0 hd
        · subst h0
          rfl
        · exact hd

/-! ## Decimal integers -/

theorem spanDigits_of_digits {s : Bytes} (h : ∀ b ∈ s, Bytes.isDigit b = true) :
    spanDigits s = (s, []) := by
  simp only [spanDigits, Prod.mk.injEq]
  exact ⟨List.takeWhile_eq_self_iff.mpr h, List.dropWhile_eq_nil_iff.mpr h⟩

theorem scanInt_decNat (n : Nat) : scanInt (Bytes.decNat n) = some (Bytes.decNat n, []) := by
  by_cases hn : n = 0
  · subst hn
    rfl
  · obtain ⟨b, ds, hds, hb⟩ := Bytes.head_decNat_ne_zero (by omega : 0 < n)
    have hall := Bytes.isDigit_of_mem_decNat (n := n)
    rw [hds] at hall ⊢
    rw [scanInt, if_neg hb, if_pos (hall b (by simp)),
      spanDigits_of_digits fun c hc => hall c (by simp [hc])]

/-- The parts of an integer literal. -/
def intParts (neg : Bool) (n : Nat) : NumberParts := ⟨neg, Bytes.decNat n, [], false, []⟩

theorem value_intParts (neg : Bool) (n : Nat) : (intParts neg n).value = ⟨neg, n⟩ := by
  simp [intParts, NumberParts.value, Bytes.natOfDigits_decNat]
  simp [Bytes.natOfDigits]

theorem scanNumber_decNat (n : Nat) :
    scanNumber (Bytes.decNat n) = some (intParts false n, []) := by
  have hminus : scanMinus (Bytes.decNat n) = (false, Bytes.decNat n) := by
    obtain ⟨b, ds, hds⟩ := List.exists_cons_of_ne_nil (Bytes.decNat_ne_nil n)
    have hb := Bytes.isDigit_of_mem_decNat (n := n) b (by simp [hds])
    rw [hds, scanMinus, if_neg (by rintro rfl; simp [Bytes.isDigit] at hb)]
  simp only [scanNumber, hminus, scanInt_decNat, Option.bind_eq_bind, Option.bind_some]
  rfl

theorem scanNumber_neg_decNat (n : Nat) :
    scanNumber (0x2D :: Bytes.decNat n) = some (intParts true n, []) := by
  have hminus : scanMinus (0x2D :: Bytes.decNat n) = (true, Bytes.decNat n) := rfl
  simp only [scanNumber, hminus, scanInt_decNat, Option.bind_eq_bind, Option.bind_some]
  rfl

@[simp] theorem isNumber_decNat (n : Nat) : IsNumber (Bytes.decNat n) := ⟨_, scanNumber_decNat n⟩

@[simp] theorem isNumber_decInt (i : Int) : IsNumber (Bytes.decInt i) := by
  cases i with
  | ofNat n => exact isNumber_decNat n
  | negSucc n => exact ⟨_, scanNumber_neg_decNat (n + 1)⟩

theorem numberValue_decNat (n : Nat) : numberValue (Bytes.decNat n) = ⟨false, n⟩ := by
  rw [numberValue, scanNumber_decNat]
  exact value_intParts false n

theorem numberValue_neg_decNat (n : Nat) : numberValue (0x2D :: Bytes.decNat n) = ⟨true, n⟩ := by
  rw [numberValue, scanNumber_neg_decNat]
  exact value_intParts true n

theorem numberValue_decInt (i : Int) : numberValue (Bytes.decInt i) = ⟨i < 0, i.natAbs⟩ := by
  cases i with
  | ofNat n =>
      rw [Bytes.decInt, numberValue_decNat]
      simp
  | negSucc n =>
      rw [Bytes.decInt, numberValue_neg_decNat]
      simp

/-- Different integers are different numbers. -/
theorem numberValue_decInt_injective {i j : Int}
    (h : numberValue (Bytes.decInt i) = numberValue (Bytes.decInt j)) : i = j := by
  rw [numberValue_decInt, numberValue_decInt, Number.mk.injEq] at h
  obtain ⟨hneg, habs⟩ := h
  have habs : i.natAbs = j.natAbs := by exact_mod_cast habs
  have hneg : i < 0 ↔ j < 0 := by simpa using hneg
  omega

/-! ## Reading one value -/

section

attribute [local simp] readValue readElements readMembers

theorem skipWs_cons {b : UInt8} (h : isWs b = false) (s : Bytes) : skipWs (b :: s) = b :: s := by
  simp [skipWs, h]

theorem dropKeyword_append (k s : Bytes) : dropKeyword k (k ++ s) = some s := by
  simp [dropKeyword, Bytes.startsWith]

theorem readValue_null (fuel : Nat) (rest : Bytes) :
    readValue (fuel + 1) (lit "null" ++ rest) = some (null, rest) := by
  have h : lit "null" ++ rest = 0x6E :: (lit "ull" ++ rest) := rfl
  rw [h, readValue, skipWs_cons rfl]
  simp [dropKeyword_append]

theorem readValue_true (fuel : Nat) (rest : Bytes) :
    readValue (fuel + 1) (lit "true" ++ rest) = some (bool true, rest) := by
  have h : lit "true" ++ rest = 0x74 :: (lit "rue" ++ rest) := rfl
  rw [h, readValue, skipWs_cons rfl]
  simp [dropKeyword_append]

theorem readValue_false (fuel : Nat) (rest : Bytes) :
    readValue (fuel + 1) (lit "false" ++ rest) = some (bool false, rest) := by
  have h : lit "false" ++ rest = 0x66 :: (lit "alse" ++ rest) := rfl
  rw [h, readValue, skipWs_cons rfl]
  simp [dropKeyword_append]

theorem readValue_string {s t rest : Bytes} (h : readString none s = some (t, rest)) (fuel : Nat) :
    readValue (fuel + 1) (0x22 :: s) = some (str t, rest) := by
  rw [readValue, skipWs_cons rfl]
  simp [h]

theorem readValue_number {l rest : Bytes} (hl : IsNumber l) (h : Delimited rest) (fuel : Nat) :
    readValue (fuel + 1) (l ++ rest) = some (num l, rest) := by
  obtain ⟨p, hp⟩ := hl
  obtain ⟨b, s, rfl, hb⟩ := IsNumber.head ⟨p, hp⟩
  have hscan := scanNumber_append h hp
  have hbyte : isWs b = false ∧ b ≠ 0x22 ∧ b ≠ 0x5B ∧ b ≠ 0x7B ∧ b ≠ 0x6E ∧ b ≠ 0x74 ∧ b ≠ 0x66 := by
    rcases hb with rfl | hb
    · decide
    · grind [Bytes.isDigit, isWs]
  obtain ⟨hws, h1, h2, h3, h4, h5, h6⟩ := hbyte
  rw [List.cons_append] at hscan ⊢
  rw [readValue, skipWs_cons hws]
  simp only [if_neg h1, if_neg h2, if_neg h3, if_neg h4, if_neg h5, if_neg h6, hscan, Option.map_some]
  have hlen : (b :: (s ++ rest)).length - rest.length = (b :: s).length := by
    simp only [List.length_cons, List.length_append]
    omega
  rw [hlen, ← List.cons_append, List.take_left]

theorem readValue_arr_nil (fuel : Nat) (rest : Bytes) :
    readValue (fuel + 1) (0x5B :: 0x5D :: rest) = some (arr [], rest) := by
  rw [readValue, skipWs_cons rfl]
  simp [skipWs_cons (b := 0x5D) rfl]

theorem readValue_arr {s rest : Bytes} {xs : List Json} {fuel : Nat} {b : UInt8}
    (hws : isWs b = false) (hb : b ≠ 0x5D) (h : readElements fuel (b :: s) = some (xs, rest)) :
    readValue (fuel + 1) (0x5B :: b :: s) = some (arr xs, rest) := by
  rw [readValue, skipWs_cons rfl]
  simp [skipWs_cons hws, hb, h]

theorem readValue_obj_nil (fuel : Nat) (rest : Bytes) :
    readValue (fuel + 1) (0x7B :: 0x7D :: rest) = some (obj [], rest) := by
  rw [readValue, skipWs_cons rfl]
  simp [skipWs_cons (b := 0x7D) rfl]

theorem readValue_obj {s rest : Bytes} {ms : List (Bytes × Json)} {fuel : Nat}
    (h : readMembers fuel (0x22 :: s) = some (ms, rest)) :
    readValue (fuel + 1) (0x7B :: 0x22 :: s) = some (obj ms, rest) := by
  rw [readValue, skipWs_cons rfl]
  simp [skipWs_cons (b := 0x22) rfl, h]

theorem readElements_last {s rest : Bytes} {x : Json} {fuel : Nat}
    (h : readValue fuel s = some (x, 0x5D :: rest)) :
    readElements (fuel + 1) s = some ([x], rest) := by
  rw [readElements, h]
  simp [skipWs_cons (b := 0x5D) rfl]

theorem readElements_more {s t rest : Bytes} {x : Json} {xs : List Json} {fuel : Nat}
    (h : readValue fuel s = some (x, 0x2C :: t)) (hmore : readElements fuel t = some (xs, rest)) :
    readElements (fuel + 1) s = some (x :: xs, rest) := by
  rw [readElements, h]
  simp [skipWs_cons (b := 0x2C) rfl, hmore]

theorem readMembers_last {s t k rest : Bytes} {x : Json} {fuel : Nat}
    (hk : readString none s = some (k, 0x3A :: t)) (h : readValue fuel t = some (x, 0x7D :: rest)) :
    readMembers (fuel + 1) (0x22 :: s) = some ([(k, x)], rest) := by
  rw [readMembers, skipWs_cons rfl]
  simp [hk, skipWs_cons (b := 0x3A) rfl, h, skipWs_cons (b := 0x7D) rfl]

theorem readMembers_more {s t u k rest : Bytes} {x : Json} {ms : List (Bytes × Json)} {fuel : Nat}
    (hk : readString none s = some (k, 0x3A :: t)) (h : readValue fuel t = some (x, 0x2C :: u))
    (hmore : readMembers fuel u = some (ms, rest)) :
    readMembers (fuel + 1) (0x22 :: s) = some ((k, x) :: ms, rest) := by
  rw [readMembers, skipWs_cons rfl]
  simp [hk, skipWs_cons (b := 0x3A) rfl, h, skipWs_cons (b := 0x2C) rfl, hmore]

end

/-! ## Objects as maps -/

theorem readMap_eq_none_iff {ms : List (Bytes × Json)} {k : Bytes} :
    readMap ms k = none ↔ k ∉ ms.map Prod.fst := by
  induction ms with
  | nil => simp [readMap]
  | cons m ms ih =>
      rw [readMap, List.map_cons, List.mem_cons, not_or, ← ih]
      cases h : readMap ms k with
      | some v => simp
      | none =>
          by_cases hm : m.1 = k
          · simp [hm]
          · simp [hm, Ne.symm hm]

/-- A member whose name comes again is not seen. -/
theorem readMap_cons_of_mem {m : Bytes × Json} {ms : List (Bytes × Json)}
    (h : m.1 ∈ ms.map Prod.fst) : readMap (m :: ms) = readMap ms := by
  funext k
  rw [readMap]
  cases hk : readMap ms k with
  | some v => rfl
  | none =>
      have hne : m.1 ≠ k := by
        rintro rfl
        exact readMap_eq_none_iff.mp hk h
      simp [hne]

/-- A member whose name does not come again is what the map has under its name. -/
theorem readMap_cons_self {m : Bytes × Json} {ms : List (Bytes × Json)}
    (h : m.1 ∉ ms.map Prod.fst) : readMap (m :: ms) m.1 = some m.2.read := by
  rw [readMap, readMap_eq_none_iff.mpr h]
  obtain ⟨k, j⟩ := m
  simp [readMember]

/-- Under the names of the members behind it the first member is not seen. -/
theorem readMap_cons_of_some {m : Bytes × Json} {ms : List (Bytes × Json)} {k : Bytes}
    (h : k ∈ ms.map Prod.fst) : readMap (m :: ms) k = readMap ms k := by
  rw [readMap]
  cases hk : readMap ms k with
  | some v => rfl
  | none => exact absurd h (readMap_eq_none_iff.mp hk)

end Json

end Harbor
