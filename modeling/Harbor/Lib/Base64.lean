import Harbor.Lib.Bytes

set_option autoImplicit false

/-! # Base64

The standard encoding with padding: three bytes become four characters, a last group of one or
two bytes is filled up with `'='`. `decode` undoes it, so it loses nothing (`encode_injective`); its
characters are ASCII and its length is four for every three bytes begun.
-/

namespace Harbor.Base64

/-- The character of a sextet. -/
def alphabet (n : Nat) : UInt8 :=
  if n < 26 then UInt8.ofNat (0x41 + n)
  else if n < 52 then UInt8.ofNat (0x61 + (n - 26))
  else if n < 62 then UInt8.ofNat (0x30 + (n - 52))
  else if n = 62 then 0x2B
  else 0x2F

def pad : UInt8 := 0x3D

def encode : Bytes → Bytes
  | [] => []
  | [a] => [alphabet (a.toNat / 4), alphabet (a.toNat % 4 * 16), pad, pad]
  | [a, b] =>
      [alphabet (a.toNat / 4), alphabet (a.toNat % 4 * 16 + b.toNat / 16),
        alphabet (b.toNat % 16 * 4), pad]
  | a :: b :: c :: s =>
      alphabet (a.toNat / 4) :: alphabet (a.toNat % 4 * 16 + b.toNat / 16) ::
        alphabet (b.toNat % 16 * 4 + c.toNat / 64) :: alphabet (c.toNat % 64) :: encode s

/-- Induction along the groups of three bytes. -/
@[elab_as_elim]
theorem groups_induction {P : Bytes → Prop} (nil : P []) (one : ∀ a, P [a]) (two : ∀ a b, P [a, b])
    (three : ∀ a b c s, P s → P (a :: b :: c :: s)) : ∀ s, P s
  | [] => nil
  | [a] => one a
  | [a, b] => two a b
  | a :: b :: c :: s => three a b c s (groups_induction nil one two three s)

/-- The sextet of a character. -/
def sextet (b : UInt8) : Nat :=
  if 0x41 ≤ b ∧ b ≤ 0x5A then b.toNat - 0x41
  else if 0x61 ≤ b ∧ b ≤ 0x7A then b.toNat - 0x61 + 26
  else if 0x30 ≤ b ∧ b ≤ 0x39 then b.toNat - 0x30 + 52
  else if b = 0x2B then 62
  else 63

/-- Undo `encode`, four characters at a time. -/
def decode : Bytes → Bytes
  | w :: x :: y :: z :: s =>
      let a := UInt8.ofNat (sextet w * 4 + sextet x / 16)
      let b := UInt8.ofNat (sextet x % 16 * 16 + sextet y / 4)
      let c := UInt8.ofNat (sextet y % 4 * 64 + sextet z)
      if y = pad then [a]
      else if z = pad then [a, b]
      else a :: b :: c :: decode s
  | _ => []

attribute [local simp] encode decode

theorem sextet_alphabet : ∀ n < 64, sextet (alphabet n) = n := by
  decide

theorem alphabet_ne_pad : ∀ n < 64, alphabet n ≠ pad := by
  decide

theorem alphabet_ascii : ∀ n < 64, alphabet n < 0x80 := by
  decide

theorem length_encode (s : Bytes) : (encode s).length = (s.length + 2) / 3 * 4 := by
  induction s using groups_induction with
  | nil => rfl
  | one a => simp
  | two a b => simp
  | three a b c s ih =>
      simp only [encode, List.length_cons, ih]
      omega

theorem alphabet_ne_backslash : ∀ n < 64, alphabet n ≠ 0x5C := by
  decide

/-- What holds of the characters of the alphabet and of the padding holds of the whole text. -/
theorem encode_forall {P : UInt8 → Prop} (halphabet : ∀ n < 64, P (alphabet n)) (hpad : P pad) (s : Bytes) :
    ∀ b ∈ encode s, P b := by
  induction s using groups_induction with
  | nil => simp
  | one a =>
      have ha := a.toNat_lt
      simp only [encode, List.forall_mem_cons]
      exact ⟨halphabet _ (by omega), halphabet _ (by omega), hpad, hpad, by simp⟩
  | two a b =>
      have ha := a.toNat_lt
      have hb := b.toNat_lt
      simp only [encode, List.forall_mem_cons]
      exact ⟨halphabet _ (by omega), halphabet _ (by omega), halphabet _ (by omega), hpad, by simp⟩
  | three a b c s ih =>
      have ha := a.toNat_lt
      have hb := b.toNat_lt
      have hc := c.toNat_lt
      simp only [encode, List.forall_mem_cons]
      exact ⟨halphabet _ (by omega), halphabet _ (by omega), halphabet _ (by omega),
        halphabet _ (by omega), ih⟩

theorem encode_ascii (s : Bytes) : ∀ b ∈ encode s, b < 0x80 := encode_forall alphabet_ascii (by decide) s

theorem encode_ne_backslash (s : Bytes) : ∀ b ∈ encode s, b ≠ 0x5C :=
  encode_forall alphabet_ne_backslash (by decide) s

/-- Only the empty text is its own encoding. -/
theorem encode_eq_self {s : Bytes} : encode s = s ↔ s = [] := by
  constructor
  · intro h
    have hlen := length_encode s
    rw [h] at hlen
    exact List.eq_nil_of_length_eq_zero (by omega)
  · rintro rfl
    rfl

theorem decode_encode (s : Bytes) : decode (encode s) = s := by
  induction s using groups_induction with
  | nil => rfl
  | one a =>
      have ha := a.toNat_lt
      simp only [encode, decode, if_true, sextet_alphabet (a.toNat / 4) (by omega),
        sextet_alphabet (a.toNat % 4 * 16) (by omega), List.cons.injEq, and_true]
      exact UInt8.toNat_inj.mp (by simp only [UInt8.toNat_ofNat']; omega)
  | two a b =>
      have ha := a.toNat_lt
      have hb := b.toNat_lt
      simp only [encode, decode, if_true, if_neg (alphabet_ne_pad (b.toNat % 16 * 4) (by omega)),
        sextet_alphabet (a.toNat / 4) (by omega),
        sextet_alphabet (a.toNat % 4 * 16 + b.toNat / 16) (by omega),
        sextet_alphabet (b.toNat % 16 * 4) (by omega), List.cons.injEq, and_true]
      constructor
      · exact UInt8.toNat_inj.mp (by simp only [UInt8.toNat_ofNat']; omega)
      · exact UInt8.toNat_inj.mp (by simp only [UInt8.toNat_ofNat']; omega)
  | three a b c s ih =>
      have ha := a.toNat_lt
      have hb := b.toNat_lt
      have hc := c.toNat_lt
      simp only [encode, decode, if_neg (alphabet_ne_pad (b.toNat % 16 * 4 + c.toNat / 64) (by omega)),
        if_neg (alphabet_ne_pad (c.toNat % 64) (by omega)),
        sextet_alphabet (a.toNat / 4) (by omega),
        sextet_alphabet (a.toNat % 4 * 16 + b.toNat / 16) (by omega),
        sextet_alphabet (b.toNat % 16 * 4 + c.toNat / 64) (by omega),
        sextet_alphabet (c.toNat % 64) (by omega), ih, List.cons.injEq, and_true]
      refine ⟨?_, ?_, ?_⟩
      · exact UInt8.toNat_inj.mp (by simp only [UInt8.toNat_ofNat']; omega)
      · exact UInt8.toNat_inj.mp (by simp only [UInt8.toNat_ofNat']; omega)
      · exact UInt8.toNat_inj.mp (by simp only [UInt8.toNat_ofNat']; omega)

/-- **The encoding loses nothing.** -/
theorem encode_injective {s t : Bytes} (h : encode s = encode t) : s = t := by
  rw [← decode_encode s, h, decode_encode]

end Harbor.Base64
