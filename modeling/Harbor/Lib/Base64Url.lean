import Harbor.Lib.Bytes

set_option autoImplicit false

/-! # Base64url

The URL-safe alphabet of base64, without padding. The decoder works on a bit buffer and is lenient:
it drops trailing `'='` and does not look at the bits left over at the end, so several texts decode
to the same bytes. `decode_encode` is the direction that holds.
-/

namespace Harbor.Base64Url

/-! ## Encoding -/

/-- The character of a sextet. -/
def alphabet (n : Nat) : UInt8 :=
  if n < 26 then UInt8.ofNat (0x41 + n)
  else if n < 52 then UInt8.ofNat (0x61 + (n - 26))
  else if n < 62 then UInt8.ofNat (0x30 + (n - 52))
  else if n = 62 then 0x2D
  else 0x5F

def encode : Bytes → Bytes
  | [] => []
  | [a] => [alphabet (a.toNat / 4), alphabet (a.toNat % 4 * 16)]
  | [a, b] =>
      [alphabet (a.toNat / 4), alphabet (a.toNat % 4 * 16 + b.toNat / 16),
        alphabet (b.toNat % 16 * 4)]
  | a :: b :: c :: s =>
      alphabet (a.toNat / 4) :: alphabet (a.toNat % 4 * 16 + b.toNat / 16) ::
        alphabet (b.toNat % 16 * 4 + c.toNat / 64) :: alphabet (c.toNat % 64) :: encode s

/-! ## Decoding -/

/-- The sextet of a character; `none` for a byte outside the alphabet. -/
def sextet? (b : UInt8) : Option Nat :=
  if 0x41 ≤ b ∧ b ≤ 0x5A then some (b.toNat - 0x41)
  else if 0x61 ≤ b ∧ b ≤ 0x7A then some (b.toNat - 0x61 + 26)
  else if 0x30 ≤ b ∧ b ≤ 0x39 then some (b.toNat - 0x30 + 52)
  else if b = 0x2D then some 62
  else if b = 0x5F then some 63
  else none

/-- The loop over the characters: `buffer` is a `uint32_t`, of which the low `bits` bits have not
been put out yet. -/
def decodeLoop (buffer bits : Nat) : Bytes → Option Bytes
  | [] => some []
  | c :: s =>
      match sextet? c with
      | none => none
      | some v =>
          let buffer := (buffer * 64 + v) % 2 ^ 32
          if 8 ≤ bits + 6 then
            (decodeLoop buffer (bits - 2) s).map (UInt8.ofNat (buffer / 2 ^ (bits - 2)) :: ·)
          else decodeLoop buffer (bits + 6) s

/-- Without the `'='` at the end. -/
def stripPadding (s : Bytes) : Bytes := (s.reverse.dropWhile (· == 0x3D)).reverse

/-- `none` where the source throws. -/
def decode (s : Bytes) : Option Bytes := decodeLoop 0 0 (stripPadding s)

/-! ## The round trip -/

attribute [local simp] encode decodeLoop

theorem sextet?_alphabet : ∀ n < 64, sextet? (alphabet n) = some n := by
  decide

theorem alphabet_ne_pad : ∀ n < 64, alphabet n ≠ 0x3D := by
  decide

theorem alphabet_ne_dot : ∀ n < 64, alphabet n ≠ 0x2E := by
  decide

/-- Every character of an encoding is the character of a sextet. -/
theorem mem_encode {s : Bytes} : ∀ b ∈ encode s, ∃ n < 64, b = alphabet n := by
  induction s using encode.induct with
  | case1 => simp [encode]
  | case2 a =>
      have ha := a.toNat_lt
      simp only [encode, List.forall_mem_cons]
      exact ⟨⟨_, by omega, rfl⟩, ⟨_, by omega, rfl⟩, by simp⟩
  | case3 a b =>
      have ha := a.toNat_lt
      have hb := b.toNat_lt
      simp only [encode, List.forall_mem_cons]
      exact ⟨⟨_, by omega, rfl⟩, ⟨_, by omega, rfl⟩, ⟨_, by omega, rfl⟩, by simp⟩
  | case4 a b c s ih =>
      have ha := a.toNat_lt
      have hb := b.toNat_lt
      have hc := c.toNat_lt
      simp only [encode, List.forall_mem_cons]
      exact ⟨⟨_, by omega, rfl⟩, ⟨_, by omega, rfl⟩, ⟨_, by omega, rfl⟩, ⟨_, by omega, rfl⟩, ih⟩

theorem dot_notMem_encode (s : Bytes) : 0x2E ∉ encode s := by
  intro h
  obtain ⟨n, hn, heq⟩ := mem_encode _ h
  exact alphabet_ne_dot n hn heq.symm

theorem stripPadding_of_notMem {s : Bytes} (h : 0x3D ∉ s) : stripPadding s = s := by
  unfold stripPadding
  have hdrop : s.reverse.dropWhile (· == 0x3D) = s.reverse := by
    cases hrev : s.reverse with
    | nil => rfl
    | cons b t =>
        have hmem : b ∈ s := List.mem_reverse.mp (by rw [hrev]; exact List.mem_cons_self)
        have hb : (b == 0x3D) = false := by
          rw [beq_eq_false_iff_ne]
          rintro rfl
          exact h hmem
        rw [List.dropWhile_cons, hb, if_neg (by decide)]
  rw [hdrop, List.reverse_reverse]

/-- One character, when the buffer holds no full byte after it. -/
theorem decodeLoop_first {v : Nat} (hv : v < 64) (buffer : Nat) (s : Bytes) :
    decodeLoop buffer 0 (alphabet v :: s) = decodeLoop ((buffer * 64 + v) % 2 ^ 32) 6 s := by
  simp [decodeLoop, sextet?_alphabet v hv]

/-- One character that completes a byte. -/
theorem decodeLoop_byte {v bits : Nat} (hv : v < 64) (hbits : 2 ≤ bits) (buffer : Nat) (s : Bytes) :
    decodeLoop buffer bits (alphabet v :: s) =
      (decodeLoop ((buffer * 64 + v) % 2 ^ 32) (bits - 2) s).map
        (UInt8.ofNat ((buffer * 64 + v) % 2 ^ 32 / 2 ^ (bits - 2)) :: ·) := by
  have hfull : 8 ≤ bits + 6 := by omega
  simp [decodeLoop, sextet?_alphabet v hv, hfull]

theorem byte_eq {m : Nat} {b : UInt8} (h : m % 256 = b.toNat) : UInt8.ofNat m = b :=
  UInt8.toNat_inj.mp (by rw [UInt8.toNat_ofNat']; omega)

/-- What is in the buffer before the first character of a group does not matter. -/
theorem decodeLoop_encode (s : Bytes) : ∀ buffer, decodeLoop buffer 0 (encode s) = some s := by
  induction s using encode.induct with
  | case1 => intro buffer; rfl
  | case2 a =>
      intro buffer
      have ha := a.toNat_lt
      rw [encode, decodeLoop_first (by omega), decodeLoop_byte (by omega) (by omega)]
      simp only [decodeLoop, Option.map_some, Option.some.injEq, List.cons.injEq, and_true]
      exact byte_eq (by omega)
  | case3 a b =>
      intro buffer
      have ha := a.toNat_lt
      have hb := b.toNat_lt
      rw [encode, decodeLoop_first (by omega), decodeLoop_byte (by omega) (by omega),
        decodeLoop_byte (by omega) (by omega)]
      simp only [decodeLoop, Option.map_some, Option.some.injEq, List.cons.injEq, and_true]
      exact ⟨byte_eq (by omega), byte_eq (by omega)⟩
  | case4 a b c s ih =>
      intro buffer
      have ha := a.toNat_lt
      have hb := b.toNat_lt
      have hc := c.toNat_lt
      rw [encode, decodeLoop_first (by omega), decodeLoop_byte (by omega) (by omega),
        decodeLoop_byte (by omega) (by omega), decodeLoop_byte (by omega) (by omega), ih]
      simp only [Option.map_some, Option.some.injEq, List.cons.injEq, and_true]
      exact ⟨byte_eq (by omega), byte_eq (by omega), byte_eq (by omega)⟩

/-- **Decoding undoes encoding.** -/
theorem decode_encode (s : Bytes) : decode (encode s) = some s := by
  have hpad : 0x3D ∉ encode s := by
    intro h
    obtain ⟨n, hn, heq⟩ := mem_encode _ h
    exact alphabet_ne_pad n hn heq.symm
  rw [decode, stripPadding_of_notMem hpad, decodeLoop_encode]

end Harbor.Base64Url
