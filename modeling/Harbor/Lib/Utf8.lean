import Harbor.Lib.Bytes

set_option autoImplicit false

/-! # Well-formed sequences

The well-formed sequences of RFC 3629 are the encodings of the characters (`Char` has no surrogates
and ends at U+10FFFF). A sequence starts with a byte that never continues one, and its first byte
fixes its length, so two sequences of a string never overlap and every byte of a string is part of
one sequence at most. `replaceIllFormed` puts U+FFFD for each byte that is part of none. A string may
be taken apart at its ASCII bytes (`isUtf8_split`), and cut where no sequence goes on (`isUtf8_take_iff`).
-/

namespace Harbor.Bytes

/-! ## Lead bytes and continuation bytes -/

/-- A byte 10xxxxxx. -/
def IsContinuation (b : UInt8) : Prop := 0x80 ≤ b.toNat ∧ b.toNat < 0xC0

/-- The length of a sequence, by its first byte. -/
def sequenceLength (b : UInt8) : Nat :=
  if b.toNat < 0x80 then 1 else if b.toNat < 0xE0 then 2 else if b.toNat < 0xF0 then 3 else 4

/-- A sequence is a lead byte and as many continuation bytes as that one says. -/
theorem utf8EncodeChar_shape (c : Char) :
    ∃ b t, String.utf8EncodeChar c = b :: t ∧ ¬ IsContinuation b ∧ (∀ x ∈ t, IsContinuation x) ∧
      t.length + 1 = sequenceLength b := by
  have hvalid : c.val.toNat < 0xD800 ∨ (0xDFFF < c.val.toNat ∧ c.val.toNat < 0x110000) := c.valid
  rw [String.utf8EncodeChar]
  generalize c.val.toNat = v at hvalid
  -- the last six bits, and the six bits before them
  have htail : ∀ n, IsContinuation (UInt8.ofNat (n % 0x40 + 0x80)) := by
    intro n
    simp only [IsContinuation, UInt8.toNat_ofNat']
    omega
  split_ifs with h1 h2 h3
  · refine ⟨_, _, rfl, ?_, by simp, ?_⟩
    · simp only [IsContinuation, UInt8.toNat_ofNat']
      omega
    · simp only [sequenceLength, UInt8.toNat_ofNat']
      rw [if_pos (by omega)]
      rfl
  · refine ⟨_, _, rfl, ?_, ?_, ?_⟩
    · simp only [IsContinuation, UInt8.toNat_ofNat']
      omega
    · rw [List.forall_mem_singleton]
      exact htail v
    · simp only [sequenceLength, UInt8.toNat_ofNat']
      rw [if_neg (by omega), if_pos (by omega)]
      rfl
  · refine ⟨_, _, rfl, ?_, ?_, ?_⟩
    · simp only [IsContinuation, UInt8.toNat_ofNat']
      omega
    · rw [List.forall_mem_cons, List.forall_mem_singleton]
      exact ⟨htail (v / 64), htail v⟩
    · simp only [sequenceLength, UInt8.toNat_ofNat']
      rw [if_neg (by omega), if_neg (by omega), if_pos (by omega)]
      rfl
  · refine ⟨_, _, rfl, ?_, ?_, ?_⟩
    · simp only [IsContinuation, UInt8.toNat_ofNat']
      omega
    · rw [List.forall_mem_cons, List.forall_mem_cons, List.forall_mem_singleton]
      exact ⟨htail (v / 4096), htail (v / 64), htail v⟩
    · simp only [sequenceLength, UInt8.toNat_ofNat']
      rw [if_neg (by omega), if_neg (by omega), if_neg (by omega)]
      rfl

/-- Only ASCII characters are encoded with ASCII bytes. -/
theorem le_of_mem_utf8EncodeChar {c : Char} (hc : 0x7F < c.val.toNat) {b : UInt8}
    (hb : b ∈ String.utf8EncodeChar c) : 0x80 ≤ b := by
  have hvalid : c.val.toNat < 0xD800 ∨ (0xDFFF < c.val.toNat ∧ c.val.toNat < 0x110000) := c.valid
  rw [String.utf8EncodeChar, if_neg (by omega)] at hb
  rw [UInt8.le_iff_toNat_le, show (0x80 : UInt8).toNat = 0x80 from rfl]
  generalize c.val.toNat = v at hb hvalid
  split_ifs at hb with h2 h3
  all_goals
    simp only [List.mem_cons, List.not_mem_nil, or_false] at hb
    rcases hb with rfl | rfl | rfl | rfl <;> simp only [UInt8.toNat_ofNat'] <;> omega

/-- The rest behind the first character of a UTF-8 string is UTF-8. -/
theorem IsUtf8.of_append_char {c : Char} {s : Bytes} (h : IsUtf8 (String.utf8EncodeChar c ++ s)) :
    IsUtf8 s := by
  obtain ⟨cs, hcs⟩ := h
  obtain ⟨b, t, hbt, -, -, hlen⟩ := utf8EncodeChar_shape c
  cases cs with
  | nil => simp [hbt] at hcs
  | cons d cs =>
      obtain ⟨b', t', hbt', -, -, hlen'⟩ := utf8EncodeChar_shape d
      rw [List.flatMap_cons] at hcs
      -- the first bytes agree, so the two sequences have one length
      have hfirst : b = b' := by
        rw [hbt, hbt'] at hcs
        exact (List.cons.inj hcs).1
      have hlength : (String.utf8EncodeChar c).length = (String.utf8EncodeChar d).length := by
        rw [hbt, hbt', List.length_cons, List.length_cons, hlen, hlen', hfirst]
      exact ⟨cs, (List.append_inj hcs hlength).2⟩

/-- The character of a code point. -/
theorem toNat_charOfNat {v : Nat} (h : v < 0xD800 ∨ (0xDFFF < v ∧ v < 0x110000)) :
    (Char.ofNat v).val.toNat = v := by
  rw [Char.ofNat, dif_pos h]
  rfl

theorem ofNat_eq {b : UInt8} {n : Nat} (h : n = b.toNat) : UInt8.ofNat n = b := by
  rw [h, UInt8.ofNat_toNat]

theorem exists_two {b x : UInt8} (hb : 0xC2 ≤ b.toNat ∧ b.toNat < 0xE0) (hx : IsContinuation x) :
    ∃ c, String.utf8EncodeChar c = [b, x] := by
  obtain ⟨hx0, hx1⟩ := hx
  refine ⟨Char.ofNat ((b.toNat - 0xC0) * 64 + (x.toNat - 0x80)), ?_⟩
  rw [String.utf8EncodeChar, toNat_charOfNat (by omega), if_neg (by omega), if_pos (by omega)]
  simp only [List.cons.injEq, and_true]
  refine ⟨ofNat_eq ?_, ofNat_eq ?_⟩
  · omega
  · omega

/-- No overlong form below U+0800, no surrogate. -/
theorem exists_three {b x y : UInt8} (hb : 0xE0 ≤ b.toNat ∧ b.toNat < 0xF0)
    (hx : IsContinuation x) (hy : IsContinuation y) (hlow : b.toNat = 0xE0 → 0xA0 ≤ x.toNat)
    (hsurrogate : b.toNat = 0xED → x.toNat < 0xA0) : ∃ c, String.utf8EncodeChar c = [b, x, y] := by
  obtain ⟨hx0, hx1⟩ := hx
  obtain ⟨hy0, hy1⟩ := hy
  refine ⟨Char.ofNat ((b.toNat - 0xE0) * 4096 + (x.toNat - 0x80) * 64 + (y.toNat - 0x80)), ?_⟩
  rw [String.utf8EncodeChar, toNat_charOfNat (by omega), if_neg (by omega), if_neg (by omega),
    if_pos (by omega)]
  simp only [List.cons.injEq, and_true]
  refine ⟨ofNat_eq ?_, ofNat_eq ?_, ofNat_eq ?_⟩
  · omega
  · omega
  · omega

/-- No overlong form below U+10000, nothing above U+10FFFF. -/
theorem exists_four {b x y z : UInt8} (hb : 0xF0 ≤ b.toNat ∧ b.toNat < 0xF5)
    (hx : IsContinuation x) (hy : IsContinuation y) (hz : IsContinuation z)
    (hlow : b.toNat = 0xF0 → 0x90 ≤ x.toNat) (hhigh : b.toNat = 0xF4 → x.toNat < 0x90) :
    ∃ c, String.utf8EncodeChar c = [b, x, y, z] := by
  obtain ⟨hx0, hx1⟩ := hx
  obtain ⟨hy0, hy1⟩ := hy
  obtain ⟨hz0, hz1⟩ := hz
  refine ⟨Char.ofNat ((b.toNat - 0xF0) * 262144 + (x.toNat - 0x80) * 4096 +
    (y.toNat - 0x80) * 64 + (z.toNat - 0x80)), ?_⟩
  rw [String.utf8EncodeChar, toNat_charOfNat (by omega), if_neg (by omega), if_neg (by omega),
    if_neg (by omega)]
  simp only [List.cons.injEq, and_true]
  refine ⟨ofNat_eq ?_, ofNat_eq ?_, ofNat_eq ?_, ofNat_eq ?_⟩
  · omega
  · omega
  · omega
  · omega

/-! ## The sequences of a string -/

/-- A well-formed sequence starts at position `i`: the encoding of `c`. -/
def EncodedAt (s : Bytes) (i : Nat) (c : Char) : Prop := String.utf8EncodeChar c <+: s.drop i

/-- The byte at position `k` is part of a well-formed sequence. -/
def WellFormedAt (s : Bytes) (k : Nat) : Prop :=
  ∃ i c, EncodedAt s i c ∧ i ≤ k ∧ k < i + (String.utf8EncodeChar c).length

open Classical in
/-- The string with one U+FFFD for each byte that is part of no well-formed sequence. -/
noncomputable def replaceIllFormed (s : Bytes) : Bytes :=
  s.zipIdx.flatMap fun b => if WellFormedAt s b.2 then [b.1] else [0xEF, 0xBF, 0xBD]

theorem EncodedAt.getElem? {s : Bytes} {i k : Nat} {c : Char} (h : EncodedAt s i c)
    (hk : k < (String.utf8EncodeChar c).length) : s[i + k]? = (String.utf8EncodeChar c)[k]? := by
  obtain ⟨t, ht⟩ := h
  rw [← List.getElem?_drop, ← ht, List.getElem?_append_left hk]

/-- Two sequences that start at one position have one length. -/
theorem EncodedAt.length_eq {s : Bytes} {i : Nat} {c d : Char} (hc : EncodedAt s i c)
    (hd : EncodedAt s i d) : (String.utf8EncodeChar c).length = (String.utf8EncodeChar d).length := by
  obtain ⟨b, t, hbt, -, -, hlen⟩ := utf8EncodeChar_shape c
  obtain ⟨b', t', hbt', -, -, hlen'⟩ := utf8EncodeChar_shape d
  have hfirst : s[i + 0]? = some b := by
    rw [hc.getElem? (by simp [hbt]), hbt]
    rfl
  have hfirst' : s[i + 0]? = some b' := by
    rw [hd.getElem? (by simp [hbt']), hbt']
    rfl
  have hbb : b = b' := Option.some.inj (hfirst.symm.trans hfirst')
  rw [hbt, hbt', List.length_cons, List.length_cons, hlen, hlen', hbb]

/-- A sequence does not start inside another one. -/
theorem EncodedAt.disjoint {s : Bytes} {i j : Nat} {c d : Char} (hc : EncodedAt s i c)
    (hd : EncodedAt s j d) (hij : i < j) : i + (String.utf8EncodeChar c).length ≤ j := by
  obtain ⟨b, t, hbt, -, htail, -⟩ := utf8EncodeChar_shape c
  obtain ⟨b', t', hbt', hlead, -, -⟩ := utf8EncodeChar_shape d
  by_contra hinside
  -- the lead byte of the second one would continue the first one
  obtain ⟨k, rfl⟩ : ∃ k, j = i + (k + 1) := ⟨j - i - 1, by omega⟩
  have hk : k < t.length := by
    rw [hbt, List.length_cons] at hinside
    omega
  have hfirst : s[i + (k + 1) + 0]? = some b' := by
    rw [hd.getElem? (by simp [hbt']), hbt']
    rfl
  have hinner : s[i + (k + 1)]? = t[k]? := by
    rw [hc.getElem? (by simp [hbt, hk]), hbt]
    rfl
  rw [Nat.add_zero, hinner] at hfirst
  exact hlead (htail b' (List.mem_of_getElem? hfirst))

/-- No sequence goes across position `k`. -/
def Synced (s : Bytes) (k : Nat) : Prop :=
  ∀ i c, EncodedAt s i c → i < k → i + (String.utf8EncodeChar c).length ≤ k

theorem synced_zero (s : Bytes) : Synced s 0 := fun _ _ _ h => absurd h (Nat.not_lt_zero _)

/-- Behind a sequence. -/
theorem Synced.sequence {s : Bytes} {k : Nat} {c : Char} (hs : Synced s k) (hc : EncodedAt s k c) :
    Synced s (k + (String.utf8EncodeChar c).length) := by
  intro i d hd hi
  rcases Nat.lt_trichotomy i k with hik | rfl | hki
  · have hbefore := hs i d hd hik
    omega
  · rw [hc.length_eq hd]
  · have hinside := hc.disjoint hd hki
    omega

/-- Behind a byte where no sequence starts. -/
theorem Synced.single {s : Bytes} {k : Nat} (hs : Synced s k) (hno : ∀ c, ¬ EncodedAt s k c) :
    Synced s (k + 1) := by
  intro i d hd hi
  by_cases hik : i < k
  · have hbefore := hs i d hd hik
    omega
  · obtain rfl : i = k := by omega
    exact absurd hd (hno d)

/-- Such a byte is part of no sequence. -/
theorem Synced.not_wellFormedAt {s : Bytes} {k : Nat} (hs : Synced s k)
    (hno : ∀ c, ¬ EncodedAt s k c) : ¬ WellFormedAt s k := by
  rintro ⟨i, c, hc, hik, hki⟩
  rcases Nat.lt_or_eq_of_le hik with hlt | rfl
  · have hbefore := hs i c hc hlt
    omega
  · exact hno c hc

/-- **A scan from left to right replaces the right bytes**: it copies a sequence where one starts and
puts U+FFFD for the byte where none does. -/
theorem eq_replaceIllFormed {f : Bytes → Bytes} (hnil : f [] = [])
    (hchar : ∀ c s, f (String.utf8EncodeChar c ++ s) = String.utf8EncodeChar c ++ f s)
    (hbad : ∀ b s, (∀ c, ¬ String.utf8EncodeChar c <+: b :: s) →
      f (b :: s) = [0xEF, 0xBF, 0xBD] ++ f s) (s : Bytes) :
    f s = replaceIllFormed s := by
  classical
  -- the scan has reached the end of `pre`
  have hscan : ∀ n pre rest, rest.length = n → s = pre ++ rest → Synced s pre.length →
      f rest = (rest.zipIdx pre.length).flatMap fun b =>
        if WellFormedAt s b.2 then [b.1] else [0xEF, 0xBF, 0xBD] := by
    intro n
    induction n using Nat.strong_induction_on with
    | _ n ih =>
        intro pre rest hn hsplit hsync
        have hdrop : s.drop pre.length = rest := by rw [hsplit, List.drop_left]
        by_cases hstart : ∃ c, EncodedAt s pre.length c
        · obtain ⟨c, hc⟩ := hstart
          obtain ⟨tail, htail⟩ : String.utf8EncodeChar c <+: rest := hdrop ▸ hc
          have hpos : 0 < (String.utf8EncodeChar c).length := by
            obtain ⟨b, t, hbt, -⟩ := utf8EncodeChar_shape c
            simp [hbt]
          have hmore := ih tail.length (by rw [← hn, ← htail, List.length_append]; omega)
            (pre ++ String.utf8EncodeChar c) tail rfl (by rw [List.append_assoc, htail, hsplit])
            (by rw [List.length_append]; exact hsync.sequence hc)
          rw [List.length_append] at hmore
          rw [← htail, hchar, hmore, List.zipIdx_append, List.flatMap_append]
          congr 1
          have hcopied : ∀ b ∈ (String.utf8EncodeChar c).zipIdx pre.length,
              (if WellFormedAt s b.2 then [b.1] else [0xEF, 0xBF, 0xBD]) = [b.1] := by
            intro b hb
            have hlow := List.le_snd_of_mem_zipIdx hb
            have hhigh := List.snd_lt_add_of_mem_zipIdx hb
            rw [if_pos ⟨pre.length, c, hc, hlow, by omega⟩]
          rw [List.flatMap_congr hcopied, ← List.map_eq_flatMap, List.zipIdx_map_fst]
        · have hno : ∀ c, ¬ EncodedAt s pre.length c := fun c hc => hstart ⟨c, hc⟩
          cases rest with
          | nil => simpa using hnil
          | cons b rest =>
              have hnone : ∀ c, ¬ String.utf8EncodeChar c <+: b :: rest := by
                intro c hc
                exact hno c (show _ <+: _ by rw [hdrop]; exact hc)
              have hmore := ih rest.length (by rw [← hn, List.length_cons]; omega) (pre ++ [b]) rest
                rfl (by simpa using hsplit)
                (by simpa using hsync.single hno)
              rw [List.length_append, List.length_singleton] at hmore
              rw [hbad b rest hnone, hmore, List.zipIdx_cons, List.flatMap_cons,
                if_neg (hsync.not_wellFormedAt hno)]
  have hall := hscan s.length [] s rfl rfl (synced_zero s)
  exact hall

/-! ## Strings in parts -/

theorem IsUtf8.append {s t : Bytes} (hs : IsUtf8 s) (ht : IsUtf8 t) : IsUtf8 (s ++ t) := by
  obtain ⟨cs, rfl⟩ := hs
  obtain ⟨ds, rfl⟩ := ht
  exact ⟨cs ++ ds, by rw [List.flatMap_append]⟩

theorem isUtf8_encode (c : Char) : IsUtf8 (String.utf8EncodeChar c) := ⟨[c], by simp⟩

theorem isUtf8_char_append {c : Char} {s : Bytes} :
    IsUtf8 (String.utf8EncodeChar c ++ s) ↔ IsUtf8 s :=
  ⟨IsUtf8.of_append_char, (isUtf8_encode c).append⟩

theorem not_isContinuation_of_ascii {b : UInt8} (h : b < 0x80) : ¬ IsContinuation b := by
  have hb : b.toNat < 128 := by simpa using UInt8.lt_iff_toNat_lt.mp h
  rintro ⟨hlow, -⟩
  omega

/-- An ASCII byte parts a string: no sequence goes across it. -/
theorem isUtf8_split {s t : Bytes} {b : UInt8} (hb : b < 0x80) :
    IsUtf8 (s ++ b :: t) ↔ IsUtf8 s ∧ IsUtf8 t := by
  constructor
  · have hparts : ∀ {w : Bytes}, IsUtf8 w → ∀ s t, w = s ++ b :: t → IsUtf8 s ∧ IsUtf8 t := by
      refine IsUtf8.rec_chars (P := fun w => ∀ s t, w = s ++ b :: t → IsUtf8 s ∧ IsUtf8 t) ?_ ?_
      · intro s t h
        exact absurd h.symm (by simp)
      · intro c w hw ih s t h
        obtain ⟨x, u, hxu, -, hcontinue, hlen⟩ := utf8EncodeChar_shape c
        rcases List.append_eq_append_iff.mp h with ⟨v, hs, ht⟩ | ⟨v, hc, ht⟩
        · -- the byte stands behind the first sequence
          obtain ⟨hv, htail⟩ := ih v t ht
          exact ⟨hs ▸ (isUtf8_encode c).append hv, htail⟩
        · -- it is part of the first sequence, and then all of it
          cases v with
          | nil =>
              rw [List.append_nil] at hc
              obtain ⟨-, htail⟩ := ih [] t ht.symm
              exact ⟨hc ▸ isUtf8_encode c, htail⟩
          | cons y v =>
              obtain ⟨rfl, rfl⟩ := List.cons.inj ht
              cases s with
              | cons z s =>
                  rw [hxu] at hc
                  have hmem : b ∈ u := by
                    rw [(List.cons.inj hc).2]
                    simp
                  exact absurd (hcontinue b hmem) (not_isContinuation_of_ascii hb)
              | nil =>
                  rw [List.nil_append, hxu] at hc
                  obtain ⟨rfl, rfl⟩ := List.cons.inj hc
                  have hnil : u = [] := by
                    have hb' : x.toNat < 128 := by simpa using UInt8.lt_iff_toNat_lt.mp hb
                    rw [sequenceLength, if_pos hb'] at hlen
                    exact List.length_eq_zero_iff.mp (by omega)
                  subst hnil
                  exact ⟨⟨[], rfl⟩, hw⟩
    exact fun h => hparts h s t rfl
  · rintro ⟨hs, ht⟩
    have hbyte : IsUtf8 [b] := isUtf8_of_ascii (by simpa using hb)
    exact hs.append (hbyte.append ht)

theorem isUtf8_ascii_append {a s : Bytes} (ha : ∀ b ∈ a, b < 0x80) : IsUtf8 (a ++ s) ↔ IsUtf8 s := by
  induction a with
  | nil => rfl
  | cons b a ih =>
      obtain ⟨hb, ha⟩ := List.forall_mem_cons.mp ha
      have hsplit := isUtf8_split (s := []) (t := a ++ s) hb
      rw [List.cons_append, ← List.nil_append (b :: (a ++ s)), hsplit, ih ha]
      exact and_iff_right ⟨[], rfl⟩

/-- ASCII text between two strings parts them. -/
theorem isUtf8_append_ascii_append {s a t : Bytes} (ha : ∀ b ∈ a, b < 0x80) (hne : a ≠ []) :
    IsUtf8 (s ++ (a ++ t)) ↔ IsUtf8 s ∧ IsUtf8 t := by
  obtain ⟨b, a, rfl⟩ := List.exists_cons_of_ne_nil hne
  obtain ⟨hb, ha⟩ := List.forall_mem_cons.mp ha
  rw [List.cons_append, isUtf8_split hb, isUtf8_ascii_append ha]

/-- **A translation of the bytes that keeps the others and puts ASCII text for ASCII neither makes a string
UTF-8 nor spoils it.** -/
theorem isUtf8_flatMap_iff {f : UInt8 → Bytes} (hhigh : ∀ b, 0x80 ≤ b → f b = [b])
    (hascii : ∀ b < 0x80, f b ≠ [] ∧ ∀ x ∈ f b, x < 0x80) (s : Bytes) :
    IsUtf8 (s.flatMap f) ↔ IsUtf8 s := by
  induction hn : s.length using Nat.strong_induction_on generalizing s with
  | _ n ih =>
      -- up to the first ASCII byte nothing changes
      have hsplit : s = s.takeWhile (0x80 ≤ ·) ++ s.dropWhile (0x80 ≤ ·) :=
        List.takeWhile_append_dropWhile.symm
      have hkept : (s.takeWhile (0x80 ≤ ·)).flatMap f = s.takeWhile (0x80 ≤ ·) := by
        have hone : ∀ b ∈ s.takeWhile (0x80 ≤ ·), f b = [b] := fun b hb =>
          hhigh b (by simpa using List.mem_takeWhile_imp hb)
        rw [List.flatMap_congr hone, ← List.map_eq_flatMap, List.map_id']
      generalize s.takeWhile (0x80 ≤ ·) = h at hsplit hkept
      cases hrest : s.dropWhile (0x80 ≤ ·) with
      | nil =>
          rw [hrest, List.append_nil] at hsplit
          rw [hsplit, hkept]
      | cons b t =>
          have hb : b < 0x80 := by
            have hhead := List.head?_dropWhile_not (0x80 ≤ ·) s
            rw [hrest] at hhead
            simpa using hhead
          obtain ⟨hne, hall⟩ := hascii b hb
          obtain ⟨a, m, ham⟩ := List.exists_cons_of_ne_nil hne
          rw [ham, List.forall_mem_cons] at hall
          rw [hrest] at hsplit
          have hless : t.length < n := by
            rw [← hn, hsplit, List.length_append, List.length_cons]
            omega
          rw [hsplit, List.flatMap_append, hkept, List.flatMap_cons, ham, List.cons_append,
            isUtf8_split hall.1, isUtf8_split hb, isUtf8_ascii_append hall.2, ih t.length hless t rfl]

/-- **A UTF-8 string may be cut exactly where the next byte does not go on with a sequence.** -/
theorem isUtf8_take_iff {s : Bytes} (h : IsUtf8 s) :
    ∀ n, IsUtf8 (s.take n) ↔ ∀ b, s[n]? = some b → ¬ IsContinuation b := by
  refine IsUtf8.rec_chars
    (P := fun s => ∀ n, IsUtf8 (s.take n) ↔ ∀ b, s[n]? = some b → ¬ IsContinuation b) ?_ ?_ h
  · intro n
    simp only [List.take_nil, List.getElem?_nil, reduceCtorEq, false_implies, implies_true, iff_true]
    exact ⟨[], rfl⟩
  · intro c s hs ih n
    obtain ⟨x, u, hxu, hlead, hcontinue, hlen⟩ := utf8EncodeChar_shape c
    by_cases hn : (String.utf8EncodeChar c).length ≤ n
    · -- behind the first sequence
      rw [List.take_append, List.take_of_length_le hn, isUtf8_char_append, ih, List.getElem?_append_right hn]
    · cases n with
      | zero =>
          rw [List.take_zero, hxu]
          exact iff_of_true ⟨[], rfl⟩ (by simpa using hlead)
      | succ n =>
          rw [List.take_append_of_le_length (by omega), List.getElem?_append_left (by omega)]
          rw [hxu, List.length_cons] at hn
          refine iff_of_false ?_ ?_
          · -- a beginning of a sequence is not one: its first byte says how long it is
            rintro ⟨ds, hds⟩
            cases ds with
            | nil => simp [hxu] at hds
            | cons d ds =>
                obtain ⟨y, v, hyv, -, -, hlen'⟩ := utf8EncodeChar_shape d
                rw [hxu, List.take_succ_cons, List.flatMap_cons, hyv, List.cons_append] at hds
                obtain ⟨rfl, -⟩ := List.cons.inj hds
                have hlong := congrArg List.length (List.cons.inj hds).2
                rw [List.length_take, List.length_append] at hlong
                omega
          · rw [hxu, List.getElem?_cons_succ, List.getElem?_eq_getElem (by omega)]
            intro hnot
            exact hnot _ rfl (hcontinue _ (List.getElem_mem _))

end Harbor.Bytes
