import Harbor.Lib.Bytes

set_option autoImplicit false

/-! # Searching a text

What `find` returns, and the pieces it cuts a text into: the place of a byte behind a part without it,
and the place of a pattern that a longer text keeps.
-/

namespace Harbor.Bytes

variable {s t u p : Bytes} {b : UInt8} {start i : Nat}

/-! ## Patterns -/

theorem startsWith_iff : startsWith s p = true ↔ p <+: s := by
  rw [startsWith, List.isPrefixOf_iff_prefix]

theorem findFrom_eq_some : findFrom s p start = some i ↔
    start ≤ i ∧ i ≤ s.length ∧ p <+: s.drop i ∧ ∀ j, start ≤ j → j < i → ¬ p <+: s.drop j := by
  simp only [findFrom, List.find?_range_eq_some, Bool.and_eq_true, decide_eq_true_iff, startsWith_iff,
    List.mem_range, Nat.lt_succ_iff, Bool.not_eq_true', ← Bool.not_eq_true, not_and]
  exact ⟨fun ⟨⟨hstart, hp⟩, hi, hbefore⟩ => ⟨hstart, hi, hp, fun j hj hji => hbefore j hji hj⟩,
    fun ⟨hstart, hi, hp, hbefore⟩ => ⟨⟨hstart, hp⟩, hi, fun j hji hj => hbefore j hj hji⟩⟩

theorem findFrom_eq_none : findFrom s p start = none ↔
    ∀ i, start ≤ i → i ≤ s.length → ¬ p <+: s.drop i := by
  simp only [findFrom, List.find?_eq_none, List.mem_range, Nat.lt_succ_iff, Bool.and_eq_true,
    decide_eq_true_iff, startsWith_iff, not_and]
  exact ⟨fun h i hs hi => h i hi hs, fun h i hi hs => h i hs hi⟩

/-- A pattern that is found is found at the same place when the text goes on. -/
theorem findFrom_append (h : findFrom s p start = some i) (t : Bytes) :
    findFrom (s ++ t) p start = some i := by
  obtain ⟨hstart, hi, hp, hbefore⟩ := findFrom_eq_some.mp h
  have hlen := hp.length_le
  rw [List.length_drop] at hlen
  refine findFrom_eq_some.mpr ⟨hstart, by rw [List.length_append]; omega, ?_, fun j hj hji hfound => ?_⟩
  · rw [List.drop_append_of_le_length hi]
    exact hp.trans (List.prefix_append _ _)
  · rw [List.drop_append_of_le_length (by omega)] at hfound
    refine hbefore j hj hji (List.prefix_of_prefix_length_le hfound (List.prefix_append _ _) ?_)
    rw [List.length_drop]
    omega

/-! ## White space -/

theorem dropWhile_isSpace_of_head (h : ∀ b ∈ s.head?, isSpace b = false) : s.dropWhile isSpace = s := by
  cases s with
  | nil => rfl
  | cons b s => rw [List.dropWhile_cons_of_neg (by simp [h b rfl])]

/-- A text without white space at its ends. -/
theorem trim_of_ends (hhead : ∀ b ∈ s.head?, isSpace b = false)
    (hlast : ∀ b ∈ s.getLast?, isSpace b = false) : trim s = s := by
  rw [trim, dropWhile_isSpace_of_head hhead, dropWhile_isSpace_of_head, List.reverse_reverse]
  rwa [List.head?_reverse]

/-! ## Single bytes -/

/-- A text with the byte is what stands in front of it, the byte, and the rest. -/
theorem eq_takeWhile_of_mem (h : b ∈ s) :
    s = s.takeWhile (· ≠ b) ++ b :: (s.dropWhile (· ≠ b)).tail := by
  induction s with
  | nil => cases h
  | cons c s ih =>
      by_cases hc : c = b
      · subst hc
        simp
      · have hrest : b ∈ s := by
          rcases List.mem_cons.mp h with heq | hmem
          · exact absurd heq.symm hc
          · exact hmem
        have htrue : decide (c ≠ b) = true := decide_eq_true hc
        rw [List.takeWhile_cons, List.dropWhile_cons, if_pos htrue, if_pos htrue, List.cons_append,
          ← ih hrest]

theorem notMem_takeWhile (b : UInt8) (s : Bytes) : b ∉ s.takeWhile (· ≠ b) := by
  intro h
  simpa using List.mem_takeWhile_imp h

theorem takeWhile_of_notMem (h : b ∉ s) : s.takeWhile (· ≠ b) = s := by
  rw [List.takeWhile_eq_self_iff]
  intro c hc
  exact decide_eq_true fun heq => h (heq ▸ hc)

theorem takeWhile_append (h : b ∉ s) (t : Bytes) : (s ++ b :: t).takeWhile (· ≠ b) = s := by
  have hs : ∀ c ∈ s, decide (c ≠ b) = true := fun c hc => decide_eq_true fun heq => h (heq ▸ hc)
  rw [List.takeWhile_append_of_pos hs, List.takeWhile_cons_of_neg (by simp), List.append_nil]

/-- A text with the byte once is cut at it in one way only. -/
theorem append_cons_inj {s' t' : Bytes} (hs : b ∉ s) (ht : b ∉ t) (h : s' ++ b :: t' = s ++ b :: t) :
    s' = s ∧ t' = t := by
  have hcount := congrArg (List.count b) h
  simp only [List.count_append, List.count_cons_self, List.count_eq_zero_of_not_mem hs,
    List.count_eq_zero_of_not_mem ht] at hcount
  have hs' : b ∉ s' := List.count_eq_zero.mp (by omega)
  have htake := congrArg (List.takeWhile (· ≠ b)) h
  rw [takeWhile_append hs', takeWhile_append hs] at htake
  subst htake
  exact ⟨rfl, (List.cons.inj (List.append_cancel_left h)).2⟩

theorem idxOf?_append (h : b ∉ s) (t : Bytes) : (s ++ b :: t).idxOf? b = some s.length := by
  induction s with
  | nil => simp [List.idxOf?_cons]
  | cons a s ih =>
      rw [List.mem_cons, not_or] at h
      have hab : (a == b) = false := beq_eq_false_iff_ne.mpr (Ne.symm h.1)
      rw [List.cons_append, List.idxOf?_cons, hab, if_neg (by decide), ih h.2]
      rfl

/-- The byte is found behind the part without it. -/
theorem findFrom_byte (h : b ∉ t) (s u : Bytes) :
    findFrom (s ++ (t ++ b :: u)) [b] s.length = some (s.length + t.length) := by
  refine findFrom_eq_some.mpr ⟨Nat.le_add_right _ _, ?_, ?_, fun j hj hji hfound => ?_⟩
  · simp only [List.length_append, List.length_cons]
    omega
  · rw [List.drop_append, List.drop_of_length_le (Nat.le_add_right _ _), Nat.add_sub_cancel_left,
      List.drop_left, List.nil_append]
    exact List.prefix_append [b] u
  · obtain ⟨k, rfl⟩ := Nat.exists_eq_add_of_le hj
    have hk : k < t.length := by omega
    rw [List.drop_append, List.drop_of_length_le (Nat.le_add_right _ _), Nat.add_sub_cancel_left,
      List.nil_append, List.drop_append_of_le_length (by omega), List.drop_eq_getElem_cons hk,
      List.cons_append, List.cons_prefix_cons] at hfound
    exact h (hfound.1 ▸ List.getElem_mem hk)

theorem findFrom_byte_none (h : b ∉ t) (s : Bytes) : findFrom (s ++ t) [b] s.length = none := by
  refine findFrom_eq_none.mpr fun i hi _ hfound => h ?_
  obtain ⟨k, rfl⟩ := Nat.exists_eq_add_of_le hi
  rw [List.drop_append, List.drop_of_length_le (Nat.le_add_right _ _), Nat.add_sub_cancel_left,
    List.nil_append] at hfound
  exact List.mem_of_mem_drop (hfound.subset (List.mem_singleton.mpr rfl))

/-- Cutting a text in front of the next byte from a place on, if there is one. -/
theorem take_findFrom (b : UInt8) {n : Nat} (hn : n ≤ s.length) :
    findFrom s [b] n = none ∧ s = s.take n ++ (s.drop n).takeWhile (· ≠ b) ∨
      ∃ i, findFrom s [b] n = some i ∧ s.take i = s.take n ++ (s.drop n).takeWhile (· ≠ b) := by
  obtain ⟨u, v, rfl, rfl⟩ : ∃ u v, s = u ++ v ∧ u.length = n :=
    ⟨s.take n, s.drop n, (List.take_append_drop n s).symm, List.length_take_of_le hn⟩
  rw [List.take_left, List.drop_left]
  by_cases hb : b ∈ v
  · have hv := eq_takeWhile_of_mem hb
    have hfree := notMem_takeWhile b v
    generalize v.takeWhile (· ≠ b) = w at hv hfree ⊢
    refine Or.inr ⟨u.length + w.length, ?_, ?_⟩
    · rw [hv, findFrom_byte hfree]
    · rw [hv, ← List.append_assoc, ← List.length_append]
      exact List.take_left
  · refine Or.inl ⟨findFrom_byte_none hb u, ?_⟩
    rw [takeWhile_of_notMem hb]

end Harbor.Bytes
