import Harbor.Lib.Find

set_option autoImplicit false

/-! # Replacing a pattern

`replaceAll` replaces every occurrence of a pattern, from left to right, and goes on behind each of them.
A byte that the pattern does not have cuts the text into parts that are replaced on their own.
-/

namespace Harbor.Bytes

variable {pat new : Bytes}

/-- `replaceAll` with a number of bytes still new skip. -/
def replaceFrom (pat new : Bytes) : Nat → Bytes → Bytes
  | _, [] => []
  | k + 1, _ :: s => replaceFrom pat new k s
  | 0, b :: s =>
      if pat <+: b :: s ∧ pat ≠ [] then new ++ replaceFrom pat new (pat.length - 1) s
      else b :: replaceFrom pat new 0 s

/-- Every occurrence of the pattern replaced. -/
def replaceAll (pat new s : Bytes) : Bytes := replaceFrom pat new 0 s

theorem replaceFrom_eq_drop (k : Nat) (s : Bytes) :
    replaceFrom pat new k s = replaceAll pat new (s.drop k) := by
  induction k generalizing s with
  | zero => rfl
  | succ k ih =>
      cases s with
      | nil => rfl
      | cons b s => rw [replaceFrom, ih, List.drop_succ_cons]

@[simp] theorem replaceAll_nil : replaceAll pat new [] = [] := rfl

theorem replaceAll_cons_of_not {b : UInt8} {s : Bytes} (h : ¬ pat <+: b :: s) :
    replaceAll pat new (b :: s) = b :: replaceAll pat new s := by
  rw [replaceAll, replaceFrom, if_neg fun hboth => h hboth.1]
  rfl

/-- An occurrence at the front. -/
theorem replaceAll_pat (hpat : pat ≠ []) (s : Bytes) :
    replaceAll pat new (pat ++ s) = new ++ replaceAll pat new s := by
  cases pat with
  | nil => exact absurd rfl hpat
  | cons b p =>
      rw [List.cons_append, replaceAll, replaceFrom, if_pos ⟨List.prefix_append (b :: p) s, hpat⟩,
        replaceFrom_eq_drop, List.length_cons, Nat.add_sub_cancel, List.drop_left]

/-- A part at whose places the pattern does not stand is kept. -/
theorem replaceAll_append_of_not {x y : Bytes} (h : ∀ x', x' ≠ [] → x' <:+ x → ¬ pat <+: x' ++ y) :
    replaceAll pat new (x ++ y) = x ++ replaceAll pat new y := by
  induction x with
  | nil => rfl
  | cons b x ih =>
      have hhead : ¬ pat <+: b :: (x ++ y) := h (b :: x) (by simp) (List.suffix_refl _)
      rw [List.cons_append, replaceAll_cons_of_not hhead,
        ih fun x' hx' hsuffix => h x' hx' (hsuffix.trans (List.suffix_cons b x)), List.cons_append]

/-- A text without the pattern is kept. -/
theorem replaceAll_of_not_infix {s : Bytes} (h : ¬ pat <:+: s) : replaceAll pat new s = s := by
  have hkeep := @replaceAll_append_of_not pat new s [] fun x' _ hsuffix hprefix => h (by
    rw [List.append_nil] at hprefix
    exact hprefix.isInfix.trans hsuffix.isInfix)
  rwa [List.append_nil, replaceAll_nil, List.append_nil] at hkeep

/-- A prefix of a text ends in front of a byte it does not have. -/
theorem prefix_of_prefix_append_cons {c : UInt8} (hc : c ∉ pat) {x y : Bytes} (h : pat <+: x ++ c :: y) :
    pat <+: x := by
  rcases Nat.le_or_ge pat.length x.length with hle | hge
  · exact List.prefix_of_prefix_length_le h (List.prefix_append _ _) hle
  · obtain ⟨p, rfl⟩ := List.prefix_of_prefix_length_le (List.prefix_append x (c :: y)) h hge
    rw [List.prefix_append_right_inj] at h
    cases p with
    | nil => simp
    | cons b p =>
        rw [List.cons_prefix_cons] at h
        exact absurd (by simp [h.1]) hc

/-- **A byte that the pattern does not have separates.** -/
theorem replaceAll_append_cons {c : UInt8} (hc : c ∉ pat) (x y : Bytes) :
    replaceAll pat new (x ++ c :: y) = replaceAll pat new x ++ c :: replaceAll pat new y := by
  induction hn : x.length using Nat.strong_induction_on generalizing x with
  | _ n ih =>
      cases x with
      | nil =>
          rw [List.nil_append, replaceAll_nil, List.nil_append]
          by_cases hpat : pat = []
          · subst hpat
            rw [replaceAll, replaceFrom, if_neg (by simp)]
            rfl
          · refine replaceAll_cons_of_not fun h => ?_
            obtain ⟨b, p, rfl⟩ := List.exists_cons_of_ne_nil hpat
            rw [List.cons_prefix_cons] at h
            exact hc (by simp [h.1])
      | cons b x =>
          subst hn
          by_cases hmatch : pat <+: b :: x ∧ pat ≠ []
          · obtain ⟨⟨x', hx'⟩, hpat⟩ := hmatch
            have hlen := congrArg List.length hx'
            have hpos := List.length_pos_of_ne_nil hpat
            rw [List.length_append] at hlen
            rw [← hx', List.append_assoc, replaceAll_pat hpat, replaceAll_pat hpat, List.append_assoc,
              ih x'.length (by omega) x' rfl]
          · have hno : ¬ (pat <+: b :: (x ++ c :: y) ∧ pat ≠ []) := by
              rintro ⟨hstarts, hpat⟩
              rw [← List.cons_append] at hstarts
              exact hmatch ⟨prefix_of_prefix_append_cons hc hstarts, hpat⟩
            rw [List.cons_append, replaceAll, replaceFrom, if_neg hno, replaceAll, replaceFrom,
              if_neg hmatch, List.cons_append]
            exact congrArg _ (ih x.length (by simp) x rfl)

/-! ## Deleting -/

theorem mem_of_mem_delete {b : UInt8} {s : Bytes} (h : b ∈ replaceAll pat [] s) : b ∈ s := by
  induction hn : s.length using Nat.strong_induction_on generalizing s with
  | _ n ih =>
      cases s with
      | nil => exact h
      | cons a s =>
          subst hn
          rw [replaceAll, replaceFrom] at h
          split_ifs at h with hmatch
          · rw [List.nil_append, replaceFrom_eq_drop] at h
            have hdrop := ih _ (by rw [List.length_drop, List.length_cons]; omega) h rfl
            exact List.mem_cons_of_mem a (List.mem_of_mem_drop hdrop)
          · rcases List.mem_cons.mp h with rfl | h
            · exact List.mem_cons_self
            · exact List.mem_cons_of_mem a (ih s.length (by simp) h rfl)

theorem length_delete_le (s : Bytes) : (replaceAll pat [] s).length ≤ s.length := by
  induction hn : s.length using Nat.strong_induction_on generalizing s with
  | _ n ih =>
      cases s with
      | nil => exact Nat.zero_le _
      | cons a s =>
          subst hn
          rw [replaceAll, replaceFrom]
          split_ifs with hmatch
          · rw [List.nil_append, replaceFrom_eq_drop]
            have hdrop := ih _ (by rw [List.length_drop, List.length_cons]; omega) (s.drop (pat.length - 1)) rfl
            rw [List.length_drop] at hdrop
            rw [List.length_cons]
            omega
          · have htail := ih s.length (by simp) s rfl
            rw [replaceAll] at htail
            rw [List.length_cons, List.length_cons]
            omega

/-- **Deleting keeps a text only if the pattern does not occur.** -/
theorem delete_eq_self_iff (hpat : pat ≠ []) {s : Bytes} : replaceAll pat [] s = s ↔ ¬ pat <:+: s := by
  refine ⟨fun h hinfix => ?_, replaceAll_of_not_infix⟩
  induction s with
  | nil =>
      rw [List.infix_nil] at hinfix
      exact hpat hinfix
  | cons b s ih =>
      by_cases hmatch : pat <+: b :: s
      · obtain ⟨t, ht⟩ := hmatch
        have hlen := congrArg List.length h
        have hshort := @length_delete_le pat t
        have hpos := List.length_pos_of_ne_nil hpat
        rw [← ht, replaceAll_pat hpat, List.nil_append, List.length_append] at hlen
        omega
      · rw [replaceAll_cons_of_not hmatch] at h
        exact ih (List.cons.inj h).2 ((List.infix_cons_iff.mp hinfix).resolve_left hmatch)

end Harbor.Bytes
