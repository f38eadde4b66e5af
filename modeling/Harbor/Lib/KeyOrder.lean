import Mathlib.Tactic

set_option autoImplicit false

/-! # Values in the order of their keys

Several producers write values under numeric keys into one list, in any interleaving. A stable sort by
the key is what an order-preserving consumer makes of the list: the values of key 0 in the order in
which they were written, then those of key 1, and so on (`inKeyOrder_eq`).
-/

namespace Harbor.KeyOrder

variable {β : Type}

/-- The values written under `k`. -/
def valuesOf (l : List (Nat × β)) (k : Nat) : List β := (l.filter fun a => a.1 == k).map Prod.snd

/-- The values, sorted by their keys. -/
def inKeyOrder (l : List (Nat × β)) : List β := (l.mergeSort fun a b => a.1 ≤ b.1).map Prod.snd

@[simp] theorem valuesOf_nil (k : Nat) : valuesOf ([] : List (Nat × β)) k = [] := rfl

theorem valuesOf_append (l m : List (Nat × β)) (k : Nat) :
    valuesOf (l ++ m) k = valuesOf l k ++ valuesOf m k := by
  simp [valuesOf]

theorem valuesOf_singleton_self (k : Nat) (v : β) : valuesOf [(k, v)] k = [v] := by
  simp [valuesOf]

theorem valuesOf_singleton_ne {j k : Nat} (h : j ≠ k) (v : β) : valuesOf [(j, v)] k = [] := by
  simp [valuesOf, h]

theorem valuesOf_eq_nil {l : List (Nat × β)} {k : Nat} (h : ∀ a ∈ l, a.1 ≠ k) : valuesOf l k = [] := by
  rw [valuesOf, List.map_eq_nil_iff, List.filter_eq_nil_iff]
  intro a ha
  simpa using h a ha

theorem key_trans (a b c : Nat × β) (hab : decide (a.1 ≤ b.1) = true) (hbc : decide (b.1 ≤ c.1) = true) :
    decide (a.1 ≤ c.1) = true :=
  decide_eq_true ((of_decide_eq_true hab).trans (of_decide_eq_true hbc))

theorem key_total (a b : Nat × β) : (decide (a.1 ≤ b.1) || decide (b.1 ≤ a.1)) = true := by
  simpa using Nat.le_total a.1 b.1

/-- Sorting by the key leaves the values of one key as they are. -/
theorem valuesOf_mergeSort (l : List (Nat × β)) (k : Nat) :
    valuesOf (l.mergeSort fun a b => a.1 ≤ b.1) k = valuesOf l k := by
  have hsorted : (l.filter fun a => a.1 == k).Pairwise fun a b => decide (a.1 ≤ b.1) = true := by
    refine List.pairwise_of_forall_mem_list fun a ha b hb => ?_
    have hka : a.1 = k := by simpa using (List.mem_filter.mp ha).2
    have hkb : b.1 = k := by simpa using (List.mem_filter.mp hb).2
    simp [hka, hkb]
  have hsub := List.sublist_mergeSort key_trans key_total hsorted (@List.filter_sublist _ _ l)
  -- stability gives one sublist, and the two have the same length
  have hsub := hsub.filter fun a => a.1 == k
  rw [List.filter_filter] at hsub
  simp only [Bool.and_self] at hsub
  have hperm := (List.mergeSort_perm l fun a b => decide (a.1 ≤ b.1)).filter fun a => a.1 == k
  rw [valuesOf, valuesOf, hsub.eq_of_length hperm.length_eq.symm]

/-- The largest keys of a sorted list come last. -/
theorem filter_append_of_sorted {n : Nat} {l : List (Nat × β)} (hsorted : l.Pairwise fun a b => a.1 ≤ b.1)
    (hlt : ∀ a ∈ l, a.1 < n + 1) :
    (l.filter fun a => decide (a.1 < n)) ++ (l.filter fun a => a.1 == n) = l := by
  induction l with
  | nil => rfl
  | cons a l ih =>
      have hrest := ih hsorted.of_cons fun b hb => hlt b (List.mem_cons_of_mem _ hb)
      have hhead := hlt a List.mem_cons_self
      by_cases han : a.1 < n
      · rw [List.filter_cons_of_pos (by simpa using han), List.filter_cons_of_neg (by simp; omega),
          List.cons_append, hrest]
      · -- `a` has the largest key, and so has everything behind it
        have hnone : (l.filter fun a => decide (a.1 < n)) = [] := by
          rw [List.filter_eq_nil_iff]
          intro b hb
          have hle := List.rel_of_pairwise_cons hsorted hb
          simp only [decide_eq_true_eq]
          omega
        rw [hnone, List.nil_append] at hrest
        rw [List.filter_cons_of_neg (by simpa using han), List.filter_cons_of_pos (by simp; omega), hnone,
          List.nil_append, hrest]

/-- A sorted list is its values of key 0, then those of key 1, and so on. -/
theorem map_snd_of_sorted (n : Nat) :
    ∀ l : List (Nat × β), (l.Pairwise fun a b => a.1 ≤ b.1) → (∀ a ∈ l, a.1 < n) →
      l.map Prod.snd = (List.range n).flatMap (valuesOf l) := by
  induction n with
  | zero =>
      intro l _ hlt
      cases l with
      | nil => rfl
      | cons a l => exact absurd (hlt a List.mem_cons_self) (Nat.not_lt_zero _)
  | succ n ih =>
      intro l hsorted hlt
      have hlow : ∀ k < n, valuesOf (l.filter fun a => decide (a.1 < n)) k = valuesOf l k := by
        intro k hk
        rw [valuesOf, valuesOf, List.filter_filter]
        congr 1
        refine List.filter_congr fun a _ => ?_
        by_cases hak : a.1 = k
        · simp [hak, hk]
        · simp [hak]
      have hih := ih (l.filter fun a => decide (a.1 < n)) (hsorted.filter _)
        fun a ha => by simpa using (List.mem_filter.mp ha).2
      calc l.map Prod.snd
          = (l.filter fun a => decide (a.1 < n)).map Prod.snd ++ valuesOf l n := by
            rw [valuesOf, ← List.map_append, filter_append_of_sorted hsorted hlt]
        _ = (List.range n).flatMap (valuesOf l) ++ valuesOf l n := by
            rw [hih]
            congr 1
            exact List.flatMap_congr fun k hk => hlow k (List.mem_range.mp hk)
        _ = (List.range (n + 1)).flatMap (valuesOf l) := by
            rw [List.range_succ, List.flatMap_append, List.flatMap_singleton]

/-- **A stable sort by the key lines the keys up.** -/
theorem inKeyOrder_eq {l : List (Nat × β)} {n : Nat} (h : ∀ a ∈ l, a.1 < n) :
    inKeyOrder l = (List.range n).flatMap (valuesOf l) := by
  have hsorted := List.pairwise_mergeSort key_trans key_total l
  rw [inKeyOrder, map_snd_of_sorted n _ (hsorted.imp fun h => by simpa using h)
    fun a ha => h a (List.mem_mergeSort.mp ha)]
  exact List.flatMap_congr fun k _ => valuesOf_mergeSort l k

end Harbor.KeyOrder
