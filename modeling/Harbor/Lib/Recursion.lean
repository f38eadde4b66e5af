import Mathlib.Tactic

set_option autoImplicit false

/-! # Recursion with a budget

A function that calls itself is written here as a body that asks another function: `unroll F out n` is the
body `F` with calls at most `n` deep, and the error `out` where the budget is used up. `Asks g x asked` says
which calls a computation makes when they are answered as `g` answers them. The budget suffices exactly
where no chain of calls is as long as it is (`Recursion.unroll_eq_iff`), and chains are as long as a rank that
every call lowers, up to the calls that set it back (`Path.length_le`).
-/

namespace Harbor

variable {α β γ δ ε : Type}

/-- The computation asks for what `asked` holds of, as long as it gets the answers of `g`, and stops at the
first error. -/
structure Asks (g : α → Except ε β) (x : (α → Except ε β) → Except ε γ) (asked : α → Prop) : Prop where
  congr : ∀ h : α → Except ε β, (∀ a, asked a → h a = g a) → x h = x g
  fails : ∀ (h : α → Except ε β) (e : ε), (∀ a, asked a → h a = g a ∨ h a = .error e) →
    (∃ a, asked a ∧ h a = .error e) → x h = .error e

namespace Asks

variable {g : α → Except ε β}

/-- A computation that asks for nothing. -/
theorem const (y : Except ε γ) : Asks g (fun _ => y) fun _ => False where
  congr _ _ := rfl
  fails _ _ _ h := by
    obtain ⟨_, hnone, _⟩ := h
    exact hnone.elim

theorem call (a : α) : Asks g (fun h => h a) fun a' => a' = a where
  congr h hall := hall a rfl
  fails h e _ hfail := by
    obtain ⟨a', rfl, ha⟩ := hfail
    exact ha

/-- One computation after the other. -/
theorem bind {x : (α → Except ε β) → Except ε γ} {y : γ → (α → Except ε β) → Except ε δ}
    {asked : α → Prop} {then_ : γ → α → Prop} (hx : Asks g x asked)
    (hy : ∀ c, x g = .ok c → Asks g (y c) (then_ c)) :
    Asks g (fun h => x h >>= fun c => y c h) fun a => asked a ∨ ∃ c, x g = .ok c ∧ then_ c a where
  congr h hall := by
    show (x h >>= fun c => y c h) = x g >>= fun c => y c g
    rw [hx.congr h fun a ha => hall a (Or.inl ha)]
    cases hg : x g with
    | error e => rfl
    | ok c => exact (hy c hg).congr h fun a ha => hall a (Or.inr ⟨c, hg, ha⟩)
  fails h e hall hfail := by
    show (x h >>= fun c => y c h) = .error e
    by_cases hfirst : ∃ a, asked a ∧ h a = .error e
    · rw [hx.fails h e (fun a ha => hall a (Or.inl ha)) hfirst]
      rfl
    · have hagree : x h = x g := by
        refine hx.congr h fun a ha => (hall a (Or.inl ha)).resolve_right fun herror => ?_
        exact hfirst ⟨a, ha, herror⟩
      obtain ⟨a, ha | ⟨c, hg, ha⟩, herror⟩ := hfail
      · exact absurd ⟨a, ha, herror⟩ hfirst
      · rw [hagree, hg]
        exact (hy c hg).fails h e (fun a ha => hall a (Or.inr ⟨c, hg, ha⟩)) ⟨a, ha, herror⟩

theorem of_iff {x : (α → Except ε β) → Except ε γ} {asked asked' : α → Prop} (h : Asks g x asked)
    (hiff : ∀ a, asked' a ↔ asked a) : Asks g x asked' := by
  have heq : asked' = asked := funext fun a => propext (hiff a)
  rw [heq]
  exact h

/-- Behind something that does not ask. -/
theorem const_bind (x : Except ε γ) {y : γ → (α → Except ε β) → Except ε δ} {then_ : γ → α → Prop}
    (hy : ∀ c, x = .ok c → Asks g (y c) (then_ c)) :
    Asks g (fun h => x >>= fun c => y c h) fun a => ∃ c, x = .ok c ∧ then_ c a :=
  ((const x).bind hy).of_iff fun _ => by simp

/-- Before something that does not ask. -/
theorem bind_const {x : (α → Except ε β) → Except ε γ} {asked : α → Prop} (hx : Asks g x asked)
    (y : γ → Except ε δ) : Asks g (fun h => x h >>= y) asked :=
  (hx.bind fun c _ => const (y c)).of_iff fun _ => by simp

end Asks

/-! ## Chains of calls -/

variable {κ : Type}

/-- `n` calls into each other, of which `w` are of the kinds that set the rank back. -/
inductive Path (calls : α → κ → α → Prop) (resets : κ → Bool) : α → Nat → Nat → Prop where
  | nil (a : α) : Path calls resets a 0 0
  | cons {a b : α} {k : κ} {n w : Nat} (h : calls a k b) (hs : Path calls resets b n w) :
      Path calls resets a (n + 1) (w + (resets k).toNat)

namespace Path

variable {calls : α → κ → α → Prop} {resets : κ → Bool}

theorem resets_le {a : α} {n w : Nat} (h : Path calls resets a n w) : w ≤ n := by
  induction h with
  | nil a => exact Nat.le_refl 0
  | @cons a b k n w h hs ih => cases resets k <;> simp <;> omega

/-- The first of the calls. -/
theorem take {a : α} {n w : Nat} (h : Path calls resets a n w) {m : Nat} (hm : m ≤ n) :
    ∃ v, Path calls resets a m v := by
  induction h generalizing m with
  | nil a =>
      obtain rfl := Nat.le_zero.mp hm
      exact ⟨0, .nil a⟩
  | cons h hs ih =>
      cases m with
      | zero => exact ⟨0, .nil _⟩
      | succ m =>
          obtain ⟨v, hv⟩ := ih (Nat.le_of_succ_le_succ hm)
          exact ⟨_, .cons h hv⟩

/-- **As long as the rank allows.** Every call lowers it, or sets it to at most `R`. -/
theorem length_le (rank : α → Nat) {R : Nat}
    (hlower : ∀ a k b, calls a k b → resets k = false → rank b < rank a)
    (hreset : ∀ a k b, calls a k b → resets k = true → rank b ≤ R) {a : α} {n w : Nat}
    (h : Path calls resets a n w) : n ≤ rank a + w * (R + 1) := by
  induction h with
  | nil a => exact Nat.zero_le _
  | @cons a b k n w h hs ih =>
      cases hk : resets k with
      | false =>
          have hrank := hlower a k b h hk
          simp only [Bool.toNat_false, Nat.add_zero]
          omega
      | true =>
          have hrank := hreset a k b h hk
          simp only [Bool.toNat_true, Nat.add_mul, Nat.one_mul]
          omega

end Path

/-! ## Budgets -/

/-- The body with calls at most `n` deep. -/
def unroll (F : (α → Except ε β) → α → Except ε β) (out : ε) : Nat → α → Except ε β
  | 0, _ => .error out
  | n + 1, a => F (unroll F out n) a

/-- `g` is the function without a budget: its own body, with calls that lower a measure. -/
structure Recursion (F : (α → Except ε β) → α → Except ε β) (out : ε) (g : α → Except ε β)
    (calls : α → κ → α → Prop) : Prop where
  asks : ∀ a, Asks g (fun h => F h a) fun b => ∃ k, calls a k b
  body : ∀ a, F g a = g a
  finishes : ∀ a, g a ≠ .error out

namespace Recursion

variable {F : (α → Except ε β) → α → Except ε β} {out : ε} {g : α → Except ε β}
  {calls : α → κ → α → Prop}

/-- A budget gives the result or is used up. -/
theorem unroll_eq_or (h : Recursion F out g calls) (n : Nat) (a : α) :
    unroll F out n a = g a ∨ unroll F out n a = .error out := by
  induction n generalizing a with
  | zero => exact Or.inr rfl
  | succ n ih =>
      by_cases hfail : ∃ b, (∃ k, calls a k b) ∧ unroll F out n b = .error out
      · exact Or.inr ((h.asks a).fails (unroll F out n) out (fun b _ => ih b) hfail)
      · refine Or.inl ((h.asks a).congr (unroll F out n) (fun b hb => ?_) |>.trans (h.body a))
        exact (ih b).resolve_right fun herror => hfail ⟨b, hb, herror⟩

/-- **A budget suffices exactly when no chain of calls is as long.** -/
theorem unroll_eq_iff (h : Recursion F out g calls) (resets : κ → Bool) (n : Nat) (a : α) :
    unroll F out n a = g a ↔ ¬ ∃ w, Path calls resets a n w := by
  constructor
  · rintro heq ⟨w, hpath⟩
    have hout : unroll F out n a = .error out := by
      clear heq
      induction hpath with
      | nil a => rfl
      | @cons a b k n w hcall hs ih =>
          exact (h.asks a).fails (unroll F out n) out (fun b _ => h.unroll_eq_or n b) ⟨b, ⟨k, hcall⟩, ih⟩
    exact h.finishes a (heq.symm.trans hout)
  · intro hnone
    induction n generalizing a with
    | zero => exact absurd ⟨0, .nil a⟩ hnone
    | succ n ih =>
        refine ((h.asks a).congr (unroll F out n) fun b hb => ih b ?_).trans (h.body a)
        rintro ⟨w, hpath⟩
        obtain ⟨k, hcall⟩ := hb
        exact hnone ⟨_, .cons hcall hpath⟩

end Recursion

/-- The function without a budget is the one with as much of it as a measure asks for that every call
lowers. -/
theorem unroll_eq_of_measure {F : (α → Except ε β) → α → Except ε β} {out : ε} {calls : α → κ → α → Prop}
    (measure : α → Nat) {g : α → Except ε β} (hg : ∀ a, g a = unroll F out (measure a + 1) a)
    (hasks : ∀ a, Asks g (fun h => F h a) fun b => ∃ k, calls a k b)
    (hlower : ∀ a k b, calls a k b → measure b < measure a) :
    (∀ n a, measure a < n → unroll F out n a = g a) ∧ ∀ a, F g a = g a := by
  have hrun : ∀ n a, measure a < n → unroll F out n a = F g a := by
    intro n
    induction n using Nat.strong_induction_on with
    | _ n ih =>
        intro a ha
        obtain ⟨n, rfl⟩ := Nat.exists_eq_add_one_of_ne_zero (Nat.ne_of_gt (Nat.zero_lt_of_lt ha))
        refine (hasks a).congr (unroll F out n) fun b ⟨k, hb⟩ => ?_
        have hsmaller := hlower a k b hb
        rw [hg b, ih n (by omega) b (by omega), ih (measure b + 1) (by omega) b (by omega)]
  have hbody : ∀ a, F g a = g a := fun a => by rw [hg a, hrun _ a (Nat.lt_succ_self _)]
  exact ⟨fun n a ha => (hrun n a ha).trans (hbody a), hbody⟩

end Harbor
